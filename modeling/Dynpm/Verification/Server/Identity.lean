import Dynpm.Model.ClientLookup
import Dynpm.Verification.Server.Upstream

/-! # Connections that are not registered yet

Between its insertion into the list and the processing of its registration a connection has no
identity, but the lookup and `_server_on_error` do not know. What they do with such a connection
depends on what its memory held.
-/

namespace Dynpm.Server

open Library Dynpm.Protocol

section

variable {s : State} {c : ℕ} (host : List UInt8) (pid : UInt32)

/-! ## The lookup -/

/-- A registered connection is compared with its registration. -/
theorem compareIdHost_registered {regmsg : RegisterConnectionMsg}
    (h : s.registration c = some regmsg) :
    compareIdHost s host pid c = .ok (regmsg = ⟨pid, host⟩) := by
  obtain ⟨hpid, hhost⟩ := fields_registered h
  obtain ⟨pid', host'⟩ := regmsg
  rw [compareIdHost, hpid, hhost]
  by_cases heq : pid' = pid
  · simp [heq]
  · simp [heq]

/-- A connection without a registration is passed over unless its memory held the pid. -/
theorem compareIdHost_unregistered (h : s.registration c = none) :
    (∃ fault, compareIdHost s host pid c = .error fault) ∧ (s.memory c).pid = pid ∨
      compareIdHost s host pid c = .ok false ∧ (s.memory c).pid ≠ pid := by
  obtain ⟨hpid, hhost⟩ := fields_unregistered h
  rw [compareIdHost, hpid, hhost]
  by_cases heq : (s.memory c).pid = pid
  · rw [if_pos heq]
    cases (s.memory c).hostNull with
    | false => exact Or.inl ⟨⟨_, rfl⟩, heq⟩
    | true => exact Or.inl ⟨⟨_, rfl⟩, heq⟩
  · rw [if_neg heq]
    exact Or.inr ⟨rfl, heq⟩

/-- The loop finds the first connection that is registered under the given name, as long as no
connection in front of it has the pid only by accident. -/
theorem findInList_eq_iff (cs : List ℕ) :
    findInList s host pid cs =
        .ok (cs.find? fun c => s.registration c = some ⟨pid, host⟩) ↔
      ∀ c ∈ cs.takeWhile fun c => s.registration c ≠ some ⟨pid, host⟩,
        s.registration c = none → (s.memory c).pid ≠ pid := by
  induction cs with
  | nil => exact iff_of_true rfl (by simp)
  | cons c cs ih =>
      cases hregistration : s.registration c with
      | none =>
          have hne : s.registration c ≠ some ⟨pid, host⟩ := by simp [hregistration]
          rw [List.find?_cons_of_neg (by simpa using hne),
            List.takeWhile_cons_of_pos (by simpa using hne), List.forall_mem_cons]
          rcases compareIdHost_unregistered host pid hregistration with
            ⟨⟨fault, hcompare⟩, hpid⟩ | ⟨hcompare, hpid⟩
          · rw [findInList, hcompare]
            refine iff_of_false (by simp [error_bind]) ?_
            rintro ⟨hfirst, -⟩
            exact hfirst hregistration hpid
          · rw [findInList, hcompare, ok_bind, if_neg (by decide), ih]
            exact ⟨fun h => ⟨fun _ => hpid, h⟩, And.right⟩
      | some regmsg =>
          rw [findInList, compareIdHost_registered host pid hregistration, ok_bind]
          by_cases hmatch : regmsg = ⟨pid, host⟩
          · have heq : s.registration c = some ⟨pid, host⟩ := by rw [hregistration, hmatch]
            rw [if_pos (by simpa using hmatch), List.find?_cons_of_pos (by simpa using heq),
              List.takeWhile_cons_of_neg (by simpa using heq)]
            exact iff_of_true rfl (by simp)
          · have hne : s.registration c ≠ some ⟨pid, host⟩ := by simpa [hregistration] using hmatch
            rw [if_neg (by simpa using hmatch), List.find?_cons_of_neg (by simpa using hne),
              List.takeWhile_cons_of_pos (by simpa using hne), List.forall_mem_cons, ih]
            exact ⟨fun h => ⟨fun hnone => absurd hnone (by simp [hregistration]), h⟩, And.right⟩

end

/-! ## Whole runs -/

/-- The fields of the connections hold the registrations that have been processed last. -/
def Linked (s : Clients) : Prop := ∀ c, s.latest c = s.server.registration c

theorem linked_initial (memory : ℕ → Allocation) : Linked (clientsInitial memory) := fun _ => rfl

/-- An action that leaves the connections, or adds one, sets no registration. -/
theorem Linked.of_registration {s : Clients} {t : State} (h : Linked s)
    (hsame : ∀ c, t.registration c = s.server.registration c) : Linked ⟨t, s.latest⟩ := by
  intro c
  exact (h c).trans (hsame c).symm

theorem Linked.of_keeps {s : Clients} {t : State} (h : Linked s) (hkeeps : Keeps s.server t) :
    Linked ⟨t, s.latest⟩ :=
  h.of_registration (registration_of_connections hkeeps.1)

theorem Linked.step {s t : Clients} (h : Linked s) {event : Event}
    (hstep : clientsSystem.step s event = some t) : Linked t := by
  cases event with
  | find host pid =>
      obtain ⟨_, hs⟩ := Option.ite_none_left_eq_some.mp hstep
      exact Option.some.inj hs ▸ h
  | server action =>
      obtain ⟨u, hu, rfl⟩ := Option.map_eq_some_iff.mp hstep
      obtain ⟨_, _, ⟨rfl, rfl⟩ | ⟨c, regmsg, rfl, hlive, rfl⟩ | ⟨c, rfl, rfl⟩ |
        ⟨parent, outcome, rfl, _, rfl⟩ | ⟨index, rfl, rfl⟩ | ⟨c, rfl, _, rfl⟩ | ⟨rfl, rfl⟩⟩ :=
        step_cases hu
      · exact h.of_registration (registration_setup s.server)
      · intro d
        rw [registration_register hlive regmsg d]
        by_cases heq : d = c
        · rw [if_pos heq, heq]
          exact Function.update_self _ _ _
        · rw [if_neg heq, ← h d]
          exact Function.update_of_ne heq _ _
      · exact h.of_keeps (settle_keeps fun _ => deregister_keeps)
      · exact h.of_keeps ⟨rfl, rfl⟩
      · exact h.of_keeps ⟨rfl, rfl⟩
      · exact h.of_keeps (settle_keeps fun _ ht => (serverOnError_keeps ht).1)
      · exact h.of_keeps (settle_keeps fun _ ht => (clear_eq_ok_iff.mp ht).2 ▸ ⟨rfl, rfl⟩)

theorem memory_clientsStep {s t : Clients} {event : Event}
    (hstep : clientsSystem.step s event = some t) : t.server.memory = s.server.memory := by
  cases event with
  | find host pid =>
      obtain ⟨_, hs⟩ := Option.ite_none_left_eq_some.mp hstep
      exact Option.some.inj hs ▸ rfl
  | server action =>
      obtain ⟨u, hu, rfl⟩ := Option.map_eq_some_iff.mp hstep
      exact memory_step hu

/-- The lookup finds the first connection of the list whose last registration has the given host
and pid, and neither the lookup nor `_server_on_error` accesses the host of a connection that has
not been registered unless it is null. -/
def SeesRegistered (s : Clients) : Event → Prop
  | .find host pid => findClientConnectionInList s.server host pid =
      .ok (s.server.head.find? fun c => s.latest c = some ⟨pid, host⟩)
  | .server (.eof c) => serverOnErrorHosts s.server c = .ok ()
  | .server _ => True

/-- No connection that is not registered and stands in front of the one looked up has the pid in its
memory. A connection whose end is handled is registered or has a null pointer in its memory, and if
it has been deregistered this holds for all connections of the list. -/
def MemoryHarmless (memory : ℕ → Allocation) (s : Clients) : Event → Prop
  | .find host pid => ∀ c ∈ s.server.head.takeWhile fun c => s.latest c ≠ some ⟨pid, host⟩,
      s.latest c = none → (memory c).pid ≠ pid
  | .server (.eof c) => (s.latest c ≠ none ∨ (memory c).hostNull = true) ∧
      (c ∈ s.server.head ∨
        ∀ d ∈ s.server.head, s.latest d ≠ none ∨ (memory d).hostNull = true)
  | .server _ => True

theorem seesRegistered_iff {s : Clients} (h : Linked s) (event : Event) :
    SeesRegistered s event ↔ MemoryHarmless s.server.memory s event := by
  have hlatest : s.latest = s.server.registration := funext h
  cases event with
  | find host pid =>
      simp only [SeesRegistered, MemoryHarmless, hlatest]
      exact findInList_eq_iff host pid s.server.head
  | server action =>
      cases action with
      | eof c =>
          simp only [SeesRegistered, MemoryHarmless, hlatest]
          exact serverOnErrorHosts_eq_ok_iff
      | _ => exact Iff.rfl

/-- In every run the lookups and the ends of connections see registered identities only if and only
if they come across no connection without a registration whose memory matches: the fields `pid` and
`host` of a new connection are not initialised. -/
theorem only_registered_seen_iff (memory : ℕ → Allocation) (events : List Event) :
    clientsSystem.Respecting SeesRegistered (clientsInitial memory) events ↔
      clientsSystem.Respecting (MemoryHarmless memory) (clientsInitial memory) events := by
  apply System.respecting_congr (I := fun s => Linked s ∧ s.server.memory = memory) _ _
    ⟨linked_initial memory, rfl⟩
  · rintro s event t ⟨h, hmemory⟩ hstep
    exact ⟨h.step hstep, (memory_clientsStep hstep).trans hmemory⟩
  · rintro s event t ⟨h, rfl⟩ _
    exact seesRegistered_iff h event

/-- A client that is looked up, or goes away, between its insertion into the list and its
registration: its host is compared and released although nothing has assigned it. -/
theorem unregistered_seen :
    ¬ clientsSystem.Respecting SeesRegistered (clientsInitial staleMemory)
      [.server .setup, .find [110, 49] 7] ∧
    ¬ clientsSystem.Respecting SeesRegistered (clientsInitial staleMemory)
      [.server .setup, .server (.eof 0)] := by
  constructor
  · intro h
    obtain ⟨-, hafter⟩ := h _ rfl
    obtain ⟨hfind, -⟩ := hafter _ rfl
    have hfault : findClientConnectionInList
        (clientConnectionSetup (clientConnectionEventHandler (initial staleMemory)) 0) [110, 49] 7 =
          .error .outOfBounds := rfl
    exact absurd (hfault.symm.trans hfind) (by simp)
  · intro h
    obtain ⟨-, hafter⟩ := h _ rfl
    obtain ⟨heof, -⟩ := hafter _ rfl
    have hfault : serverOnErrorHosts
        (clientConnectionSetup (clientConnectionEventHandler (initial staleMemory)) 0) 0 =
          .error .outOfBounds := by decide
    exact absurd (hfault.symm.trans heof) (by simp)

end Dynpm.Server
