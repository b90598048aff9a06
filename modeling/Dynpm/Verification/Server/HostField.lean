import Dynpm.Model.Server

/-! # The fields of a client connection that is not registered yet

A host can be accessed if it has been registered, or if the memory of its connection held a null
pointer. The functions that print the list or release a connection fault exactly where a host
cannot be accessed.
-/

namespace Dynpm.Server

open Library Dynpm.Protocol

variable {s : State} {c : ℕ}

/-- The fields of a registered connection are those of its registration. -/
theorem fields_registered {regmsg : RegisterConnectionMsg} (h : s.registration c = some regmsg) :
    s.pidField c = regmsg.pid ∧ s.hostField c = .string regmsg.hostname := by
  rw [State.pidField, State.hostField, h]
  exact ⟨rfl, rfl⟩

/-- Without a registration they are what the memory held. -/
theorem fields_unregistered (h : s.registration c = none) :
    s.pidField c = (s.memory c).pid ∧
      s.hostField c = if (s.memory c).hostNull then .null else .wild := by
  rw [State.pidField, State.hostField, h]
  exact ⟨rfl, rfl⟩

/-- The connection is registered, or its memory held a null pointer. -/
def State.HostAccessible (s : State) (c : ℕ) : Prop :=
  s.registration c ≠ none ∨ (s.memory c).hostNull = true

/-- If the connection is not found in the list, then the hosts of the whole list can be printed. -/
def State.FoundOrPrintable (s : State) (c : ℕ) : Prop :=
  c ∈ s.head ∨ ∀ d ∈ s.head, s.HostAccessible d

theorem accessHost_eq_ok_iff : accessHost s c = .ok () ↔ s.HostAccessible c := by
  rw [State.HostAccessible]
  cases h : s.registration c with
  | none =>
      rw [accessHost, (fields_unregistered h).2]
      cases (s.memory c).hostNull with
      | false => simp
      | true => simp
  | some regmsg =>
      rw [accessHost, (fields_registered h).2]
      exact iff_of_true rfl (Or.inl (by simp))

theorem printClientConnections_eq_ok_iff :
    printClientConnections s = .ok () ↔ ∀ d ∈ s.head, s.HostAccessible d := by
  rw [printClientConnections, forM_eq_ok_iff]
  simp only [printHost, accessHost_eq_ok_iff]

theorem printForChildren_ok (h : accessHost s c = .ok ()) : printForChildren s c = .ok () := by
  rw [printForChildren, forM_eq_ok_iff]
  intro index _
  cases s.client.serverConnections index with
  | none => rfl
  | some k =>
      dsimp only
      split
      · exact h
      · rfl

theorem serverOnErrorHosts_eq_ok_iff :
    serverOnErrorHosts s c = .ok () ↔ s.HostAccessible c ∧ s.FoundOrPrintable c := by
  rw [State.FoundOrPrintable, ← accessHost_eq_ok_iff, ← printClientConnections_eq_ok_iff]
  by_cases hmem : c ∈ s.head
  · have heq : serverOnErrorHosts s c = (printForChildren s c >>= fun _ =>
        printHost s c >>= fun _ => freeHost s c) := by
      rw [serverOnErrorHosts, if_pos hmem]
    rw [heq, bind_eq_ok_iff, bind_eq_ok_iff]
    constructor
    · rintro ⟨-, haccess, -⟩
      exact ⟨haccess, Or.inl hmem⟩
    · rintro ⟨haccess, -⟩
      exact ⟨printForChildren_ok haccess, haccess, haccess⟩
  · have heq : serverOnErrorHosts s c = (printHost s c >>= fun _ =>
        printClientConnections s >>= fun _ => freeHost s c) := by
      rw [serverOnErrorHosts, if_neg hmem]
    rw [heq, bind_eq_ok_iff, bind_eq_ok_iff]
    constructor
    · rintro ⟨haccess, hall, -⟩
      exact ⟨haccess, Or.inr hall⟩
    · rintro ⟨haccess, hall⟩
      exact ⟨haccess, hall.resolve_left hmem, haccess⟩

/-! ## Removing a connection from the list -/

/-- A connection that is in the list is taken out of it, and another one is left alone. -/
theorem removeClientConnectionFromList_ok (h : s.FoundOrPrintable c) :
    removeClientConnectionFromList s c = .ok { s with head := s.head.erase c } := by
  unfold removeClientConnectionFromList
  split
  · rfl
  · next hmem =>
      rw [printClientConnections_eq_ok_iff.mpr (h.resolve_left hmem), ok_bind,
        List.erase_of_not_mem hmem]
      rfl

theorem removeClientConnectionFromList_eq_ok {t : State}
    (h : removeClientConnectionFromList s c = .ok t) :
    s.FoundOrPrintable c ∧ t = { s with head := s.head.erase c } := by
  have hprintable : s.FoundOrPrintable c := by
    by_cases hmem : c ∈ s.head
    · exact Or.inl hmem
    · rw [removeClientConnectionFromList, if_neg hmem] at h
      obtain ⟨_, hprint, _⟩ := bind_eq_ok h
      exact Or.inr (printClientConnections_eq_ok_iff.mp hprint)
  exact ⟨hprintable,
    (Except.ok.inj ((removeClientConnectionFromList_ok hprintable).symm.trans h)).symm⟩

/-! ## The registrations -/

theorem registration_of_connections {s t : State} (h : t.connections = s.connections) (c : ℕ) :
    t.registration c = s.registration c := by
  rw [State.registration, State.registration, h]

/-- A new connection has no registration. -/
theorem registration_setup (s : State) (c : ℕ) :
    (clientConnectionSetup (clientConnectionEventHandler s) s.connections.length).registration c =
      s.registration c := by
  simp only [State.registration, clientConnectionSetup, clientConnectionEventHandler]
  rcases Nat.lt_trichotomy c s.connections.length with hlt | rfl | hgt
  · rw [List.getElem?_append_left hlt]
  · simp
  · rw [List.getElem?_eq_none (by simp; omega), List.getElem?_eq_none (by omega)]

theorem registration_register {s : State} {c : ℕ} (hlive : s.Live c)
    (regmsg : RegisterConnectionMsg) (d : ℕ) :
    (registerClientConnection s c regmsg).registration d =
      if d = c then some regmsg else s.registration d := by
  simp only [State.registration, registerClientConnection]
  by_cases heq : d = c
  · subst heq
    rw [List.getElem?_set_self hlive.1, if_pos rfl]
    rfl
  · rw [List.getElem?_set_ne (Ne.symm heq), if_neg heq]

end Dynpm.Server
