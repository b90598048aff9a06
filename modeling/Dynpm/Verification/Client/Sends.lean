import Dynpm.Model.ClientSend
import Dynpm.Verification.Client.Table
import Dynpm.Verification.Protocol.TextRoundTrip

/-! # Sends beside disconnects

Between the two reads of its entry a send relies on the entry staying as it is. Connecting only
fills free entries, so that nothing but a disconnect of this entry can interfere.
-/

namespace Dynpm.ClientSend

open Library Dynpm.Send

variable {s u : State} {t : ℕ}

/-- What holds between the steps as long as no send is interfered with. -/
structure Invariant (s : State) : Prop where
  safe : s.Safe
  stays : ∀ t outgoing index checked, s.sender t = .checked outgoing index checked →
    s.client.serverConnections index = some checked
  same : ∀ t outgoing checked connection, s.sender t = .holding outgoing checked connection →
    connection = checked

theorem invariant_initial : Invariant initial where
  safe := ⟨fun _ => by simp [initial], by simp [initial], fun _ => rfl⟩
  stays := by simp [initial]
  same := by simp [initial]

/-! ## Steps of the client -/

/-- Connecting leaves the occupied entries as they are. -/
theorem connectToServer_keeps {client : Client.State} {i : Fin maxServerConnections} {c : ℕ}
    (h : client.serverConnections i = some c) (outcome : Client.ConnectOutcome) :
    (Client.connectToServer client outcome).1.serverConnections i = some c := by
  unfold Client.connectToServer
  split
  · exact h
  · split
    · exact h
    · simp only
      split
      · exact h
      · next index hfree =>
          have hne : i ≠ index := by
            rintro rfl
            exact absurd (h.symm.trans (SlotTable.firstFree_some hfree)) (by simp)
          simp only [Function.update_of_ne hne, h]

/-- No send stands between the two reads of the entry at this index. -/
def NoSendAt (s : State) (index : Fin maxServerConnections) : Prop :=
  ∀ t outgoing checked, s.sender t ≠ .checked outgoing index checked

/-- An entry is disconnected only while no send stands between its two reads of this entry. -/
def Undisturbing (s : State) : Action → Prop
  | .disconnect index => NoSendAt s index
  | .remoteClose connection => ∀ object, s.client.connections[connection]? = some object →
      NoSendAt s object.index
  | _ => True

/-- A step of the client that keeps the entries that sends rely on. -/
theorem Invariant.client (h : Invariant s) {client : Client.State}
    (hkeeps : ∀ t outgoing index checked, s.sender t = .checked outgoing index checked →
      client.serverConnections index = some checked) : Invariant { s with client } where
  safe := ⟨h.safe.no_null, h.safe.own, h.safe.queues⟩
  stays := hkeeps
  same := h.same

theorem Invariant.disconnect (h : Invariant s) {index : Fin maxServerConnections}
    (hnone : NoSendAt s index) :
    Invariant { s with client := (Client.disconnectFromServer s.client index).1 } := by
  apply h.client
  intro t outgoing i checked hsender
  have hne : i ≠ index := by
    rintro rfl
    exact hnone t outgoing checked hsender
  simp only [Client.disconnectFromServer, Function.update_of_ne hne]
  exact h.stays t outgoing i checked hsender

theorem eq_disconnected {index : Fin maxServerConnections} {client client' : Client.State}
    (hclient : Client.system.step client (.disconnect index) = some client') :
    client' = (Client.disconnectFromServer client index).1 := by
  rcases Client.step_cases hclient with ⟨_, heq, _⟩ | ⟨_, heq, rfl⟩ | ⟨_, _, heq, _⟩ |
    ⟨_, heq, _⟩
  · exact absurd heq (by simp)
  · rw [Client.Action.disconnect.inj heq]
  · exact absurd heq (by simp)
  · exact absurd heq (by simp)

theorem Invariant.remoteClose (h : Invariant s) {connection : ℕ}
    (hgood : Undisturbing s (.remoteClose connection)) {client : Client.State}
    (hclient : Client.system.step s.client (.remoteClose connection) = some client) :
    Invariant { s with client } := by
  rcases Client.step_cases hclient with ⟨_, heq, _⟩ | ⟨_, heq, _⟩ |
    ⟨_, object, heq, hget, rfl⟩ | ⟨_, heq, _⟩
  · exact absurd heq (by simp)
  · exact absurd heq (by simp)
  · obtain rfl := Client.Action.remoteClose.inj heq
    exact h.disconnect (hgood object hget)
  · exact absurd heq (by simp)

theorem Invariant.threadExit (h : Invariant s) {connection : ℕ} {client : Client.State}
    (hclient : Client.system.step s.client (.threadExit connection) = some client) :
    Invariant { s with client } := by
  rcases Client.step_cases hclient with ⟨_, heq, _⟩ | ⟨_, heq, _⟩ | ⟨_, _, heq, _⟩ |
    ⟨_, _, rfl⟩
  · exact absurd heq (by simp)
  · exact absurd heq (by simp)
  · exact absurd heq (by simp)
  · exact h.client h.stays

/-- A frame is enqueued, and nothing but the result records it. -/
theorem queues_append (h : s.Safe) {result : Result} {connection : ℕ} {frame : Frame}
    (hresult : ∀ c, result.frameOn c = if connection = c then some frame else none) (c : ℕ) :
    Function.update s.queue connection (s.queue connection ++ [frame]) c =
      (s.results ++ [result]).filterMap (Result.frameOn c) := by
  have hqueue := h.queues c
  rw [List.filterMap_append, ← hqueue]
  by_cases hc : connection = c
  · subst hc
    simp [hresult]
  · simp [hresult, hc, Ne.symm hc]

theorem Invariant.connect (h : Invariant s) {registration : Registration}
    {outcome : Client.ConnectOutcome}
    (hstep : connectToServer s registration outcome = some u) : Invariant u := by
  have hkeeps : ∀ t outgoing index checked, s.sender t = .checked outgoing index checked →
      (Client.connectToServer s.client outcome).1.serverConnections index = some checked := by
    intro t outgoing index checked hsender
    exact connectToServer_keeps (h.stays t outgoing index checked hsender) outcome
  unfold connectToServer at hstep
  generalize Client.connectToServer s.client outcome = result at hstep hkeeps
  obtain ⟨client, result⟩ := result
  cases result with
  | connected index =>
      dsimp only at hstep
      split at hstep
      · next connection frame _ _ =>
          obtain rfl := Option.some.inj hstep
          refine ⟨⟨h.safe.no_null, ?_, queues_append h.safe fun _ => rfl⟩, hkeeps, h.same⟩
          intro checked connection' frame' hmem
          apply h.safe.own checked connection' frame'
          simpa using hmem
      · exact absurd hstep (by simp)
  | _ =>
      obtain rfl := Option.some.inj hstep
      exact h.client hkeeps

/-! ## Steps of the senders -/

/-- A sender moves to a place that is not in a send any more, or that satisfies the two
conditions on sends. -/
theorem Invariant.move (h : Invariant s) {place : Sender} (hnull : place ≠ .null)
    (hchecked : ∀ outgoing index checked, place = .checked outgoing index checked →
      s.client.serverConnections index = some checked)
    (hholding : ∀ outgoing checked connection, place = .holding outgoing checked connection →
      connection = checked) : Invariant { s with sender := Function.update s.sender t place } := by
  refine ⟨⟨?_, h.safe.own, h.safe.queues⟩, ?_, ?_⟩
  · intro v
    by_cases hv : v = t
    · simpa [hv] using hnull
    · simpa [hv] using h.safe.no_null v
  · intro v outgoing index checked hsender
    by_cases hv : v = t
    · exact hchecked outgoing index checked (by simpa [hv] using hsender)
    · exact h.stays v outgoing index checked (by simpa [hv] using hsender)
  · intro v outgoing checked connection hsender
    by_cases hv : v = t
    · exact hholding outgoing checked connection (by simpa [hv] using hsender)
    · exact h.same v outgoing checked connection (by simpa [hv] using hsender)

theorem Invariant.idle (h : Invariant s) :
    Invariant { s with sender := Function.update s.sender t .idle } :=
  h.move (by simp) (by simp) (by simp)

theorem Invariant.refuse (h : Invariant s) : Invariant s.refuse := by
  refine ⟨⟨h.safe.no_null, ?_, ?_⟩, h.stays, h.same⟩
  · intro checked connection frame hmem
    apply h.safe.own checked connection frame
    simpa [State.refuse] using hmem
  · intro c
    have hrefused : [Result.refused].filterMap (Result.frameOn c) = [] := rfl
    rw [State.refuse, List.filterMap_append, hrefused, List.append_nil]
    exact h.safe.queues c

theorem Invariant.check (h : Invariant s) (outgoing : Outgoing)
    (index : Fin maxServerConnections) : Invariant (checkEntry s t outgoing index) := by
  unfold checkEntry
  split
  · exact h.refuse
  · next c hentry =>
      apply h.move (by simp) _ (by simp)
      intro outgoing' index' checked' heq
      obtain ⟨rfl, rfl, rfl⟩ := Sender.checked.inj heq
      exact hentry

theorem Invariant.read (h : Invariant s) {outgoing : Outgoing} {index : Fin maxServerConnections}
    {checked : ℕ} (hsender : s.sender t = .checked outgoing index checked) :
    Invariant (readEntry s t outgoing index checked) := by
  have hentry := h.stays t outgoing index checked hsender
  unfold readEntry
  rw [hentry]
  apply h.move (by simp) (by simp)
  intro outgoing' checked' connection' heq
  obtain ⟨rfl, rfl, rfl⟩ := Sender.holding.inj heq
  rfl

theorem Invariant.enqueue (h : Invariant s) {outgoing : Outgoing} {checked connection : ℕ}
    (hsender : s.sender t = .holding outgoing checked connection)
    (hstep : enqueueFrame s t outgoing checked connection = some u) : Invariant u := by
  have hidle : Invariant { s with sender := Function.update s.sender t .idle } := h.idle
  unfold enqueueFrame at hstep
  simp only at hstep
  split at hstep
  · obtain rfl := Option.some.inj hstep
    exact hidle.refuse
  · next frame _ =>
      obtain rfl := Option.some.inj hstep
      refine ⟨⟨hidle.safe.no_null, ?_, ?_⟩, hidle.stays, hidle.same⟩
      · intro checked' connection' frame' hmem
        rcases List.mem_append.mp hmem with hmem | hmem
        · exact h.safe.own checked' connection' frame' hmem
        · obtain ⟨rfl, rfl, rfl⟩ := Result.enqueued.inj (List.mem_singleton.mp hmem)
          exact h.same t outgoing _ _ hsender
      · exact queues_append h.safe fun _ => rfl
  · exact absurd hstep (by simp)

/-! ## Whole runs -/

theorem Invariant.step (h : Invariant s) {a : Action} (hgood : Undisturbing s a)
    (hstep : system.step s a = some u) : Invariant u := by
  cases a with
  | connect registration outcome =>
      obtain ⟨_, hconnect⟩ := Option.ite_none_left_eq_some.mp hstep
      exact h.connect hconnect
  | disconnect index =>
      obtain ⟨client, hclient, rfl⟩ := Option.map_eq_some_iff.mp hstep
      rw [eq_disconnected hclient]
      exact h.disconnect hgood
  | remoteClose connection =>
      obtain ⟨client, hclient, rfl⟩ := Option.map_eq_some_iff.mp hstep
      exact h.remoteClose hgood hclient
  | threadExit connection =>
      obtain ⟨client, hclient, rfl⟩ := Option.map_eq_some_iff.mp hstep
      exact h.threadExit hclient
  | check t outgoing index =>
      simp only [system, ClientSend.step] at hstep
      split at hstep
      · split at hstep
        · obtain rfl := Option.some.inj hstep
          exact h.refuse
        · split at hstep
          · exact absurd hstep (by simp)
          · obtain rfl := Option.some.inj hstep
            exact h.check outgoing index
      · exact absurd hstep (by simp)
  | read t =>
      simp only [system, ClientSend.step] at hstep
      split at hstep
      · next outgoing index checked hsender =>
          split at hstep
          · exact absurd hstep (by simp)
          · obtain rfl := Option.some.inj hstep
            exact h.read hsender
      · exact absurd hstep (by simp)
  | enqueue t =>
      simp only [system, ClientSend.step] at hstep
      split at hstep
      · next outgoing checked connection hsender =>
          split at hstep
          · exact absurd hstep (by simp)
          · exact h.enqueue hsender hstep
      · exact absurd hstep (by simp)

/-- A client on host `n1`. -/
def sampleRegistration : Registration := ⟨4, ⟨77, [110, 49]⟩, zeroFrame⟩

end Dynpm.ClientSend
