import Dynpm.Model.Client

/-! # The connection table and its count

Connecting keeps the count equal to the number of occupied entries, whatever call fails on the
way. Disconnecting decrements the count even if the entry is empty, so that the two drift apart
with the first disconnect of an empty entry.
-/

namespace Dynpm.Client

open Library

variable {s t : State}

/-- The count is the number of occupied entries, and each entry points to an object with its
index. -/
structure Invariant (s : State) : Prop where
  initialized : s.clientInitialized = true
  count_eq : s.serverConnectionCount = (SlotTable.occupied s.serverConnections).card
  index_eq : ∀ i c, s.serverConnections i = some c → ∃ connection,
    s.connections[c]? = some connection ∧ connection.index = i
  not_aborted : s.aborted = false

/-- The table is consistent: the count is the number of occupied entries, each entry points to an
object with its index, the assertion has not failed, and a new connection is refused for lack of
room exactly when all entries are occupied. -/
def Consistent (s : State) : Prop :=
  s.serverConnectionCount = (SlotTable.occupied s.serverConnections).card ∧
    (∀ i c, s.serverConnections i = some c → ∃ connection,
      s.connections[c]? = some connection ∧ connection.index = i) ∧
    s.aborted = false ∧
    ∀ outcome, (connectToServer s outcome).2 = .noRoom ↔ ∀ i, (s.serverConnections i).isSome

/-- An action that disconnects finds a connection in the entry. -/
def FindsConnection (s : State) : Action → Prop
  | .disconnect serverIndex => (s.serverConnections serverIndex).isSome
  | .remoteClose connection => ∀ object, s.connections[connection]? = some object →
      (s.serverConnections object.index).isSome
  | .connect _ | .threadExit _ => True

theorem invariant_clientInit : Invariant (clientInit State.static) where
  initialized := rfl
  count_eq := by simp [clientInit, State.static, SlotTable.occupied]
  index_eq := by simp [clientInit, State.static]
  not_aborted := rfl

/-! ## Connecting -/

/-- What `dynpm_connect_to_server` does: it is refused for the count, finds no free entry after
it has counted the connection, or takes the first free entry. -/
theorem connectToServer_cases (hinit : s.clientInitialized = true) (outcome : ConnectOutcome) :
    (63 < s.serverConnectionCount ∧ connectToServer s outcome = (s, .noRoom)) ∨
    (s.serverConnectionCount ≤ 63 ∧ (∀ i, (s.serverConnections i).isSome) ∧
      connectToServer s outcome =
        ({ s with serverConnectionCount := s.serverConnectionCount + 1 }, .noRoom)) ∨
    (s.serverConnectionCount ≤ 63 ∧ ∃ index, s.serverConnections index = none ∧
      connectToServer s outcome =
        ({ s with
          serverConnectionCount := s.serverConnectionCount + 1
          serverConnections := Function.update s.serverConnections index (some s.connections.length)
          connections := s.connections ++ [⟨index, outcome.evbase, outcome.dispatching, false⟩]
          mutexHeld := outcome.keepsMutex }, outcome.result index)) := by
  by_cases hcount : s.serverConnectionCount > (maxServerConnections : ℤ) - 1
  · refine Or.inl ⟨by simpa [maxServerConnections] using hcount, ?_⟩
    simp only [connectToServer, hinit, Bool.not_true, Bool.false_eq_true, if_false, hcount,
      if_true]
  · have hle : s.serverConnectionCount ≤ 63 := by
      simp only [maxServerConnections] at hcount
      omega
    cases hfree : SlotTable.firstFree s.serverConnections with
    | none =>
        refine Or.inr (Or.inl ⟨hle, SlotTable.firstFree_none.mp hfree, ?_⟩)
        simp only [connectToServer, hinit, Bool.not_true, Bool.false_eq_true, if_false, hcount,
          hfree]
    | some index =>
        refine Or.inr (Or.inr ⟨hle, index, SlotTable.firstFree_some hfree, ?_⟩)
        simp only [connectToServer, hinit, Bool.not_true, Bool.false_eq_true, if_false, hcount,
          hfree]

/-- `dynpm_connect_to_server` refuses when the table is full and fills a free entry otherwise. -/
theorem Invariant.connect_cases (h : Invariant s) (outcome : ConnectOutcome) :
    ((∀ i, (s.serverConnections i).isSome) ∧ connectToServer s outcome = (s, .noRoom)) ∨
    ∃ index, s.serverConnections index = none ∧ connectToServer s outcome =
      ({ s with
        serverConnectionCount := s.serverConnectionCount + 1
        serverConnections := Function.update s.serverConnections index (some s.connections.length)
        connections := s.connections ++ [⟨index, outcome.evbase, outcome.dispatching, false⟩]
        mutexHeld := outcome.keepsMutex }, outcome.result index) := by
  have hcount := h.count_eq
  have hle := @SlotTable.card_occupied_le _ _ s.serverConnections
  have hmax : maxServerConnections = 64 := rfl
  rcases connectToServer_cases h.initialized outcome with ⟨hmany, heq⟩ | ⟨hroom, hfull, _⟩ |
    ⟨_, index, hindex, heq⟩
  · have hcard : (SlotTable.occupied s.serverConnections).card = maxServerConnections := by omega
    exact Or.inl ⟨SlotTable.card_occupied_eq_iff.mp hcard, heq⟩
  · have hcard := SlotTable.card_occupied_eq_iff.mpr hfull
    omega
  · exact Or.inr ⟨index, hindex, heq⟩

theorem Invariant.connect (h : Invariant s) (outcome : ConnectOutcome) :
    Invariant (connectToServer s outcome).1 := by
  rcases h.connect_cases outcome with ⟨_, heq⟩ | ⟨index, hfree, heq⟩
  · rw [heq]
    exact h
  · rw [heq]
    refine ⟨h.initialized, ?_, ?_, h.not_aborted⟩
    · simp only [SlotTable.card_occupied_fill hfree, h.count_eq]
      omega
    · intro i c hc
      by_cases hi : i = index
      · subst hi
        obtain rfl : s.connections.length = c := by simpa using hc
        exact ⟨_, List.getElem?_concat_length, rfl⟩
      · simp only [Function.update_of_ne hi] at hc
        obtain ⟨connection, hget, hindex⟩ := h.index_eq i c hc
        refine ⟨connection, ?_, hindex⟩
        have hlt := (List.getElem?_eq_some_iff.mp hget).1
        simp only [List.getElem?_append_left hlt, hget]

theorem Invariant.consistent (h : Invariant s) : Consistent s := by
  refine ⟨h.count_eq, h.index_eq, h.not_aborted, ?_⟩
  intro outcome
  rcases h.connect_cases outcome with ⟨hfull, heq⟩ | ⟨index, hfree, heq⟩
  · rw [heq]
    exact ⟨fun _ => hfull, fun _ => rfl⟩
  · rw [heq]
    constructor
    · intro hresult
      cases outcome <;> simp [ConnectOutcome.result] at hresult
    · intro hfull
      have hsome := hfull index
      rw [hfree] at hsome
      exact absurd hsome (by simp)

/-! ## Disconnecting -/

/-- Objects keep their index. -/
theorem index_modify {connections : List Connection} {f : Connection → Connection}
    (hf : ∀ connection, (f connection).index = connection.index) (k c : ℕ)
    {connection : Connection} (hget : connections[c]? = some connection) :
    ∃ connection', (connections.modify k f)[c]? = some connection' ∧
      connection'.index = connection.index := by
  rw [List.getElem?_modify, hget]
  by_cases hk : k = c
  · exact ⟨f connection, by simp [hk], hf connection⟩
  · exact ⟨connection, by simp [hk], rfl⟩

theorem index_requestExit (connection : Connection) :
    (requestExit connection).index = connection.index := by
  unfold requestExit
  split
  · rfl
  · rfl

theorem Invariant.disconnect (h : Invariant s) {serverIndex : Fin maxServerConnections}
    (hsome : (s.serverConnections serverIndex).isSome) :
    Invariant (disconnectFromServer s serverIndex).1 := by
  have hcard := SlotTable.card_occupied_clear hsome
  have hcount := h.count_eq
  obtain ⟨c, hc⟩ := Option.isSome_iff_exists.mp hsome
  refine ⟨h.initialized, ?_, ?_, ?_⟩
  · simp only [disconnectFromServer]
    omega
  · intro i d hd
    simp only [disconnectFromServer, hc] at hd ⊢
    by_cases hi : i = serverIndex
    · simp [hi] at hd
    · rw [Function.update_of_ne hi] at hd
      obtain ⟨connection, hget, hindex⟩ := h.index_eq i d hd
      obtain ⟨connection', hget', hindex'⟩ := index_modify index_requestExit c d hget
      exact ⟨connection', hget', hindex'.trans hindex⟩
  · simp only [disconnectFromServer, decide_eq_false_iff_not]
    omega

/-- Disconnecting an empty entry leaves the table as it is and decrements the count. -/
theorem Invariant.disconnect_empty (h : Invariant s) {serverIndex : Fin maxServerConnections}
    (hnone : ¬ (s.serverConnections serverIndex).isSome) :
    ¬ Consistent (disconnectFromServer s serverIndex).1 := by
  rintro ⟨hcount, _⟩
  have hfree : s.serverConnections serverIndex = none := by simpa using hnone
  have hsame : Function.update s.serverConnections serverIndex none = s.serverConnections := by
    rw [← hfree, Function.update_eq_self]
  simp only [disconnectFromServer, hsame] at hcount
  have := h.count_eq
  omega

/-! ## Whole runs -/

/-- What a step can do. -/
theorem step_cases {a : Action} (hstep : system.step s a = some t) :
    (∃ outcome, a = .connect outcome ∧ t = (connectToServer s outcome).1) ∨
    (∃ serverIndex, a = .disconnect serverIndex ∧ t = (disconnectFromServer s serverIndex).1) ∨
    (∃ connection object, a = .remoteClose connection ∧
      s.connections[connection]? = some object ∧
      t = (disconnectFromServer s object.index).1) ∨
    (∃ connection, a = .threadExit connection ∧
      t = { s with connections := s.connections.modify connection fun object =>
        { object with dispatching := false } }) := by
  simp only [system] at hstep
  split at hstep
  · exact absurd hstep (by simp)
  · cases a with
    | connect outcome => exact Or.inl ⟨outcome, rfl, (Option.some.inj hstep).symm⟩
    | disconnect serverIndex =>
        exact Or.inr (Or.inl ⟨serverIndex, rfl, (Option.some.inj hstep).symm⟩)
    | remoteClose connection =>
        obtain ⟨object, hget, hstep⟩ := Option.bind_eq_some_iff.mp hstep
        split at hstep
        · exact Or.inr (Or.inr (Or.inl
            ⟨connection, object, rfl, hget, (Option.some.inj hstep).symm⟩))
        · exact absurd hstep (by simp)
    | threadExit connection =>
        obtain ⟨object, hget, hstep⟩ := Option.bind_eq_some_iff.mp hstep
        split at hstep
        · exact Or.inr (Or.inr (Or.inr ⟨connection, rfl, (Option.some.inj hstep).symm⟩))
        · exact absurd hstep (by simp)

theorem Invariant.threadExit (h : Invariant s) (connection : ℕ) :
    Invariant { s with connections := s.connections.modify connection fun object =>
      { object with dispatching := false } } := by
  refine ⟨h.initialized, h.count_eq, ?_, h.not_aborted⟩
  intro i c hc
  obtain ⟨object, hget, hindex⟩ := h.index_eq i c hc
  obtain ⟨object', hget', hindex'⟩ := index_modify (f := fun object : Connection =>
    { object with dispatching := false }) (fun _ => rfl) connection c hget
  exact ⟨object', hget', hindex'.trans hindex⟩

theorem Invariant.step (h : Invariant s) {a : Action} (hfinds : FindsConnection s a)
    (hstep : system.step s a = some t) : Invariant t := by
  rcases step_cases hstep with ⟨outcome, rfl, rfl⟩ | ⟨serverIndex, rfl, rfl⟩ |
    ⟨connection, object, rfl, hget, rfl⟩ | ⟨connection, rfl, rfl⟩
  · exact h.connect outcome
  · exact h.disconnect hfinds
  · exact h.disconnect (hfinds object hget)
  · exact h.threadExit connection

theorem Invariant.not_consistent_step (h : Invariant s) {a : Action}
    (hfinds : ¬ FindsConnection s a) (hstep : system.step s a = some t) : ¬ Consistent t := by
  rcases step_cases hstep with ⟨outcome, rfl, rfl⟩ | ⟨serverIndex, rfl, rfl⟩ |
    ⟨connection, object, rfl, hget, rfl⟩ | ⟨connection, rfl, rfl⟩
  · exact absurd trivial hfinds
  · exact h.disconnect_empty hfinds
  · apply h.disconnect_empty
    intro hsome
    apply hfinds
    intro object' hget'
    obtain rfl := Option.some.inj (hget.symm.trans hget')
    exact hsome
  · exact absurd trivial hfinds

/-- Whatever calls are made after `dynpm_client_init`, the table is consistent in every state of
the run if and only if each disconnect, by a call or by a remote close, finds a connection in
its entry. -/
theorem table_consistent_iff (actions : List Action) :
    system.Throughout Consistent (clientInit State.static) actions ↔
      system.Respecting FindsConnection (clientInit State.static) actions :=
  System.throughout_iff_respecting (fun _ h => h.consistent) (fun _ _ _ h hG hs => h.step hG hs)
    (fun _ _ _ h hG hs => h.not_consistent_step hG hs) invariant_clientInit actions

/-- The first entry of the table. -/
def firstEntry : Fin maxServerConnections := ⟨0, Nat.zero_lt_succ 63⟩

/-- A connection is disconnected by the client and then closed by the server. -/
def doubleDisconnect : List Action :=
  [.connect .succeeds, .disconnect ⟨0, by decide⟩, .remoteClose 0]

/-- The second disconnect takes the count below zero, and the assertion fails. -/
theorem doubleDisconnect_aborts :
    ∃ s, system.run (clientInit State.static) doubleDisconnect = some s ∧
      s.serverConnectionCount = -1 ∧ s.aborted = true ∧ ¬ Consistent s := by
  have hrun : (system.run (clientInit State.static) doubleDisconnect).map
      (fun s => (s.serverConnectionCount, s.aborted)) = some (-1, true) := by decide
  obtain ⟨s, hs, hvalues⟩ := Option.map_eq_some_iff.mp hrun
  obtain ⟨hcount, haborted⟩ := Prod.mk.inj hvalues
  refine ⟨s, hs, hcount, haborted, ?_⟩
  rintro ⟨_, _, hnot, _⟩
  exact absurd (haborted.symm.trans hnot) (by decide)

end Dynpm.Client
