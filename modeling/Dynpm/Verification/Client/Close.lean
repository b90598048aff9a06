import Dynpm.Verification.Client.Table

/-! # Close events and the entries they clear

The callback of a close event names its connection by the index in the table. As long as the
connection has not been disconnected this entry holds it; afterwards the entry is free or holds
a connection made later.
-/

namespace Dynpm.Client

open Library

variable {s t : State}

/-- Where the connection objects are. An object stands in its entry until `event_base_loopexit`
has been called for it, and an event thread runs on an event base. -/
structure Placed (s : State) : Prop where
  holds : ∀ i c, s.serverConnections i = some c → ∃ object,
    s.connections[c]? = some object ∧ object.index = i ∧ object.loopExit = false
  placed : ∀ c object, s.connections[c]? = some object → object.evbase = true →
    object.loopExit = false → s.serverConnections object.index = some c
  evbase : ∀ (c : ℕ) (object : Connection), s.connections[c]? = some object →
    object.dispatching = true → object.evbase = true

theorem placed_clientInit : Placed (clientInit State.static) where
  holds := by simp [clientInit, State.static]
  placed := by simp [clientInit, State.static]
  evbase := by simp [clientInit, State.static]

/-! ## One step -/

/-- A new object is put into a free entry. -/
theorem Placed.fill (h : Placed s) {index : Fin maxServerConnections} {object : Connection}
    (hfree : s.serverConnections index = none) (hindex : object.index = index)
    (hloop : object.loopExit = false)
    (hbase : object.dispatching = true → object.evbase = true) {count : ℤ} {held : Bool} :
    Placed { s with
      serverConnectionCount := count
      serverConnections := Function.update s.serverConnections index (some s.connections.length)
      connections := s.connections ++ [object]
      mutexHeld := held } := by
  refine ⟨?_, ?_, ?_⟩
  · intro i c hc
    by_cases hi : i = index
    · subst hi
      obtain rfl : s.connections.length = c := by simpa using hc
      exact ⟨object, List.getElem?_concat_length, hindex, hloop⟩
    · simp only [Function.update_of_ne hi] at hc
      obtain ⟨other, hget, hother⟩ := h.holds i c hc
      have hlt := (List.getElem?_eq_some_iff.mp hget).1
      exact ⟨other, by simp only [List.getElem?_append_left hlt, hget], hother⟩
  · intro c other hget hother hexit
    by_cases hc : c < s.connections.length
    · rw [List.getElem?_append_left hc] at hget
      have hplaced := h.placed c other hget hother hexit
      have hne : other.index ≠ index := by
        rintro rfl
        rw [hfree] at hplaced
        exact absurd hplaced (by simp)
      simp only [Function.update_of_ne hne, hplaced]
    · obtain ⟨rfl, rfl⟩ : c = s.connections.length ∧ other = object := by
        have hlt := (List.getElem?_eq_some_iff.mp hget).1
        simp only [List.length_append, List.length_singleton] at hlt
        obtain rfl : c = s.connections.length := by omega
        exact ⟨rfl, by simpa using hget.symm⟩
      simp [hindex]
  · intro c other hget hdispatching
    rcases List.mem_append.mp (List.mem_of_getElem? hget) with hmem | hmem
    · obtain ⟨d, hd⟩ := List.mem_iff_getElem?.mp hmem
      exact h.evbase d other hd hdispatching
    · obtain rfl := List.mem_singleton.mp hmem
      exact hbase hdispatching

theorem Placed.connect (h : Placed s) (outcome : ConnectOutcome) :
    Placed (connectToServer s outcome).1 := by
  unfold connectToServer
  split
  · exact h
  · split
    · exact h
    · simp only
      split
      · exact ⟨h.holds, h.placed, h.evbase⟩
      · next index hfree =>
          refine h.fill (SlotTable.firstFree_some hfree) rfl rfl ?_
          cases outcome <;> simp [ConnectOutcome.dispatching, ConnectOutcome.evbase]

/-- What a change of one object leaves of any object. -/
theorem getElem?_modify_eq_some {connections : List Connection} {f : Connection → Connection}
    {k c : ℕ} {object : Connection} (h : (connections.modify k f)[c]? = some object) :
    ∃ old, connections[c]? = some old ∧ object = if k = c then f old else old := by
  rw [List.getElem?_modify] at h
  obtain ⟨old, hold, hobject⟩ := Option.map_eq_some_iff.mp h
  exact ⟨old, hold, by split at hobject <;> simp_all⟩

theorem requestExit_fields (object : Connection) :
    (requestExit object).index = object.index ∧
      (requestExit object).evbase = object.evbase ∧
      (requestExit object).dispatching = object.dispatching ∧
      (object.evbase = true → (requestExit object).loopExit = true) := by
  unfold requestExit
  split
  · exact ⟨rfl, rfl, rfl, fun _ => rfl⟩
  · next hbase => exact ⟨rfl, rfl, rfl, fun htrue => absurd htrue hbase⟩

theorem Placed.disconnect (h : Placed s) (serverIndex : Fin maxServerConnections) :
    Placed (disconnectFromServer s serverIndex).1 := by
  cases hentry : s.serverConnections serverIndex with
  | none =>
      have hsame : Function.update s.serverConnections serverIndex none = s.serverConnections := by
        rw [← hentry, Function.update_eq_self]
      simp only [disconnectFromServer, hentry, hsame]
      exact ⟨h.holds, h.placed, h.evbase⟩
  | some c =>
      obtain ⟨object, hobject, hindex, _⟩ := h.holds serverIndex c hentry
      simp only [disconnectFromServer, hentry]
      refine ⟨?_, ?_, ?_⟩
      · intro i d hd
        by_cases hi : i = serverIndex
        · simp [hi] at hd
        · simp only [Function.update_of_ne hi] at hd
          obtain ⟨other, hget, hother, hexit⟩ := h.holds i d hd
          have hne : c ≠ d := by
            rintro rfl
            obtain rfl := Option.some.inj (hobject.symm.trans hget)
            exact hi (hother.symm.trans hindex)
          exact ⟨other, by simp [hne, hget], hother, hexit⟩
      · intro d other hget hother hexit
        obtain ⟨old, hold, rfl⟩ := getElem?_modify_eq_some hget
        have hfields := requestExit_fields old
        by_cases hd : c = d
        · rw [if_pos hd] at hother hexit
          rw [hfields.2.1] at hother
          exact absurd ((hfields.2.2.2 hother).symm.trans hexit) (by decide)
        · simp only [if_neg hd] at hother hexit ⊢
          have hplaced := h.placed d old hold hother hexit
          have hne : old.index ≠ serverIndex := by
            intro heq
            rw [heq, hentry] at hplaced
            exact hd (Option.some.inj hplaced)
          rw [Function.update_of_ne hne, hplaced]
      · intro d other hget hdispatching
        obtain ⟨old, hold, rfl⟩ := getElem?_modify_eq_some hget
        have hfields := requestExit_fields old
        by_cases hd : c = d
        · rw [if_pos hd] at hdispatching ⊢
          rw [hfields.2.2.1] at hdispatching
          exact hfields.2.1.trans (h.evbase d old hold hdispatching)
        · rw [if_neg hd] at hdispatching ⊢
          exact h.evbase d old hold hdispatching

theorem Placed.threadExit (h : Placed s) (connection : ℕ) :
    Placed { s with connections := s.connections.modify connection fun object =>
      { object with dispatching := false } } := by
  refine ⟨?_, ?_, ?_⟩
  · intro i c hc
    obtain ⟨object, hget, hindex, hexit⟩ := h.holds i c hc
    by_cases hk : connection = c
    · exact ⟨{ object with dispatching := false }, by simp [hk, hget], hindex, hexit⟩
    · exact ⟨object, by simp [hk, hget], hindex, hexit⟩
  · intro c object hget hbase hexit
    obtain ⟨old, hold, rfl⟩ := getElem?_modify_eq_some hget
    have hplaced := h.placed c old hold (by split at hbase <;> exact hbase)
      (by split at hexit <;> exact hexit)
    split
    · exact hplaced
    · exact hplaced
  · intro c object hget hdispatching
    obtain ⟨old, hold, rfl⟩ := getElem?_modify_eq_some hget
    split at hdispatching
    · exact absurd hdispatching (by simp)
    · next hk =>
        rw [if_neg hk]
        exact h.evbase c old hold hdispatching

theorem Placed.step (h : Placed s) {a : Action} (hstep : system.step s a = some t) :
    Placed t := by
  rcases step_cases hstep with ⟨outcome, rfl, rfl⟩ | ⟨serverIndex, rfl, rfl⟩ |
    ⟨connection, object, rfl, _, rfl⟩ | ⟨connection, rfl, rfl⟩
  · exact h.connect outcome
  · exact h.disconnect serverIndex
  · exact h.disconnect object.index
  · exact h.threadExit connection

/-! ## Whole runs -/

/-- A close event clears the entry that holds its connection or leaves the table and the count
as they are, and clears no entry that holds another connection. -/
def ClosesOwn (s : State) : Action → Prop
  | .remoteClose connection => ∀ t, system.step s (.remoteClose connection) = some t →
      ((∃ i, s.serverConnections i = some connection ∧
          t.serverConnections = Function.update s.serverConnections i none) ∨
        t.serverConnections = s.serverConnections ∧
          t.serverConnectionCount = s.serverConnectionCount) ∧
      ∀ i c, s.serverConnections i = some c → t.serverConnections i = none → c = connection
  | .connect _ | .disconnect _ | .threadExit _ => True

/-- A close event runs for a connection whose event thread has not been told to leave
`event_base_dispatch`, that is, which has not been disconnected before. -/
def NotDisconnected (s : State) : Action → Prop
  | .remoteClose connection => ∀ object, s.connections[connection]? = some object →
      object.loopExit = false
  | .connect _ | .disconnect _ | .threadExit _ => True

/-- A close event is enabled while the event thread dispatches, and disconnects by index. -/
theorem remoteClose_eq_some {connection : ℕ}
    (hstep : system.step s (.remoteClose connection) = some t) :
    ∃ object, s.connections[connection]? = some object ∧ object.dispatching = true ∧
      t = (disconnectFromServer s object.index).1 := by
  simp only [system] at hstep
  split at hstep
  · exact absurd hstep (by simp)
  · obtain ⟨object, hget, hstep⟩ := Option.bind_eq_some_iff.mp hstep
    split at hstep
    · next hdispatching => exact ⟨object, hget, hdispatching, (Option.some.inj hstep).symm⟩
    · exact absurd hstep (by simp)

theorem Placed.closesOwn_iff (h : Placed s) {connection : ℕ}
    (hstep : system.step s (.remoteClose connection) = some t) :
    ClosesOwn s (.remoteClose connection) ↔ NotDisconnected s (.remoteClose connection) := by
  obtain ⟨object, hget, hdispatching, rfl⟩ := remoteClose_eq_some hstep
  constructor
  · intro hown object' hget'
    obtain rfl := Option.some.inj (hget.symm.trans hget')
    obtain ⟨i, hi, _⟩ | ⟨_, hcount⟩ := (hown _ hstep).1
    · obtain ⟨held, hheld, _, hexit⟩ := h.holds i connection hi
      obtain rfl := Option.some.inj (hget.symm.trans hheld)
      exact hexit
    · simp only [disconnectFromServer] at hcount
      omega
  · intro hnot t ht
    obtain rfl := Option.some.inj (hstep.symm.trans ht)
    have hentry := h.placed connection object hget (h.evbase connection object hget hdispatching)
      (hnot object hget)
    refine ⟨Or.inl ⟨object.index, hentry, rfl⟩, ?_⟩
    intro i c hc hcleared
    by_cases hi : i = object.index
    · subst hi
      exact Option.some.inj (hc.symm.trans hentry)
    · simp only [disconnectFromServer, Function.update_of_ne hi, hc] at hcleared
      exact absurd hcleared (by simp)

/-- Whatever calls and close events follow `dynpm_client_init`, each close event removes its own
connection or changes nothing if and only if each runs before its connection is disconnected. -/
theorem close_removes_own_iff (actions : List Action) :
    system.Respecting ClosesOwn (clientInit State.static) actions ↔
      system.Respecting NotDisconnected (clientInit State.static) actions := by
  apply System.respecting_congr (I := Placed) _ _ placed_clientInit
  · intro s a t h hstep
    exact h.step hstep
  · intro s a t h hstep
    cases a with
    | connect outcome => exact Iff.rfl
    | disconnect serverIndex => exact Iff.rfl
    | threadExit connection => exact Iff.rfl
    | remoteClose connection => exact h.closesOwn_iff hstep

/-- A connection is disconnected, its entry is taken by another one, and then the close event of
the first connection runs. -/
def reusedEntry : List Action :=
  [.connect .succeeds, .disconnect firstEntry, .connect .succeeds]

/-- The close event of connection 0 clears the entry of connection 1. -/
theorem reusedEntry_clears_other :
    ∃ s t, system.run (clientInit State.static) reusedEntry = some s ∧
      system.step s (.remoteClose 0) = some t ∧
      s.serverConnections firstEntry = some 1 ∧ t.serverConnections firstEntry = none ∧
      ¬ ClosesOwn s (.remoteClose 0) := by
  have hrun : ((system.run (clientInit State.static) reusedEntry).bind fun s =>
      (system.step s (.remoteClose 0)).map fun t =>
        (s.serverConnections firstEntry, t.serverConnections firstEntry)) =
      some (some 1, none) := by decide
  obtain ⟨s, hs, hstep⟩ := Option.bind_eq_some_iff.mp hrun
  obtain ⟨t, ht, hvalues⟩ := Option.map_eq_some_iff.mp hstep
  obtain ⟨hbefore, hafter⟩ := Prod.mk.inj hvalues
  refine ⟨s, t, hs, ht, hbefore, hafter, ?_⟩
  intro hown
  exact absurd ((hown t ht).2 _ 1 hbefore hafter) (by decide)

end Dynpm.Client
