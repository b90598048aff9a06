import Dynpm.Library.Simulation
import Dynpm.Model.ClientList
import Dynpm.Verification.Server.Upstream

/-! # The links of the client connections

The pointers of the list `head` do what the list of connections does, in every run. Where
`dynpm_clear_client_connections` finds a connection, it reads the link of a connection that it has
freed.
-/

namespace Dynpm.ClientList

open Library

/-- The links of `c` form the list of `s`, which holds connections that have been allocated, and the
rest is the same. -/
structure Refines (c : State) (s : Server.State) : Prop where
  holds : c.list.Holds s.head
  rest : c.rest = { s with head := [] }
  allocated : ∀ k ∈ s.head, k < s.connections.length

variable {c d : State} {s t : Server.State} {k : ℕ}

/-- Both calls return and lead to related states, or both fault. -/
inductive Agrees : Except Fault State → Except Fault Server.State → Prop where
  | ok {c : State} {s : Server.State} (h : Refines c s) : Agrees (.ok c) (.ok s)
  | error (fault fault' : Fault) : Agrees (.error fault) (.error fault')

/-! ## The search -/

theorem Refines.length_le (h : Refines c s) : s.head.length ≤ s.connections.length := by
  have hsubset : s.head ⊆ List.range s.connections.length := fun k hk =>
    List.mem_range.mpr (h.allocated k hk)
  simpa using (List.subperm_of_subset h.holds.linked.nodup hsubset).length_le

theorem Refines.search_eq (h : Refines c s) (k : ℕ) :
    ∃ found, search c k = some found ∧ (found.isSome ↔ k ∈ s.head) := by
  refine ⟨s.head.find? fun connection => connection = k, ?_, ?_⟩
  · rw [search, h.rest]
    exact h.holds.linked.findLinked_eq _ h.length_le
  · simp [List.find?_isSome]

/-- The hosts do not depend on the list. -/
theorem Refines.printHost_eq (h : Refines c s) : Server.printHost c.rest = Server.printHost s := by
  rw [h.rest]
  rfl

theorem Refines.printClientConnections_eq (h : Refines c s) :
    printClientConnections c = Server.printClientConnections s := by
  have hlength : s.head.length ≤ c.rest.connections.length := by
    rw [h.rest]
    exact h.length_le
  rw [printClientConnections, h.holds.linked.linkedObjects_eq hlength, h.printHost_eq]
  rfl

theorem Refines.serverOnErrorHosts_eq (h : Refines c s) {found : Bool}
    (hfound : found = true ↔ k ∈ s.head) :
    serverOnErrorHosts c k found = Server.serverOnErrorHosts s k := by
  have hchildren : Server.printForChildren c.rest k = Server.printForChildren s k := by
    rw [h.rest]
    rfl
  have hfree : Server.freeHost c.rest k = Server.freeHost s k := by
    rw [h.rest]
    rfl
  unfold serverOnErrorHosts Server.serverOnErrorHosts
  rw [hchildren, hfree, h.printHost_eq, h.printClientConnections_eq]
  by_cases hmem : k ∈ s.head
  · rw [if_pos (hfound.mpr hmem), if_pos hmem]
  · rw [if_neg (hfound.not.mpr hmem), if_neg hmem]

/-! ## The functions that change the list -/

/-- A connection that is in no list becomes the first one. -/
theorem Refines.setup (h : Refines c s) :
    Refines (clientConnectionSetup { c with rest := Server.clientConnectionEventHandler c.rest }
        c.rest.connections.length)
      (Server.clientConnectionSetup (Server.clientConnectionEventHandler s)
        s.connections.length) := by
  have hlength : c.rest.connections.length = s.connections.length := by rw [h.rest]
  have hfresh : s.connections.length ∉ s.head := fun hmem =>
    absurd (h.allocated _ hmem) (lt_irrefl _)
  rw [hlength]
  refine ⟨h.holds.insertHead hfresh, ?_, ?_⟩
  · rw [h.rest]
    rfl
  · intro k hk
    simp only [Server.clientConnectionSetup, Server.clientConnectionEventHandler,
      List.length_append, List.length_singleton] at hk ⊢
    rcases List.mem_cons.mp hk with rfl | hk
    · omega
    · have := h.allocated k hk
      omega

/-- A connection that is not in the list is left alone, and the list is printed. -/
theorem Refines.remove_of_notMem (h : Refines c s) (hk : k ∉ s.head) :
    ∃ result, removeClientConnectionFromList c k = some result ∧
      Agrees result (Server.removeClientConnectionFromList s k) := by
  obtain ⟨found, hsearch, hfound⟩ := h.search_eq k
  have hnone : found.isSome = false := by
    rw [Bool.eq_false_iff]
    exact fun hsome => hk (hfound.mp hsome)
  have hhead := h.holds.linked.head_eq
  have hprint : Agrees ((printClientConnections c).map fun _ => c)
      (Server.removeClientConnectionFromList s k) := by
    rw [Server.removeClientConnectionFromList, if_neg hk, h.printClientConnections_eq]
    cases Server.printClientConnections s with
    | ok _ => exact .ok h
    | error fault => exact .error fault fault
  unfold removeClientConnectionFromList
  cases hfirst : c.list.first with
  | none =>
      have hempty : s.head = [] := List.head?_eq_none_iff.mp (hhead.symm.trans hfirst)
      have hok : (printClientConnections c).map (fun _ => c) = .ok c := by
        rw [h.printClientConnections_eq, Server.printClientConnections, hempty]
        rfl
      exact ⟨_, rfl, hok ▸ hprint⟩
  | some _ =>
      simp only [hsearch, Option.bind_eq_bind, Option.bind_some, hnone]
      exact ⟨_, rfl, hprint⟩

/-- A connection that is in the list is taken out of it. -/
theorem Refines.remove_of_mem (h : Refines c s) (hk : k ∈ s.head) :
    ∃ list, removeClientConnectionFromList c k = some (.ok { c with list }) ∧
      list.Holds (s.head.erase k) := by
  obtain ⟨found, hsearch, hfound⟩ := h.search_eq k
  obtain ⟨front, rest, hsplit⟩ := List.append_of_mem hk
  have hholds := h.holds
  have hhead := h.holds.linked.head_eq
  rw [hsplit] at hholds hhead
  obtain ⟨list, hremove, hlist⟩ := hholds.remove
  have hfront : k ∉ front := fun hmem =>
    (List.nodup_append.mp hholds.linked.nodup).2.2 k hmem k List.mem_cons_self rfl
  refine ⟨list, ?_, ?_⟩
  · unfold removeClientConnectionFromList
    cases hfirst : c.list.first with
    | none =>
        rw [hfirst] at hhead
        simp at hhead
    | some _ =>
        simp only [hsearch, Option.bind_eq_bind, Option.bind_some, hfound.mpr hk, if_true, hremove,
          Option.map_some]
  · rw [hsplit, List.erase_append_right _ hfront, List.erase_cons_head]
    exact hlist

theorem Refines.remove (h : Refines c s) (k : ℕ) :
    ∃ result, removeClientConnectionFromList c k = some result ∧
      Agrees result (Server.removeClientConnectionFromList s k) := by
  by_cases hk : k ∈ s.head
  · obtain ⟨list, hremove, hlist⟩ := h.remove_of_mem hk
    refine ⟨_, hremove, ?_⟩
    rw [Server.removeClientConnectionFromList, if_pos hk]
    exact .ok ⟨hlist, h.rest, fun j hj => h.allocated j (List.mem_of_mem_erase hj)⟩
  · exact h.remove_of_notMem hk

/-! ## The end of file -/

theorem disconnectChild_head (head : List ℕ) (index : Fin maxServerConnections) :
    Server.disconnectChild k { s with head } index =
      { Server.disconnectChild k s index with head } := by
  unfold Server.disconnectChild
  dsimp only
  split
  · rfl
  · next j hj =>
      by_cases hchild : s.IsChild j k ∧ s.client.aborted = false
      · rw [if_pos hchild, if_pos (show Server.State.IsChild { s with head } j k ∧ _ from hchild)]
        rfl
      · rw [if_neg hchild,
          if_neg (show ¬ (Server.State.IsChild { s with head } j k ∧ _) from hchild)]

/-- Disconnecting has nothing to do with the list. -/
theorem disconnectChildren_head (s : Server.State) (k : ℕ) (head : List ℕ) :
    Server.disconnectChildren { s with head } k =
      { Server.disconnectChildren s k with head } := by
  unfold Server.disconnectChildren
  generalize List.finRange maxServerConnections = indices
  induction indices generalizing s with
  | nil => rfl
  | cons index indices ih =>
      rw [List.foldl_cons, List.foldl_cons, disconnectChild_head, ih]

theorem Refines.disconnectChildren (h : Refines c s) (k : ℕ) :
    Refines { c with rest := Server.disconnectChildren c.rest k }
      (Server.disconnectChildren s k) := by
  have hshrinks := Server.shrinks_disconnectChildren s k
  refine ⟨?_, ?_, ?_⟩
  · rw [hshrinks.head]
    exact h.holds
  · dsimp only
    rw [h.rest, disconnectChildren_head]
  · rw [hshrinks.head, hshrinks.connections]
    exact h.allocated

theorem Refines.release (h : Refines c s) (k : ℕ) :
    Refines { c with rest := Server.release c.rest k } (Server.release s k) := by
  have haborted : c.rest.client.aborted = s.client.aborted := by rw [h.rest]
  unfold Server.release
  rw [haborted]
  split
  · exact h
  · refine ⟨h.holds, ?_, h.allocated⟩
    rw [h.rest]

theorem Refines.blocks_iff (h : Refines c s) :
    Server.blocked c.rest = true ∧ c.rest.HasChild k ↔
      Server.blocked s = true ∧ s.HasChild k := by
  rw [h.rest]
  rfl

/-- A connection in the list is disconnected from, removed and released, or the callback blocks. -/
theorem Refines.onError_listed (h : Refines c s) (hk : k ∈ s.head) :
    Option.Rel Agrees
      ((disconnectAndRemove c k).map fun result =>
        result.map fun t => { t with rest := Server.release t.rest k })
      (if Server.blocked s = false ∨ ¬ s.HasChild k then
        some (.ok (Server.release { Server.disconnectChildren s k with
          head := (Server.disconnectChildren s k).head.erase k } k)) else none) := by
  unfold disconnectAndRemove
  by_cases hblocked : Server.blocked s = true ∧ s.HasChild k
  · have hnot : ¬ (Server.blocked s = false ∨ ¬ s.HasChild k) := by simp [hblocked]
    rw [if_neg hnot, if_pos (h.blocks_iff.mpr hblocked)]
    exact .none
  · have hfree : Server.blocked s = false ∨ ¬ s.HasChild k := by
      by_cases hchild : s.HasChild k
      · exact Or.inl (by simpa [hchild] using hblocked)
      · exact Or.inr hchild
    obtain ⟨result, hremove, hagrees⟩ := (h.disconnectChildren k).remove k
    have hlisted : (Server.disconnectChildren s k).FoundOrPrintable k := by
      rw [Server.State.FoundOrPrintable, (Server.shrinks_disconnectChildren s k).head]
      exact Or.inl hk
    rw [if_pos hfree, if_neg (h.blocks_iff.not.mpr hblocked), hremove]
    rw [Server.removeClientConnectionFromList_ok hlisted] at hagrees
    generalize Server.disconnectChildren s k = u at hagrees ⊢
    cases hagrees with
    | ok hd => exact .some (.ok (hd.release k))

/-- The callback does the same to both servers, or blocks in both. -/
theorem Refines.onError (h : Refines c s) (k : ℕ) :
    Option.Rel Agrees (serverOnError c k)
      (if Server.blocked s = false ∨ k ∉ s.head ∨ ¬ s.HasChild k ∨
          Server.serverOnErrorHosts s k ≠ .ok () then
        some (Server.serverOnError s k) else none) := by
  obtain ⟨found, hsearch, hfound⟩ := h.search_eq k
  have hhosts := h.serverOnErrorHosts_eq hfound
  unfold serverOnError
  simp only [hsearch, Option.bind_eq_bind, Option.bind_some, hhosts]
  cases hresult : Server.serverOnErrorHosts s k with
  | error fault =>
      have hfault : Server.serverOnError s k = .error fault := by
        rw [Server.serverOnError, hresult]
        rfl
      rw [if_pos (Or.inr (Or.inr (Or.inr (by simp)))), hfault]
      exact .some (.error fault fault)
  | ok _ =>
      obtain ⟨haccess, hprintable⟩ := Server.serverOnErrorHosts_eq_ok_iff.mp hresult
      by_cases hk : k ∈ s.head
      · have hlisted := h.onError_listed hk
        rw [Server.serverOnError_listed haccess hk, if_pos (hfound.mpr hk)]
        simpa [hk, Option.map_eq_bind] using hlisted
      · rw [Server.serverOnError_unlisted haccess hprintable hk, if_neg (hfound.not.mpr hk),
          if_pos (Or.inr (Or.inl hk))]
        exact .some (.ok (h.release k))

/-! ## Clearing the list -/

/-- The loop does not get past its first connection. -/
theorem clearClientConnections_eq_ok (c d : State) :
    clearClientConnections c = .ok d ↔ c.list.first = none ∧ d = c := by
  unfold clearClientConnections
  cases c.list.first with
  | none => simp [clearLoop, eq_comm]
  | some k =>
      cases c.rest.connections.length with
      | zero => simp [clearLoop]
      | succ fuel =>
          rw [clearLoop]
          cases c.list.remove k with
          | none => simp
          | some list => simp [nextOf, error_bind]

/-- An empty list is cleared by both, and a list that is not empty is a fault in both. -/
theorem Refines.clear (h : Refines c s) :
    Agrees (clearClientConnections c) (Server.clearClientConnections s) := by
  have hhead := h.holds.linked.head_eq
  unfold Server.clearClientConnections
  split
  · next hempty =>
      rw [hempty, List.head?_nil] at hhead
      rw [(clearClientConnections_eq_ok c c).mpr ⟨hhead, rfl⟩]
      exact .ok h
  · next k rest hlist =>
      cases hclear : clearClientConnections c with
      | error fault => exact .error fault .outOfBounds
      | ok d =>
          have hnone := ((clearClientConnections_eq_ok c d).mp hclear).1
          rw [hlist, hnone] at hhead
          exact absurd hhead (by simp)

/-! ## Runs -/

/-- Two calls that are made under the same condition. -/
theorem rel_ite {p q : Prop} [Decidable p] [Decidable q] (hpq : p ↔ q)
    {x : Option (Except Fault State)} {y : Option (Except Fault Server.State)}
    (h : q → Option.Rel Agrees x y) :
    Option.Rel Agrees (if p then x else none) (if q then y else none) := by
  by_cases hq : q
  · rw [if_pos (hpq.mpr hq), if_pos hq]
    exact h hq
  · rw [if_neg (hpq.not.mpr hq), if_neg hq]
    exact .none

/-- The rest of the server is as it is without the list. -/
theorem Refines.live_iff (h : Refines c s) : c.rest.Live k ↔ s.Live k := by
  rw [h.rest]
  rfl

theorem Refines.call (h : Refines c s) (a : Server.Action) :
    Option.Rel Agrees (ClientList.call c a) (Server.call s a) := by
  have hrunning : c.rest.client.aborted = s.client.aborted ∧ c.rest.faulted = s.faulted := by
    rw [h.rest]
    exact ⟨rfl, rfl⟩
  unfold ClientList.call Server.call
  rw [hrunning.1, hrunning.2]
  split
  · exact .none
  cases a with
  | setup => exact .some (.ok h.setup)
  | register k regmsg =>
      refine rel_ite h.live_iff fun _ => .some (.ok ⟨h.holds, ?_, ?_⟩)
      · dsimp only
        rw [h.rest]
        rfl
      · intro j hj
        simpa [Server.registerClientConnection] using h.allocated j hj
  | deregister k =>
      obtain ⟨result, hremove, hagrees⟩ := h.remove k
      refine rel_ite h.live_iff fun _ => ?_
      rw [hremove]
      exact .some hagrees
  | connect parent outcome =>
      have hfree : ((∀ k ∈ parent, c.rest.Live k) ∧ Server.blocked c.rest = false) ↔
          (∀ k ∈ parent, s.Live k) ∧ Server.blocked s = false := by
        rw [h.rest]
        rfl
      refine rel_ite hfree fun _ => .some (.ok ⟨h.holds, ?_, h.allocated⟩)
      dsimp only
      rw [h.rest]
      rfl
  | disconnect index =>
      have hfree : ((c.rest.client.serverConnections index).isSome ∧
            Server.blocked c.rest = false) ↔
          (s.client.serverConnections index).isSome ∧ Server.blocked s = false := by
        rw [h.rest]
        rfl
      refine rel_ite hfree fun _ => .some (.ok ⟨h.holds, ?_, h.allocated⟩)
      dsimp only
      rw [h.rest]
      rfl
  | eof k =>
      have honError := h.onError k
      by_cases hlive : s.Live k
      · dsimp only
        rw [if_pos (h.live_iff.mpr hlive)]
        simpa only [hlive, true_and] using honError
      · dsimp only
        rw [if_neg (h.live_iff.not.mpr hlive), if_neg fun hboth => hlive hboth.1]
        exact .none
  | clear => exact .some h.clear

theorem Refines.settle (h : Refines c s) {x : Except Fault State} {y : Except Fault Server.State}
    (hagrees : Agrees x y) : Refines (ClientList.settle c x) (Server.settle s y) := by
  cases hagrees with
  | ok h => exact h
  | error =>
      refine ⟨h.holds, ?_, h.allocated⟩
      simp only [ClientList.settle, Server.settle, h.rest]

theorem Refines.step (h : Refines c s) (a : Server.Action) :
    Option.Rel Refines (ClientList.step c a) (Server.step s a) := by
  have hcall := h.call a
  unfold ClientList.step Server.step
  generalize ClientList.call c a = x at hcall
  generalize Server.call s a = y at hcall
  cases hcall with
  | none => exact .none
  | some hagrees => exact .some (h.settle hagrees)

/-- The pointers of the list do what the list of connections does in every run, whatever the link
fields of the connections hold before they are set, and they then lead through the connections of
the list, forwards and backwards. -/
theorem list_refines_head (next : ℕ → Option ℕ) (prev : ℕ → Slot ℕ)
    (memory : ℕ → Server.Allocation) (actions : List Server.Action) :
    Option.Rel Refines (system.run (initial next prev memory) actions)
      (Server.system.run (Server.initial memory) actions) := by
  apply System.rel_run
  · intro c s a h
    exact h.step a
  · exact ⟨⟨.nil, trivial⟩, rfl, by simp [Server.initial]⟩

end Dynpm.ClientList
