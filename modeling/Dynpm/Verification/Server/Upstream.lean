import Dynpm.Model.Server
import Dynpm.Verification.Client.Table
import Dynpm.Verification.Server.HostField

/-! # Connections made for a client

When a client goes away, the connections to other servers that were made for it are to be
disconnected. `_server_on_error` does so for a client in the list. A client that has been
deregistered before leaves such connections behind. The functions that print or release a client
without an accessible host fault, and so does `dynpm_clear_client_connections` when there is a
client in the list.
-/

namespace Dynpm.Server

open Library

variable {s t : State} {c : ℕ}

/-- No entry of the connection table names a released connection as its parent. -/
def NoDangling (s : State) : Prop :=
  ∀ i k c, s.client.serverConnections i = some k → s.IsChild k c → c ∉ s.released

/-- No call has faulted, and no entry names a released connection. -/
def Sound (s : State) : Prop := s.faulted = false ∧ NoDangling s

/-- A connection that is released is in the list when its end of file is handled, or nothing has
been connected for it, and its host can be accessed. A connection that is to be removed is in the
list, or the hosts of the list can be printed. The list is cleared only when it is empty. -/
def Cascades (s : State) : Action → Prop
  | .eof c => s.HostAccessible c ∧ s.FoundOrPrintable c ∧ (c ∈ s.head ∨ ¬ s.HasChild c)
  | .deregister c => s.FoundOrPrintable c
  | .clear => s.head = []
  | .setup | .register _ _ | .connect _ _ | .disconnect _ => True

structure Invariant (s : State) : Prop where
  no_dangling : NoDangling s
  faultless : s.faulted = false
  initialized : s.client.clientInitialized = true
  aligned : s.parents.length = s.client.connections.length
  bound : ∀ i k, s.client.serverConnections i = some k → k < s.client.connections.length

theorem invariant_initial (memory : ℕ → Allocation) : Invariant (initial memory) where
  no_dangling := by simp [NoDangling, initial, Client.clientInit, Client.State.static]
  faultless := rfl
  initialized := rfl
  aligned := rfl
  bound := by simp [initial, Client.clientInit, Client.State.static]

/-! ## Disconnecting -/

/-- `t` differs from `s` by entries of the table that have been cleared. -/
structure Shrinks (s t : State) : Prop where
  connections : t.connections = s.connections
  released : t.released = s.released
  parents : t.parents = s.parents
  head : t.head = s.head
  memory : t.memory = s.memory
  faulted : t.faulted = s.faulted
  initialized : t.client.clientInitialized = s.client.clientInitialized
  length : t.client.connections.length = s.client.connections.length
  entries : ∀ i k, t.client.serverConnections i = some k → s.client.serverConnections i = some k

theorem Shrinks.refl (s : State) : Shrinks s s :=
  ⟨rfl, rfl, rfl, rfl, rfl, rfl, rfl, rfl, fun _ _ h => h⟩

theorem Shrinks.trans {u : State} (h : Shrinks s t) (h' : Shrinks t u) : Shrinks s u where
  connections := h'.connections.trans h.connections
  released := h'.released.trans h.released
  parents := h'.parents.trans h.parents
  head := h'.head.trans h.head
  memory := h'.memory.trans h.memory
  faulted := h'.faulted.trans h.faulted
  initialized := h'.initialized.trans h.initialized
  length := h'.length.trans h.length
  entries i k hk := h.entries i k (h'.entries i k hk)

theorem Invariant.shrinks (h : Invariant s) (hst : Shrinks s t) : Invariant t where
  no_dangling := by
    intro i k c hk hchild
    rw [hst.released]
    apply h.no_dangling i k c (hst.entries i k hk)
    rw [State.IsChild, ← hst.parents]
    exact hchild
  faultless := hst.faulted.trans h.faultless
  initialized := hst.initialized.trans h.initialized
  aligned := by rw [hst.parents, hst.length, h.aligned]
  bound i k hk := by
    rw [hst.length]
    exact h.bound i k (hst.entries i k hk)

theorem shrinks_disconnect (s : State) (index : Fin maxServerConnections) :
    Shrinks s (disconnectFromServer s index) := by
  refine ⟨rfl, rfl, rfl, rfl, rfl, rfl, rfl, ?_, ?_⟩
  · cases hentry : s.client.serverConnections index <;>
      simp [disconnectFromServer, Client.disconnectFromServer, hentry]
  · intro i k hk
    by_cases hi : i = index
    · simp [disconnectFromServer, Client.disconnectFromServer, hi] at hk
    · simpa [disconnectFromServer, Client.disconnectFromServer, hi] using hk

/-! ## The loop over the table -/

theorem shrinks_disconnectChild (s : State) (c : ℕ) (index : Fin maxServerConnections) :
    Shrinks s (disconnectChild c s index) := by
  unfold disconnectChild
  split
  · exact Shrinks.refl s
  · split
    · exact shrinks_disconnect s index
    · exact Shrinks.refl s

theorem shrinks_foldl (c : ℕ) (indices : List (Fin maxServerConnections)) (s : State) :
    Shrinks s (indices.foldl (disconnectChild c) s) := by
  induction indices generalizing s with
  | nil => exact Shrinks.refl s
  | cons index indices ih => exact (shrinks_disconnectChild s c index).trans (ih _)

theorem shrinks_disconnectChildren (s : State) (c : ℕ) : Shrinks s (disconnectChildren s c) := by
  rw [disconnectChildren]
  exact shrinks_foldl c _ s

/-- After a failed assertion the loop does not go on. -/
theorem aborted_foldl (c : ℕ) (indices : List (Fin maxServerConnections))
    (h : s.client.aborted = true) :
    (indices.foldl (disconnectChild c) s).client.aborted = true := by
  induction indices with
  | nil => exact h
  | cons index indices ih =>
      have hsame : disconnectChild c s index = s := by
        unfold disconnectChild
        split
        · rfl
        · rw [if_neg (by simp [h])]
      rw [List.foldl_cons, hsame]
      exact ih

/-- One iteration leaves no child at its index. -/
theorem disconnectChild_clears (c : ℕ) (index : Fin maxServerConnections) {k : ℕ}
    (hrunning : s.client.aborted = false)
    (hk : (disconnectChild c s index).client.serverConnections index = some k) :
    ¬ s.IsChild k c := by
  intro hchild
  cases hentry : s.client.serverConnections index with
  | none =>
      simp only [disconnectChild, hentry] at hk
      exact absurd hk (by simp)
  | some k' =>
      obtain rfl := Option.some.inj
        (hentry.symm.trans ((shrinks_disconnectChild s c index).entries index k hk))
      simp [disconnectChild, hentry, hchild, hrunning, disconnectFromServer,
        Client.disconnectFromServer] at hk

theorem foldl_clears (c : ℕ) (indices : List (Fin maxServerConnections)) (s : State)
    (hrunning : (indices.foldl (disconnectChild c) s).client.aborted = false) :
    ∀ index ∈ indices, ∀ k,
      (indices.foldl (disconnectChild c) s).client.serverConnections index = some k →
        ¬ s.IsChild k c := by
  induction indices generalizing s with
  | nil => simp
  | cons first indices ih =>
      have hrunning' : s.client.aborted = false := by
        by_contra habort
        have htrue := aborted_foldl c (first :: indices) (s := s) (by simpa using habort)
        exact absurd (hrunning.symm.trans htrue) (by decide)
      have hshrinks := shrinks_disconnectChild s c first
      intro index hmem k hk
      rcases List.mem_cons.mp hmem with rfl | hmem
      · exact disconnectChild_clears c index hrunning'
          ((shrinks_foldl c indices _).entries index k hk)
      · have hnot := ih _ hrunning index hmem k hk
        rwa [State.IsChild, hshrinks.parents] at hnot

/-- The loop clears the entries of all connections made for `c`. -/
theorem disconnectChildren_clears (hrunning : (disconnectChildren s c).client.aborted = false)
    {i : Fin maxServerConnections} {k : ℕ}
    (hk : (disconnectChildren s c).client.serverConnections i = some k) : ¬ s.IsChild k c := by
  rw [disconnectChildren] at hrunning hk
  exact foldl_clears c _ s hrunning i (List.mem_finRange i) k hk

/-! ## Releasing -/

/-- The release of a connection for which nothing is connected. -/
theorem Invariant.release (h : Invariant s)
    (hnone : ∀ i k, s.client.serverConnections i = some k → ¬ s.IsChild k c) :
    Invariant (Server.release s c) := by
  unfold Server.release
  split
  · exact h
  · refine ⟨?_, h.faultless, h.initialized, h.aligned, h.bound⟩
    intro i k c' hk hchild hmem
    rcases List.mem_append.mp hmem with hmem | hmem
    · exact h.no_dangling i k c' hk hchild hmem
    · obtain rfl := List.mem_singleton.mp hmem
      exact hnone i k hk hchild

/-- The release of a connection for which something is connected. -/
theorem not_noDangling_release (hrunning : s.client.aborted = false) (hchild : s.HasChild c) :
    ¬ NoDangling (release s c) := by
  intro h
  rw [release, hrunning] at h
  obtain ⟨i, k, hk, hchild⟩ := hchild
  exact h i k c hk hchild (List.mem_append_right _ (List.mem_singleton_self c))

/-- Where the hosts can be accessed, a connection in the list is removed and released. -/
theorem serverOnError_listed (haccess : s.HostAccessible c) (hmem : c ∈ s.head) :
    serverOnError s c = .ok (release
      { disconnectChildren s c with head := (disconnectChildren s c).head.erase c } c) := by
  have hlisted : (disconnectChildren s c).FoundOrPrintable c := by
    rw [State.FoundOrPrintable, (shrinks_disconnectChildren s c).head]
    exact Or.inl hmem
  rw [serverOnError, serverOnErrorHosts_eq_ok_iff.mpr ⟨haccess, Or.inl hmem⟩, ok_bind,
    if_pos hmem, removeClientConnectionFromList_ok hlisted]
  rfl

/-- Another one is only released. -/
theorem serverOnError_unlisted (haccess : s.HostAccessible c) (hprintable : s.FoundOrPrintable c)
    (hmem : c ∉ s.head) : serverOnError s c = .ok (release s c) := by
  rw [serverOnError, serverOnErrorHosts_eq_ok_iff.mpr ⟨haccess, hprintable⟩, ok_bind,
    if_neg hmem]
  rfl

theorem hosts_of_serverOnError_eq_ok (h : serverOnError s c = .ok t) :
    s.HostAccessible c ∧ s.FoundOrPrintable c := by
  obtain ⟨_, hhosts, _⟩ := bind_eq_ok h
  exact serverOnErrorHosts_eq_ok_iff.mp hhosts

/-- `t` has the connections of `s` in the same memory. -/
def Keeps (s t : State) : Prop := t.connections = s.connections ∧ t.memory = s.memory

theorem release_keeps (s : State) (c : ℕ) :
    Keeps s (release s c) ∧ ∀ c' ∈ (release s c).released, c' ∈ s.released ∨ c' = c := by
  unfold release
  split
  · exact ⟨⟨rfl, rfl⟩, fun _ hmem => Or.inl hmem⟩
  · exact ⟨⟨rfl, rfl⟩, fun c' hc' => by simpa using hc'⟩

/-- `_server_on_error` releases its connection and no other one. -/
theorem serverOnError_keeps (h : serverOnError s c = .ok t) :
    Keeps s t ∧ ∀ c' ∈ t.released, c' ∈ s.released ∨ c' = c := by
  obtain ⟨haccess, hprintable⟩ := hosts_of_serverOnError_eq_ok h
  by_cases hmem : c ∈ s.head
  · have hshrinks := shrinks_disconnectChildren s c
    have heq := Except.ok.inj (h.symm.trans (serverOnError_listed haccess hmem))
    generalize disconnectChildren s c = u at hshrinks heq
    obtain ⟨⟨hconnections, hmemory⟩, hreleased⟩ :=
      release_keeps { u with head := u.head.erase c } c
    rw [heq]
    refine ⟨⟨hconnections.trans hshrinks.connections, hmemory.trans hshrinks.memory⟩, ?_⟩
    rw [← hshrinks.released]
    exact hreleased
  · obtain rfl := Except.ok.inj ((serverOnError_unlisted haccess hprintable hmem).symm.trans h)
    exact release_keeps s c

theorem deregister_keeps (h : deregisterClientConnection s c = .ok t) : Keeps s t := by
  rw [(removeClientConnectionFromList_eq_ok h).2]
  exact ⟨rfl, rfl⟩

theorem clear_eq_ok_iff : clearClientConnections s = .ok t ↔ s.head = [] ∧ t = s := by
  rw [clearClientConnections]
  split
  · next hempty => simp [hempty, eq_comm]
  · next hhead => simp [hhead]

/-- A call that keeps the connections if it returns. -/
theorem settle_keeps {result : Except Fault State} (h : ∀ t, result = .ok t → Keeps s t) :
    Keeps s (settle s result) := by
  cases result with
  | ok t => exact h t rfl
  | error fault => exact ⟨rfl, rfl⟩

theorem Invariant.onError_listed (h : Invariant s) (c : ℕ) :
    Invariant (Server.release
      { disconnectChildren s c with head := (disconnectChildren s c).head.erase c } c) := by
  have hshrinks := shrinks_disconnectChildren s c
  have hclears := @disconnectChildren_clears s c
  generalize disconnectChildren s c = u at hshrinks hclears ⊢
  have hloop := h.shrinks hshrinks
  have hremoved : Invariant { u with head := u.head.erase c } :=
    ⟨hloop.no_dangling, hloop.faultless, hloop.initialized, hloop.aligned, hloop.bound⟩
  cases hrunning : u.client.aborted with
  | true =>
      rw [Server.release, if_pos hrunning]
      exact hremoved
  | false =>
      apply hremoved.release
      intro i k hk hchild
      simp only [State.IsChild, hshrinks.parents] at hchild
      exact hclears hrunning hk hchild

/-- `_server_on_error` does not fault and leaves no entry behind. -/
theorem Invariant.onError (h : Invariant s) (hcascades : Cascades s (.eof c)) :
    ∃ t, serverOnError s c = .ok t ∧ Invariant t := by
  obtain ⟨haccess, hprintable, hreleased⟩ := hcascades
  by_cases hmem : c ∈ s.head
  · exact ⟨_, serverOnError_listed haccess hmem, h.onError_listed c⟩
  · refine ⟨_, serverOnError_unlisted haccess hprintable hmem, h.release ?_⟩
    intro i k hk hchild
    exact (hreleased.resolve_left hmem) ⟨i, k, hk, hchild⟩

/-! ## Connecting -/

theorem Invariant.connect (h : Invariant s) {parent : Option ℕ} (hlive : ∀ c ∈ parent, s.Live c)
    (outcome : Client.ConnectOutcome) : Invariant (connectToServer s parent outcome) := by
  rcases Client.connectToServer_cases h.initialized outcome with ⟨_, heq⟩ | ⟨_, _, heq⟩ |
    ⟨_, index, _, heq⟩
  · simp only [connectToServer, heq, lt_self_iff_false, if_false]
    exact h
  · simp only [connectToServer, heq, lt_self_iff_false, if_false]
    exact ⟨h.no_dangling, h.faultless, h.initialized, h.aligned, h.bound⟩
  · simp only [connectToServer, heq, List.length_append, List.length_singleton, Nat.lt_add_one,
      if_true]
    -- the new object is the last one, and so is its parent
    have hold : ∀ k < s.client.connections.length, (s.parents ++ [parent])[k]? = s.parents[k]? := by
      intro k hk
      rw [List.getElem?_append_left (by rw [h.aligned]; exact hk)]
    refine ⟨?_, h.faultless, h.initialized, ?_, ?_⟩
    · intro i k c hk hchild
      simp only [State.IsChild] at hchild
      by_cases hi : i = index
      · obtain rfl : s.client.connections.length = k := by simpa [hi] using hk
        rw [← h.aligned, List.getElem?_concat_length] at hchild
        exact (hlive c (Option.some.inj hchild)).2
      · simp only [Function.update_of_ne hi] at hk
        rw [hold k (h.bound i k hk)] at hchild
        exact h.no_dangling i k c hk hchild
    · simp [h.aligned]
    · intro i k hk
      simp only [List.length_append, List.length_singleton]
      by_cases hi : i = index
      · obtain rfl : s.client.connections.length = k := by simpa [hi] using hk
        omega
      · simp only [Function.update_of_ne hi] at hk
        have := h.bound i k hk
        omega

/-! ## Whole runs -/

/-- What a step can do. -/
theorem step_cases {a : Action} (hstep : system.step s a = some t) :
    s.client.aborted = false ∧ s.faulted = false ∧
      ((a = .setup ∧
          t = clientConnectionSetup (clientConnectionEventHandler s) s.connections.length) ∨
        (∃ c regmsg, a = .register c regmsg ∧ s.Live c ∧
          t = registerClientConnection s c regmsg) ∨
        (∃ c, a = .deregister c ∧ t = settle s (deregisterClientConnection s c)) ∨
        (∃ parent outcome, a = .connect parent outcome ∧ (∀ c ∈ parent, s.Live c) ∧
          t = connectToServer s parent outcome) ∨
        (∃ index, a = .disconnect index ∧ t = disconnectFromServer s index) ∨
        (∃ c, a = .eof c ∧ s.Live c ∧ t = settle s (serverOnError s c)) ∨
        (a = .clear ∧ t = settle s (clearClientConnections s))) := by
  obtain ⟨result, hcall, rfl⟩ := Option.map_eq_some_iff.mp hstep
  obtain ⟨hrunning, hcall⟩ := Option.ite_none_left_eq_some.mp hcall
  obtain ⟨hrunning, hfaultless⟩ := not_or.mp hrunning
  refine ⟨by simpa using hrunning, by simpa using hfaultless, ?_⟩
  cases a with
  | setup =>
      obtain rfl := Option.some.inj hcall
      exact Or.inl ⟨rfl, rfl⟩
  | register c regmsg =>
      obtain ⟨hlive, hcall⟩ := Option.ite_none_right_eq_some.mp hcall
      obtain rfl := Option.some.inj hcall
      exact Or.inr (Or.inl ⟨c, regmsg, rfl, hlive, rfl⟩)
  | deregister c =>
      obtain ⟨_, hcall⟩ := Option.ite_none_right_eq_some.mp hcall
      obtain rfl := Option.some.inj hcall
      exact Or.inr (Or.inr (Or.inl ⟨c, rfl, rfl⟩))
  | connect parent outcome =>
      obtain ⟨⟨hlive, _⟩, hcall⟩ := Option.ite_none_right_eq_some.mp hcall
      obtain rfl := Option.some.inj hcall
      exact Or.inr (Or.inr (Or.inr (Or.inl ⟨parent, outcome, rfl, hlive, rfl⟩)))
  | disconnect index =>
      obtain ⟨_, hcall⟩ := Option.ite_none_right_eq_some.mp hcall
      obtain rfl := Option.some.inj hcall
      exact Or.inr (Or.inr (Or.inr (Or.inr (Or.inl ⟨index, rfl, rfl⟩))))
  | eof c =>
      obtain ⟨⟨hlive, _⟩, hcall⟩ := Option.ite_none_right_eq_some.mp hcall
      obtain rfl := Option.some.inj hcall
      exact Or.inr (Or.inr (Or.inr (Or.inr (Or.inr (Or.inl ⟨c, rfl, hlive, rfl⟩)))))
  | clear =>
      obtain rfl := Option.some.inj hcall
      exact Or.inr (Or.inr (Or.inr (Or.inr (Or.inr (Or.inr ⟨rfl, rfl⟩)))))

/-- What the memory of the connections holds is given once and for all. -/
theorem memory_step {a : Action} (hstep : system.step s a = some t) : t.memory = s.memory := by
  obtain ⟨_, _, ⟨rfl, rfl⟩ | ⟨c, regmsg, rfl, _, rfl⟩ | ⟨c, rfl, rfl⟩ |
    ⟨parent, outcome, rfl, _, rfl⟩ | ⟨index, rfl, rfl⟩ | ⟨c, rfl, _, rfl⟩ | ⟨rfl, rfl⟩⟩ :=
    step_cases hstep
  · rfl
  · rfl
  · exact (settle_keeps fun _ => deregister_keeps).2
  · rfl
  · rfl
  · exact (settle_keeps fun _ ht => (serverOnError_keeps ht).1).2
  · exact (settle_keeps fun _ ht => (clear_eq_ok_iff.mp ht).2 ▸ ⟨rfl, rfl⟩).2

theorem Invariant.step (h : Invariant s) {a : Action} (hcascades : Cascades s a)
    (hstep : system.step s a = some t) : Invariant t := by
  obtain ⟨_, _, ⟨rfl, rfl⟩ | ⟨c, regmsg, rfl, _, rfl⟩ | ⟨c, rfl, rfl⟩ |
    ⟨parent, outcome, rfl, hlive, rfl⟩ | ⟨index, rfl, rfl⟩ | ⟨c, rfl, _, rfl⟩ | ⟨rfl, rfl⟩⟩ :=
    step_cases hstep
  · exact ⟨h.no_dangling, h.faultless, h.initialized, h.aligned, h.bound⟩
  · exact ⟨h.no_dangling, h.faultless, h.initialized, h.aligned, h.bound⟩
  · rw [deregisterClientConnection, removeClientConnectionFromList_ok hcascades]
    exact ⟨h.no_dangling, h.faultless, h.initialized, h.aligned, h.bound⟩
  · exact h.connect hlive outcome
  · exact h.shrinks (shrinks_disconnect s index)
  · obtain ⟨t, ht, hinvariant⟩ := h.onError hcascades
    rw [ht]
    exact hinvariant
  · rw [clear_eq_ok_iff.mpr ⟨hcascades, rfl⟩]
    exact h

/-- A call that returns only if a condition holds faults where it does not. -/
theorem not_sound_settle {result : Except Fault State}
    (h : ∀ u, result = .ok u → ¬ Sound u) : ¬ Sound (settle s result) := by
  cases result with
  | ok u => exact h u rfl
  | error fault =>
      rintro ⟨hfaultless, -⟩
      exact absurd hfaultless (by simp [settle])

theorem not_sound_step {a : Action} (hnot : ¬ Cascades s a)
    (hstep : system.step s a = some t) : ¬ Sound t := by
  obtain ⟨hrunning, _, ⟨rfl, rfl⟩ | ⟨c, regmsg, rfl, _, rfl⟩ | ⟨c, rfl, rfl⟩ |
    ⟨parent, outcome, rfl, hlive, rfl⟩ | ⟨index, rfl, rfl⟩ | ⟨c, rfl, _, rfl⟩ | ⟨rfl, rfl⟩⟩ :=
    step_cases hstep
  · exact absurd trivial hnot
  · exact absurd trivial hnot
  · apply not_sound_settle
    intro u hu
    exact absurd (removeClientConnectionFromList_eq_ok hu).1 hnot
  · exact absurd trivial hnot
  · exact absurd trivial hnot
  · apply not_sound_settle
    intro u hu
    obtain ⟨haccess, hprintable⟩ := hosts_of_serverOnError_eq_ok hu
    have hleft : ¬ (c ∈ s.head ∨ ¬ s.HasChild c) := fun hleft =>
      hnot ⟨haccess, hprintable, hleft⟩
    rw [not_or, not_not] at hleft
    obtain rfl := Except.ok.inj ((serverOnError_unlisted haccess hprintable hleft.1).symm.trans hu)
    exact fun hsound => not_noDangling_release hrunning hleft.2 hsound.2
  · apply not_sound_settle
    intro u hu
    exact absurd (clear_eq_ok_iff.mp hu).1 hnot

/-- Whatever happens at a server, no call faults and no connection to another server names a
released client connection as its parent if and only if each client connection that is released is
in the list when its end of file is handled, or nothing is connected for it, no host is printed or
freed that nothing has assigned, and the list is cleared only when it is empty. -/
theorem no_dangling_parent_iff (memory : ℕ → Allocation) (actions : List Action) :
    system.Throughout Sound (initial memory) actions ↔
      system.Respecting Cascades (initial memory) actions := by
  apply System.throughout_iff_respecting (I := Invariant) _ _ _ (invariant_initial memory)
  · intro s h
    exact ⟨h.faultless, h.no_dangling⟩
  · intro s a t h hcascades hstep
    exact h.step hcascades hstep
  · intro s a t _ hnot hstep
    exact not_sound_step hnot hstep

/-- Memory that held a pointer to anywhere. -/
def staleMemory : ℕ → Allocation := fun _ => ⟨7, false⟩

/-- A registered client for which a connection has been made deregisters and then closes. -/
def deregisteredClient : List Action :=
  [.setup, .register 0 ⟨7, [110, 49]⟩, .connect (some 0) .succeeds, .deregister 0, .eof 0]

/-- The connection made for the client outlives it. -/
theorem deregisteredClient_dangles :
    ∃ s, system.run (initial staleMemory) deregisteredClient = some s ∧ s.faulted = false ∧
      s.client.serverConnections Client.firstEntry = some 0 ∧ s.IsChild 0 0 ∧ 0 ∈ s.released ∧
      ¬ NoDangling s := by
  have hrun : (system.run (initial staleMemory) deregisteredClient).map (fun s =>
      (s.faulted, s.client.serverConnections Client.firstEntry, s.parents, s.released)) =
      some (false, some 0, [some 0], [0]) := by decide
  obtain ⟨s, hs, hvalues⟩ := Option.map_eq_some_iff.mp hrun
  simp only [Prod.mk.injEq] at hvalues
  obtain ⟨hfaultless, hentry, hparents, hreleased⟩ := hvalues
  have hchild : s.IsChild 0 0 := by rw [State.IsChild, hparents]; rfl
  have hgone : 0 ∈ s.released := by rw [hreleased]; exact List.mem_cons_self
  exact ⟨s, hs, hfaultless, hentry, hchild, hgone, fun h => h _ 0 0 hentry hchild hgone⟩

end Dynpm.Server
