import Dynpm.Verification.Server.Upstream

/-! # End of file of a client

The loop of `_server_on_error` clears the entries of the connection table that it looks at, and
`dynpm_disconnect_from_server` counts them. Each iteration concerns the entry at its own index, so
that the loop clears exactly the entries of the connections made for the client. Before and after
the loop the host of the client is printed, which has to be accessible.
-/

namespace Dynpm.Server

open Library

variable {s : State} {c : ℕ}

/-- The entries of the connection table that hold a connection made for `c`. -/
def State.children (s : State) (c : ℕ) : Finset (Fin maxServerConnections) :=
  Finset.univ.filter fun i => ∃ k ∈ s.client.serverConnections i, s.IsChild k c

theorem mem_children {i : Fin maxServerConnections} :
    i ∈ s.children c ↔ ∃ k, s.client.serverConnections i = some k ∧ s.IsChild k c := by
  simp [State.children]

/-- The values that `dynpm_disconnect_from_server` returns in the loop over the given indices. -/
def disconnectCodes (c : ℕ) : State → List (Fin maxServerConnections) → List ℤ
  | _, [] => []
  | s, index :: indices =>
      (match s.client.serverConnections index with
        | none => []
        | some k =>
            if s.IsChild k c ∧ s.client.aborted = false then
              [(Client.disconnectFromServer s.client index).2]
            else []) ++ disconnectCodes c (disconnectChild c s index) indices

/-- The client is initialised and no assertion has failed, and the count is the number of entries
in use. -/
structure Counted (s : State) : Prop where
  initialized : s.client.clientInitialized = true
  running : s.client.aborted = false
  count_eq : s.client.serverConnectionCount =
    (SlotTable.occupied s.client.serverConnections).card

/-- An entry of a connection made for `c` is disconnected. -/
theorem disconnectChild_of_mem {index : Fin maxServerConnections}
    (hrunning : s.client.aborted = false) (hmem : index ∈ s.children c) :
    disconnectChild c s index = disconnectFromServer s index := by
  obtain ⟨k, hentry, hchild⟩ := mem_children.mp hmem
  simp only [disconnectChild, hentry]
  exact if_pos ⟨hchild, hrunning⟩

/-- Any other entry is left alone. -/
theorem disconnectChild_of_notMem {index : Fin maxServerConnections} (hmem : index ∉ s.children c) :
    disconnectChild c s index = s := by
  rw [disconnectChild]
  split
  · rfl
  · next k hentry =>
      refine if_neg ?_
      rintro ⟨hchild, _⟩
      exact hmem (mem_children.mpr ⟨k, hentry, hchild⟩)

/-- There is a connection to count down for. -/
theorem Counted.disconnectChild (h : Counted s) (c : ℕ) (index : Fin maxServerConnections) :
    Counted (disconnectChild c s index) := by
  by_cases hmem : index ∈ s.children c
  · obtain ⟨k, hentry, _⟩ := mem_children.mp hmem
    have hcard := @SlotTable.card_occupied_clear _ _ s.client.serverConnections index
      (by rw [hentry]; rfl)
    have hcount := h.count_eq
    rw [disconnectChild_of_mem h.running hmem]
    refine ⟨h.initialized, ?_, ?_⟩
    · simp only [disconnectFromServer, Client.disconnectFromServer, decide_eq_false_iff_not]
      omega
    · simp only [disconnectFromServer, Client.disconnectFromServer]
      omega
  · rw [disconnectChild_of_notMem hmem]
    exact h

theorem disconnectChild_entry (h : Counted s) (c : ℕ) (index i : Fin maxServerConnections) :
    (disconnectChild c s index).client.serverConnections i =
      if i = index ∧ i ∈ s.children c then none else s.client.serverConnections i := by
  by_cases hmem : index ∈ s.children c
  · rw [disconnectChild_of_mem h.running hmem]
    simp only [disconnectFromServer, Client.disconnectFromServer]
    by_cases hi : i = index
    · subst hi
      rw [Function.update_self, if_pos ⟨rfl, hmem⟩]
    · rw [Function.update_of_ne hi, if_neg fun hcond => hi hcond.1]
  · rw [disconnectChild_of_notMem hmem, if_neg]
    rintro ⟨rfl, hmem'⟩
    exact hmem hmem'

theorem mem_children_disconnectChild (h : Counted s) {index i : Fin maxServerConnections} :
    i ∈ (disconnectChild c s index).children c ↔ i ∈ s.children c ∧ i ≠ index := by
  have hparents := (shrinks_disconnectChild s c index).parents
  have hentry := disconnectChild_entry h c index i
  constructor
  · intro hmem
    obtain ⟨k, hk, hchild⟩ := mem_children.mp hmem
    rw [hentry] at hk
    split at hk
    · exact absurd hk (by simp)
    · next hnot =>
        rw [State.IsChild, hparents] at hchild
        have hold : i ∈ s.children c := mem_children.mpr ⟨k, hk, hchild⟩
        exact ⟨hold, fun hi => hnot ⟨hi, hold⟩⟩
  · rintro ⟨hmem, hne⟩
    obtain ⟨k, hk, hchild⟩ := mem_children.mp hmem
    rw [mem_children, hentry, if_neg fun hcond => hne hcond.1]
    refine ⟨k, hk, ?_⟩
    rw [State.IsChild, hparents]
    exact hchild

/-! ## The whole loop -/

theorem Counted.foldl (h : Counted s) (c : ℕ) (indices : List (Fin maxServerConnections)) :
    Counted (indices.foldl (Server.disconnectChild c) s) := by
  induction indices generalizing s with
  | nil => exact h
  | cons index indices ih => exact ih (h.disconnectChild c index)

theorem foldl_entry (h : Counted s) (c : ℕ) (indices : List (Fin maxServerConnections))
    (i : Fin maxServerConnections) :
    (indices.foldl (disconnectChild c) s).client.serverConnections i =
      if i ∈ indices ∧ i ∈ s.children c then none else s.client.serverConnections i := by
  induction indices generalizing s with
  | nil => simp
  | cons index indices ih =>
      simp only [List.foldl_cons, ih (h.disconnectChild c index), disconnectChild_entry h,
        mem_children_disconnectChild h, List.mem_cons]
      by_cases hmem : i ∈ s.children c
      · by_cases hi : i = index
        · simp [hi]
        · simp [hmem, hi]
      · simp [hmem]

/-- A disconnected entry held a connection, so that the call returns zero. -/
theorem disconnectCodes_eq_zero (h : Counted s) (c : ℕ)
    (indices : List (Fin maxServerConnections)) :
    ∀ code ∈ disconnectCodes c s indices, code = 0 := by
  induction indices generalizing s with
  | nil => simp [disconnectCodes]
  | cons index indices ih =>
      intro code hcode
      rw [disconnectCodes] at hcode
      rcases List.mem_append.mp hcode with hcode | hcode
      · split at hcode
        · exact absurd hcode List.not_mem_nil
        · next k hentry =>
            split at hcode
            · rw [List.mem_singleton.mp hcode]
              simp [Client.disconnectFromServer, h.initialized, hentry]
            · exact absurd hcode List.not_mem_nil
      · exact ih (h.disconnectChild c index) code hcode

theorem disconnectChildren_entry (h : Counted s) (c : ℕ) (i : Fin maxServerConnections) :
    (disconnectChildren s c).client.serverConnections i =
      if i ∈ s.children c then none else s.client.serverConnections i := by
  rw [disconnectChildren, foldl_entry h]
  simp only [List.mem_finRange, true_and]

/-- The count goes down by the number of entries that are cleared. -/
theorem disconnectChildren_count (h : Counted s) (c : ℕ) :
    (disconnectChildren s c).client.serverConnectionCount =
      s.client.serverConnectionCount - (s.children c).card := by
  have hcounted : Counted (disconnectChildren s c) := by
    rw [disconnectChildren]
    exact h.foldl c _
  have hentries : (disconnectChildren s c).client.serverConnections =
      fun i => if i ∈ s.children c then none else s.client.serverConnections i :=
    funext fun i => disconnectChildren_entry h c i
  have hsubset : s.children c ⊆ SlotTable.occupied s.client.serverConnections := by
    intro i hi
    obtain ⟨k, hentry, _⟩ := mem_children.mp hi
    rw [SlotTable.mem_occupied, hentry]
    rfl
  have hcard := SlotTable.card_occupied_clear_all hsubset
  rw [hcounted.count_eq, h.count_eq, hentries]
  omega

/-- The end of file of `c` has led to `t`: exactly this client has been removed from the list,
exactly the entries of the connections made for it have been cleared and counted down, and
`dynpm_disconnect_from_server` has returned no error. -/
structure Cascaded (s : State) (c : ℕ) (t : State) : Prop where
  faultless : t.faulted = false
  running : t.client.aborted = false
  head_eq : t.head = s.head.filter (· ≠ c)
  entries : ∀ i, t.client.serverConnections i =
    if i ∈ s.children c then none else s.client.serverConnections i
  count_eq : t.client.serverConnectionCount =
    s.client.serverConnectionCount - (s.children c).card
  codes : ∀ code ∈ disconnectCodes c s (List.finRange maxServerConnections), code = 0

/-- The client is released behind the loop and its removal from the list. -/
theorem Counted.cascaded (h : Counted s) (hfaultless : s.faulted = false)
    (hnodup : s.head.Nodup) :
    Cascaded s c (release
      { disconnectChildren s c with head := (disconnectChildren s c).head.erase c } c) := by
  have hloop : Counted (disconnectChildren s c) := by
    rw [disconnectChildren]
    exact h.foldl c _
  have hshrinks := shrinks_disconnectChildren s c
  have hentry := disconnectChildren_entry h c
  have hcount := disconnectChildren_count h c
  have herase : s.head.erase c = s.head.filter (· ≠ c) := by
    rw [hnodup.erase_eq_filter]
    apply List.filter_congr
    intro x _
    by_cases hx : x = c
    · simp [hx]
    · simp [hx]
  generalize disconnectChildren s c = u at hloop hshrinks hentry hcount ⊢
  rw [release, if_neg (by simp [hloop.running])]
  exact
    { faultless := hshrinks.faulted.trans hfaultless
      running := hloop.running
      head_eq := (congrArg (List.erase · c) hshrinks.head).trans herase
      entries := hentry
      count_eq := hcount
      codes := disconnectCodes_eq_zero h c _ }

/-- The end of file of a client in the list cascades to exactly the connections made for the client
if and only if the client is registered or its memory held a null pointer: its host is printed
first. -/
theorem eof_cascades_iff (s : State) (c : ℕ) (hlive : s.Live c) (hhead : c ∈ s.head)
    (hnodup : s.head.Nodup) (hfree : blocked s = false) (hfaultless : s.faulted = false)
    (hcounted : Counted s) :
    (∃ t, step s (.eof c) = some t ∧ Cascaded s c t) ↔
      s.registration c ≠ none ∨ (s.memory c).hostNull = true := by
  have hstep : step s (.eof c) = some (settle s (serverOnError s c)) := by
    have hcall : call s (.eof c) = some (serverOnError s c) := by
      rw [call, if_neg (by simp [hcounted.running, hfaultless])]
      exact if_pos ⟨hlive, Or.inl hfree⟩
    rw [step, hcall]
    rfl
  rw [hstep]
  constructor
  · rintro ⟨t, ht, hcascaded⟩
    obtain rfl := Option.some.inj ht
    cases hresult : serverOnError s c with
    | error fault =>
        rw [hresult] at hcascaded
        exact absurd hcascaded.faultless (by simp [settle])
    | ok u => exact (hosts_of_serverOnError_eq_ok hresult).1
  · intro haccess
    refine ⟨_, rfl, ?_⟩
    rw [serverOnError_listed haccess hhead, settle]
    exact hcounted.cascaded hfaultless hnodup

/-- A server with one client, which is registered and for which it is connected to another
server. -/
def connectedServer : State :=
  connectToServer (registerClientConnection
    (clientConnectionSetup (clientConnectionEventHandler (initial staleMemory)) 0) 0
    ⟨7, [110, 49]⟩) (some 0) .succeeds

theorem connectedServer_counted : Counted connectedServer where
  initialized := rfl
  running := rfl
  count_eq := by decide +kernel

/-- The end of file of the client leaves neither the client nor the connection. -/
theorem connectedServer_cascades :
    ∃ t, step connectedServer (.eof 0) = some t ∧ Cascaded connectedServer 0 t ∧
      t.head = [] ∧ t.client.serverConnections Client.firstEntry = none ∧
      connectedServer.client.serverConnections Client.firstEntry = some 0 := by
  have hnodup : connectedServer.head.Nodup := by decide
  obtain ⟨t, ht, hcascaded⟩ := (eof_cascades_iff connectedServer 0 (by decide) (by decide) hnodup
    rfl rfl connectedServer_counted).mpr (Or.inl (by decide))
  have hchild : Client.firstEntry ∈ connectedServer.children 0 :=
    mem_children.mpr ⟨0, by decide, rfl⟩
  have hentry := hcascaded.entries Client.firstEntry
  rw [if_pos hchild] at hentry
  have hhead : connectedServer.head.filter (· ≠ 0) = [] := by decide
  exact ⟨t, ht, hcascaded, hcascaded.head_eq.trans hhead, hentry, by decide⟩

/-- A server with one client that has not been registered yet. -/
def unregisteredServer : State :=
  clientConnectionSetup (clientConnectionEventHandler (initial staleMemory)) 0

/-- The end of file of the client is a fault: its host is printed although nothing has assigned
it. -/
theorem unregisteredServer_faults :
    (unregisteredServer.Live 0 ∧ 0 ∈ unregisteredServer.head ∧ unregisteredServer.head.Nodup ∧
      blocked unregisteredServer = false ∧ unregisteredServer.faulted = false ∧
      Counted unregisteredServer) ∧
    (∃ t, step unregisteredServer (.eof 0) = some t ∧ t.faulted = true) ∧
    ¬ ∃ t, step unregisteredServer (.eof 0) = some t ∧ Cascaded unregisteredServer 0 t := by
  have hnodup : unregisteredServer.head.Nodup := by decide
  have hcounted : Counted unregisteredServer := ⟨rfl, rfl, by decide +kernel⟩
  have hfaults : (step unregisteredServer (.eof 0)).map State.faulted = some true := by decide
  obtain ⟨t, ht, hfaulted⟩ := Option.map_eq_some_iff.mp hfaults
  refine ⟨⟨by decide, by decide, hnodup, rfl, rfl, hcounted⟩, ⟨t, ht, hfaulted⟩, ?_⟩
  rintro ⟨u, hu, hcascaded⟩
  obtain rfl := Option.some.inj (ht.symm.trans hu)
  exact absurd (hfaulted.symm.trans hcascaded.faultless) (by decide)

end Dynpm.Server
