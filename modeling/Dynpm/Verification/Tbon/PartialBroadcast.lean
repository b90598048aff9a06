import Dynpm.Library.Simulation
import Dynpm.Library.Termination
import Dynpm.Model.TbonNetwork
import Dynpm.Verification.Tbon.Broadcast
import Mathlib.Data.Finset.Range
import Mathlib.Data.Finset.Card

/-! # A broadcast with broken connections

A vertex stops at its first broken connection, so that the children behind it receive nothing, and
neither do the vertices below them. Which vertices these are depends on the broken connections
alone, and not on the order of the steps.
-/

namespace Dynpm.Tbon

open Library

variable {β : Type}

/-- The connections from a vertex to its children up to the given index work. -/
def Overlay.Unbroken (O : Overlay) (broken : ℤ → ℤ → Bool) (id : ℤ) (j : ℕ) : Prop :=
  ∀ i ≤ j, ∀ connection, (O.vertex id).childrenConnectionIndexes[i]? = some connection →
    broken id connection = false

/-- The vertices that the broadcast can reach. -/
inductive Overlay.Served (O : Overlay) (broken : ℤ → ℤ → Bool) : ℤ → Prop where
  | root : O.Served broken 0
  | child {p c : ℤ} {j : ℕ} : O.Served broken p → (O.vertex p).childrenIds[j]? = some c → c ≠ -1 →
      O.Unbroken broken p j → O.Served broken c

variable {O : Overlay} {broken : ℤ → ℤ → Bool} {message : β} {s t : PartialState β}

/-! ## Children by their index -/

/-- The index at which a child stands is its distance from the first child. -/
theorem Overlay.child_at (O : Overlay) {p c : ℤ} {j : ℕ} (hp : 0 ≤ p) (hlt : p < O.total)
    (hchild : (O.vertex p).childrenIds[j]? = some c) (hne : c ≠ -1) :
    1 ≤ c ∧ c < O.total ∧ parentOf O.degree c = p ∧ c = O.degree * p + j + 1 := by
  have hj : j < (childrenOf O.degree O.total p).length := by
    rw [O.childrenIds_eq hp hlt] at hchild
    exact (List.getElem?_eq_some_iff.mp hchild).1
  have hdegree : (j : ℤ) < O.degree := by
    have hpos := O.degree_pos
    rw [childrenOf, List.length_map, List.length_range] at hj
    omega
  rw [O.childrenIds_getElem? hp hlt hdegree] at hchild
  have hvalue : childOf O.degree O.total p j = c := Option.some.inj hchild
  have hmul := (O.size.child_le hp hlt).1
  rw [childOf] at hvalue
  split at hvalue
  · exact absurd hvalue.symm hne
  · subst hvalue
    exact ⟨by omega, by omega, parentOf_child O.degree_pos hp hdegree (by omega), rfl⟩

theorem Overlay.Served.range {c : ℤ} (h : O.Served broken c) : 0 ≤ c ∧ c < O.total := by
  induction h with
  | root => exact ⟨le_refl 0, by have := O.total_pos; omega⟩
  | child hp hchild hne _ ih =>
      obtain ⟨hpos, hlt, _, _⟩ := O.child_at ih.1 ih.2 hchild hne
      exact ⟨by omega, hlt⟩

/-- A send uses the connection at the index of the loop. -/
theorem TbonVertex.connection_of_nextSend {vertex : TbonVertex} {j : ℕ} {connection : ℤ}
    (h : vertex.nextSend j = some connection) :
    vertex.childrenConnectionIndexes[j]? = some connection := by
  unfold TbonVertex.nextSend at h
  split at h
  · exact h
  · exact absurd h (by simp)

/-! ## The steps -/

theorem Overlay.send_cases {state state' : State β} {id : ℤ}
    (h : O.send message state id = some state') :
    ∃ index buffer connection, state.progress id = some index ∧
      (O.vertex id).nextSend index = some connection ∧
      state' = { state with
        progress := Function.update state.progress id (some (index + 1))
        inFlight := state.inFlight ++ [(O.peer id connection, buffer)]
        sent := state.sent ++ [(O.peer id connection, buffer)] } := by
  obtain ⟨index, hindex, h⟩ := Option.bind_eq_some_iff.mp h
  obtain ⟨buffer, _, h⟩ := Option.bind_eq_some_iff.mp h
  obtain ⟨connection, hconnection, h⟩ := Option.bind_eq_some_iff.mp h
  exact ⟨index, buffer, connection, hindex, hconnection, (Option.some.inj h).symm⟩

/-- A vertex that has not stopped sends to its next child, or stops there. -/
theorem Overlay.sendOrStop_cases {id : ℤ} (h : O.sendOrStop broken message s id = some t) :
    ∃ index connection, s.state.progress id = some index ∧
      (O.vertex id).nextSend index = some connection ∧ s.stopped id = false ∧
      ((broken id connection = true ∧
          t = { s with stopped := Function.update s.stopped id true }) ∨
        (broken id connection = false ∧
          ∃ state, O.send message s.state id = some state ∧ t = { s with state })) := by
  obtain ⟨index, hindex, h⟩ := Option.bind_eq_some_iff.mp h
  obtain ⟨connection, hconnection, h⟩ := Option.bind_eq_some_iff.mp h
  refine ⟨index, connection, hindex, hconnection, ?_⟩
  cases hstopped : s.stopped id with
  | true =>
      rw [hstopped] at h
      exact absurd h (by simp)
  | false =>
      cases hbroken : broken id connection with
      | true =>
          rw [hstopped, hbroken] at h
          exact ⟨rfl, .inl ⟨rfl, (Option.some.inj h).symm⟩⟩
      | false =>
          rw [hstopped, hbroken] at h
          obtain ⟨state, hstate, ht⟩ := Option.map_eq_some_iff.mp h
          exact ⟨rfl, .inr ⟨rfl, state, hstate, ht.symm⟩⟩

/-- A step is a step of the broadcast, or a vertex stops. -/
theorem partialBroadcast_step {a : Action}
    (h : (O.partialBroadcast broken message).step s a = some t) :
    t.state = s.state ∨ (O.broadcast message).step s.state a = some t.state := by
  cases a with
  | start id =>
      obtain ⟨state, hstate, rfl⟩ := Option.map_eq_some_iff.mp h
      exact .inr hstate
  | send id =>
      obtain ⟨_, _, _, _, _, hcase⟩ := Overlay.sendOrStop_cases h
      rcases hcase with ⟨_, rfl⟩ | ⟨_, state, hstate, rfl⟩
      · exact .inl rfl
      · exact .inr hstate
  | deliver position =>
      obtain ⟨state, hstate, rfl⟩ := Option.map_eq_some_iff.mp h
      exact .inr hstate

/-- Broken connections do not change what a broadcast can do, only how far it gets. -/
theorem reachable_of_partial (h : (O.partialBroadcast broken message).Reachable s) :
    (O.broadcast message).Reachable s.state := by
  apply System.Reachable.project PartialState.state _ _ h
  · intro s hs
    rw [hs]
    rfl
  · intro s a t hstep
    rcases partialBroadcast_step hstep with heq | hbase
    · exact .inl heq
    · exact .inr ⟨a, hbase⟩

/-! ## Only served vertices take part -/

structure PartialInvariant (O : Overlay) (broken : ℤ → ℤ → Bool) (message : β)
    (s : PartialState β) : Prop where
  base : Invariant O message s.state
  progress_served : ∀ id j, s.state.progress id = some j → O.Served broken id
  progress_unbroken : ∀ id j, s.state.progress id = some j → ∀ i < j, O.Unbroken broken id i
  sent_served : ∀ delivery ∈ s.state.sent, O.Served broken delivery.1
  stopped_broken : ∀ id, s.stopped id = true → ∃ j connection, s.state.progress id = some j ∧
    (O.vertex id).nextSend j = some connection ∧ broken id connection = true

theorem PartialInvariant.initial :
    PartialInvariant O broken message ⟨⟨fun _ => none, [], [], []⟩, fun _ => false⟩ where
  base := Invariant.initial
  progress_served id j h := by simp at h
  progress_unbroken id j h := by simp at h
  sent_served := by simp
  stopped_broken id h := by simp at h

/-- One loop has advanced. -/
theorem progress_cases {state state' : State β} {id v : ℤ} {j k : ℕ}
    (h : state'.progress = Function.update state.progress id (some k))
    (hv : state'.progress v = some j) : v = id ∧ j = k ∨ state.progress v = some j := by
  rw [h] at hv
  by_cases hvid : v = id
  · rw [hvid, Function.update_self] at hv
    exact .inl ⟨hvid, (Option.some.inj hv).symm⟩
  · rw [Function.update_of_ne hvid] at hv
    exact .inr hv

theorem progress_of_ne {state state' : State β} {id v : ℤ} {k : ℕ}
    (h : state'.progress = Function.update state.progress id (some k)) (hvid : v ≠ id) :
    state'.progress v = state.progress v := by
  rw [h, Function.update_of_ne hvid]

/-- A vertex that holds the message is served. -/
theorem PartialInvariant.served_of_held (h : PartialInvariant O broken message s) {id : ℤ}
    (hheld : (s.state.held message id).isSome) : O.Served broken id := by
  rw [State.held] at hheld
  by_cases hroot : id = 0
  · rw [hroot]
    exact .root
  · rw [if_neg hroot] at hheld
    obtain ⟨buffer, hbuffer⟩ := Option.isSome_iff_exists.mp hheld
    obtain ⟨delivery, hdelivery, _⟩ := List.mem_map.mp (List.mem_of_mem_head? hbuffer)
    obtain ⟨hmem, hid⟩ := List.mem_filter.mp hdelivery
    have hserved := h.sent_served delivery (h.base.delivered_message delivery hmem)
    rwa [of_decide_eq_true hid] at hserved

theorem PartialInvariant.start (h : PartialInvariant O broken message s) {id : ℤ}
    {state : State β} (hstep : O.start message s.state id = some state) :
    PartialInvariant O broken message { s with state } := by
  have hbase := h.base.start hstep
  unfold Overlay.start at hstep
  split at hstep
  case isFalse => exact absurd hstep (by simp)
  case isTrue hguard =>
    obtain ⟨_, _, hnone, hheld⟩ := hguard
    obtain rfl := Option.some.inj hstep
    refine ⟨hbase, ?_, ?_, h.sent_served, ?_⟩
    · intro v j hv
      rcases progress_cases rfl hv with ⟨rfl, _⟩ | hv
      · exact h.served_of_held hheld
      · exact h.progress_served v j hv
    · intro v j hv
      rcases progress_cases rfl hv with ⟨rfl, rfl⟩ | hv
      · intro i hi
        exact absurd hi (Nat.not_lt_zero i)
      · exact h.progress_unbroken v j hv
    · intro v hv
      obtain ⟨j, connection, hj, hrest⟩ := h.stopped_broken v hv
      have hvid : v ≠ id := by
        rintro rfl
        rw [hnone] at hj
        exact absurd hj (by simp)
      exact ⟨j, connection, (progress_of_ne rfl hvid).trans hj, hrest⟩

/-- A vertex stops. -/
theorem PartialInvariant.stop (h : PartialInvariant O broken message s) {id : ℤ} {index : ℕ}
    {connection : ℤ} (hindex : s.state.progress id = some index)
    (hconnection : (O.vertex id).nextSend index = some connection)
    (hbroken : broken id connection = true) :
    PartialInvariant O broken message
      { s with stopped := Function.update s.stopped id true } := by
  refine ⟨h.base, h.progress_served, h.progress_unbroken, h.sent_served, ?_⟩
  intro v hv
  by_cases hvid : v = id
  · rw [hvid]
    exact ⟨index, connection, hindex, hconnection, hbroken⟩
  · have hbefore : s.stopped v = true := (Function.update_of_ne hvid true s.stopped).symm.trans hv
    exact h.stopped_broken v hbefore

/-- The loop has come to an index whose connection works. -/
theorem PartialInvariant.unbroken (h : PartialInvariant O broken message s) {id : ℤ} {index : ℕ}
    {connection : ℤ} (hindex : s.state.progress id = some index)
    (hconnection : (O.vertex id).nextSend index = some connection)
    (hworks : broken id connection = false) : O.Unbroken broken id index := by
  intro i hi other hother
  rcases Nat.lt_or_eq_of_le hi with hlt | rfl
  · exact h.progress_unbroken id index hindex i hlt i (le_refl i) other hother
  · rw [TbonVertex.connection_of_nextSend hconnection] at hother
    rwa [← Option.some.inj hother]

theorem PartialInvariant.send (h : PartialInvariant O broken message s) {id : ℤ} {index : ℕ}
    {connection : ℤ} {state : State β} (hindex : s.state.progress id = some index)
    (hconnection : (O.vertex id).nextSend index = some connection)
    (hrunning : s.stopped id = false) (hworks : broken id connection = false)
    (hstep : O.send message s.state id = some state) :
    PartialInvariant O broken message { s with state } := by
  have hbase := h.base.send hstep
  have hunbroken := h.unbroken hindex hconnection hworks
  obtain ⟨index', buffer, connection', hindex', hconnection', rfl⟩ := Overlay.send_cases hstep
  obtain rfl := Option.some.inj (hindex.symm.trans hindex')
  obtain rfl := Option.some.inj (hconnection.symm.trans hconnection')
  have hserved := h.progress_served id index hindex
  refine ⟨hbase, ?_, ?_, ?_, ?_⟩
  · intro v j hv
    rcases progress_cases rfl hv with ⟨rfl, _⟩ | hv
    · exact hserved
    · exact h.progress_served v j hv
  · intro v j hv
    rcases progress_cases rfl hv with ⟨rfl, rfl⟩ | hv
    · intro i hi k hk
      exact hunbroken k (by omega)
    · exact h.progress_unbroken v j hv
  · intro delivery hmem
    rcases List.mem_append.mp hmem with hmem | hmem
    · exact h.sent_served delivery hmem
    · obtain rfl := List.mem_singleton.mp hmem
      obtain ⟨hid, hlt⟩ := hserved.range
      obtain ⟨hdegree, htarget, hpeer⟩ := O.nextSend_some hid hlt hconnection
      have hmul := (O.size.child_le hid hlt).1
      have hchild := O.childrenIds_getElem? hid hlt hdegree
      rw [childOf, if_neg (by omega), ← hpeer] at hchild
      exact .child hserved hchild (by omega) hunbroken
  · intro v hv
    have hvid : v ≠ id := by
      rintro rfl
      rw [hrunning] at hv
      exact absurd hv (by simp)
    obtain ⟨j, other, hj, hrest⟩ := h.stopped_broken v hv
    exact ⟨j, other, (progress_of_ne rfl hvid).trans hj, hrest⟩

theorem PartialInvariant.deliver (h : PartialInvariant O broken message s) {position : ℕ}
    {state : State β} (hstep : Tbon.deliver s.state position = some state) :
    PartialInvariant O broken message { s with state } := by
  have hbase := h.base.deliver hstep
  obtain ⟨delivery, _, hstep⟩ := Option.bind_eq_some_iff.mp hstep
  obtain rfl := Option.some.inj hstep
  exact ⟨hbase, h.progress_served, h.progress_unbroken, h.sent_served, h.stopped_broken⟩

theorem PartialInvariant.step (h : PartialInvariant O broken message s) {a : Action}
    (hstep : (O.partialBroadcast broken message).step s a = some t) :
    PartialInvariant O broken message t := by
  cases a with
  | start id =>
      obtain ⟨state, hstate, rfl⟩ := Option.map_eq_some_iff.mp hstep
      exact h.start hstate
  | send id =>
      obtain ⟨index, connection, hindex, hconnection, hrunning, hcase⟩ :=
        Overlay.sendOrStop_cases hstep
      rcases hcase with ⟨hbroken, rfl⟩ | ⟨hworks, state, hstate, rfl⟩
      · exact h.stop hindex hconnection hbroken
      · exact h.send hindex hconnection hrunning hworks hstate
  | deliver position =>
      obtain ⟨state, hstate, rfl⟩ := Option.map_eq_some_iff.mp hstep
      exact h.deliver hstate

theorem PartialInvariant.of_reachable (h : (O.partialBroadcast broken message).Reachable s) :
    PartialInvariant O broken message s := by
  apply h.invariant (I := PartialInvariant O broken message)
  · intro s hs
    rw [hs]
    exact PartialInvariant.initial
  · intro s a t h hstep
    exact h.step hstep

/-! ## Every run ends -/

/-- The number of vertices with a property. -/
def countWhere (O : Overlay) (p : ℤ → Bool) : ℕ :=
  ((Finset.range O.total.toNat).filter fun id : ℕ => p id).card

def waiting (O : Overlay) (state : State β) : ℕ := countWhere O fun id => (state.progress id).isNone

def running (O : Overlay) (s : PartialState β) : ℕ := countWhere O fun id => !s.stopped id

/-- A buffer that is still to be sent is counted twice, since it is also to be delivered. -/
def stepsLeft (O : Overlay) (s : PartialState β) : ℕ :=
  waiting O s.state + running O s + 2 * (O.total.toNat - s.state.sent.length) +
    s.state.inFlight.length

theorem countWhere_le (p : ℤ → Bool) : countWhere O p ≤ O.total.toNat := by
  have hle := Finset.card_filter_le (Finset.range O.total.toNat) fun id : ℕ => p id
  rwa [Finset.card_range] at hle

/-- One vertex loses the property. -/
theorem countWhere_lt {p q : ℤ → Bool} {id : ℤ} (hid : 0 ≤ id) (hlt : id < O.total)
    (hp : p id = true) (hq : q id = false) (hrest : ∀ v, v ≠ id → q v = p v) :
    countWhere O q < countWhere O p := by
  have hcast : (id.toNat : ℤ) = id := Int.toNat_of_nonneg hid
  apply Finset.card_lt_card
  rw [Finset.ssubset_iff_of_subset]
  · refine ⟨id.toNat, ?_, ?_⟩
    · rw [Finset.mem_filter, Finset.mem_range, hcast]
      exact ⟨by omega, hp⟩
    · rw [Finset.mem_filter, hcast, hq]
      simp
  · intro v hv
    rw [Finset.mem_filter] at hv ⊢
    have hvid : (v : ℤ) ≠ id := by
      intro heq
      rw [heq, hq] at hv
      exact absurd hv.2 (by simp)
    exact ⟨hv.1, by rw [← hrest v hvid]; exact hv.2⟩

/-- A vertex that is in its loop stays there. -/
theorem waiting_update {state state' : State β} {id : ℤ} {j k : ℕ}
    (hj : state.progress id = some j)
    (h : state'.progress = Function.update state.progress id (some k)) :
    waiting O state' = waiting O state := by
  rw [waiting, waiting]
  congr 1
  funext v
  by_cases hvid : v = id
  · rw [h, hvid, Function.update_self, hj]
    rfl
  · rw [progress_of_ne h hvid]

theorem waiting_lt {state state' : State β} {id : ℤ} {k : ℕ} (hid : 0 ≤ id) (hlt : id < O.total)
    (hnone : state.progress id = none)
    (h : state'.progress = Function.update state.progress id (some k)) :
    waiting O state' < waiting O state := by
  apply countWhere_lt hid hlt
  · rw [hnone]
    rfl
  · rw [h, Function.update_self]
    rfl
  · intro v hvid
    rw [progress_of_ne h hvid]

theorem running_lt {id : ℤ} (hid : 0 ≤ id) (hlt : id < O.total) (hrunning : s.stopped id = false)
    (h : t.stopped = Function.update s.stopped id true) : running O t < running O s := by
  apply countWhere_lt hid hlt
  · rw [hrunning]
    rfl
  · rw [h, Function.update_self]
    rfl
  · intro v hvid
    rw [h, Function.update_of_ne hvid]

theorem Invariant.length_sent_lt {state : State β} (h : Invariant O message state) :
    state.sent.length < O.total.toNat := by
  have hsubset : (state.sent.map Prod.fst).toFinset ⊆
      (Finset.range (O.total - 1).toNat).image fun c : ℕ => (c : ℤ) + 1 := by
    intro c hc
    rw [List.mem_toFinset] at hc
    obtain ⟨delivery, hmem, rfl⟩ := List.mem_map.mp hc
    obtain ⟨hlow, hhigh⟩ := h.sent_range delivery hmem
    rw [Finset.mem_image]
    exact ⟨(delivery.1 - 1).toNat, by rw [Finset.mem_range]; omega, by omega⟩
  have hcard := (Finset.card_le_card hsubset).trans Finset.card_image_le
  rw [List.toFinset_card_of_nodup h.sent_nodup, List.length_map, Finset.card_range] at hcard
  have hpos := O.total_pos
  omega

/-- Every step leaves fewer of them. -/
theorem PartialInvariant.stepsLeft_lt (h : PartialInvariant O broken message s) {a : Action}
    (hstep : (O.partialBroadcast broken message).step s a = some t) :
    stepsLeft O t < stepsLeft O s := by
  have hnext := h.step hstep
  cases a with
  | start id =>
      obtain ⟨state, hstate, rfl⟩ := Option.map_eq_some_iff.mp hstep
      unfold Overlay.start at hstate
      split at hstate
      case isFalse => exact absurd hstate (by simp)
      case isTrue hguard =>
        obtain ⟨hid, hlt, hnone, _⟩ := hguard
        obtain rfl := Option.some.inj hstate
        have hwaiting := @waiting_lt β O _ { s.state with
          progress := Function.update s.state.progress id (some 0) } id 0 hid hlt hnone rfl
        rw [stepsLeft, stepsLeft]
        exact Nat.add_lt_add_right (Nat.add_lt_add_right (Nat.add_lt_add_right hwaiting _) _) _
  | send id =>
      obtain ⟨index, connection, hindex, _, hrunning, hcase⟩ := Overlay.sendOrStop_cases hstep
      rcases hcase with ⟨_, rfl⟩ | ⟨_, state, hstate, rfl⟩
      · obtain ⟨hid, hlt⟩ := h.base.progress_range id index hindex
        have hcard := @running_lt β O s { s with
          stopped := Function.update s.stopped id true } id hid hlt hrunning rfl
        rw [stepsLeft, stepsLeft]
        exact Nat.add_lt_add_right (Nat.add_lt_add_right (Nat.add_lt_add_left hcard _) _) _
      · have hlength := hnext.base.length_sent_lt
        obtain ⟨index', buffer, connection', hindex', _, rfl⟩ := Overlay.send_cases hstate
        have hwaiting := @waiting_update β O _ { s.state with
            progress := Function.update s.state.progress id (some (index' + 1))
            inFlight := s.state.inFlight ++ [(O.peer id connection', buffer)]
            sent := s.state.sent ++ [(O.peer id connection', buffer)] } id _ _ hindex' rfl
        have hsame : running O { s with state := { s.state with
            progress := Function.update s.state.progress id (some (index' + 1))
            inFlight := s.state.inFlight ++ [(O.peer id connection', buffer)]
            sent := s.state.sent ++ [(O.peer id connection', buffer)] } } = running O s := rfl
        rw [stepsLeft, stepsLeft, hsame, hwaiting]
        simp only [List.length_append, List.length_singleton] at hlength ⊢
        omega
  | deliver position =>
      obtain ⟨state, hstate, rfl⟩ := Option.map_eq_some_iff.mp hstep
      obtain ⟨delivery, hget, hstate⟩ := Option.bind_eq_some_iff.mp hstate
      obtain rfl := Option.some.inj hstate
      obtain ⟨hlt, _⟩ := List.getElem?_eq_some_iff.mp hget
      rw [stepsLeft, stepsLeft]
      apply Nat.add_lt_add_left
      dsimp only
      rw [List.length_eraseIdx_of_lt hlt]
      omega

theorem stepsLeft_le (h : PartialInvariant O broken message s) :
    stepsLeft O s ≤ 4 * O.total.toNat := by
  have hwaiting := countWhere_le (O := O) fun id => (s.state.progress id).isNone
  have hrunning := countWhere_le (O := O) fun id => !s.stopped id
  have hflight := h.base.sent_perm.length_eq
  have hlength := h.base.length_sent_lt
  rw [List.length_append] at hflight
  rw [stepsLeft, waiting, running]
  omega

/-! ## Every served vertex receives -/

/-- Nothing is left to do. -/
abbrev PartialFinal (O : Overlay) (broken : ℤ → ℤ → Bool) (message : β) : PartialState β → Prop :=
  (O.partialBroadcast broken message).Final

theorem PartialFinal.inFlight_eq (hfinal : PartialFinal O broken message s) :
    s.state.inFlight = [] := by
  cases hflight : s.state.inFlight with
  | nil => rfl
  | cons delivery rest =>
      have hnone := hfinal (.deliver 0)
      simp [Overlay.partialBroadcast, Tbon.deliver, hflight] at hnone

/-- A vertex that holds the message has started to forward it. -/
theorem PartialFinal.started (hfinal : PartialFinal O broken message s) {id : ℤ} (hid : 0 ≤ id)
    (hlt : id < O.total) (hheld : (s.state.held message id).isSome) :
    ∃ j, s.state.progress id = some j := by
  cases hprogress : s.state.progress id with
  | none =>
      have hnone := hfinal (.start id)
      simp [Overlay.partialBroadcast, Overlay.start, hid, hlt, hprogress, hheld] at hnone
  | some j => exact ⟨j, rfl⟩

/-- A vertex that has neither stopped nor come to the end of its loop could send. -/
theorem PartialFinal.ended (hfinal : PartialFinal O broken message s) {id : ℤ} {j : ℕ}
    (hprogress : s.state.progress id = some j) (hheld : s.state.held message id = some message)
    (hrunning : s.stopped id = false) : (O.vertex id).nextSend j = none := by
  cases hsend : (O.vertex id).nextSend j with
  | none => rfl
  | some connection =>
      have hnone := hfinal (.send id)
      cases hbroken : broken id connection with
      | true =>
          simp [Overlay.partialBroadcast, Overlay.sendOrStop, hprogress, hsend, hrunning,
            hbroken] at hnone
      | false =>
          simp [Overlay.partialBroadcast, Overlay.sendOrStop, Overlay.send, hprogress, hheld,
            hsend, hrunning, hbroken] at hnone

/-- When every vertex that holds the message has stopped or is at the end of its loop, and all
buffers are delivered, nothing is left to do. -/
theorem PartialInvariant.final (h : PartialInvariant O broken message s)
    (hflight : s.state.inFlight = [])
    (hended : ∀ id, 0 ≤ id → id < O.total →
      (s.state.progress id = none ∧ s.state.held message id = none) ∨
        ∃ j, s.state.progress id = some j ∧
          (s.stopped id = true ∨ (O.vertex id).nextSend j = none)) :
    PartialFinal O broken message s := by
  intro a
  cases a with
  | start id =>
      apply Option.map_eq_none_iff.mpr
      apply if_neg
      rintro ⟨hid, hlt, hnone, hheld⟩
      rcases hended id hid hlt with ⟨_, hempty⟩ | ⟨j, hj, _⟩
      · rw [hempty] at hheld
        exact absurd hheld (by simp)
      · rw [hnone] at hj
        exact absurd hj (by simp)
  | send id =>
      change O.sendOrStop broken message s id = none
      rw [Overlay.sendOrStop]
      cases hprogress : s.state.progress id with
      | none => rfl
      | some k =>
          obtain ⟨hid, hlt⟩ := h.base.progress_range id k hprogress
          rcases hended id hid hlt with ⟨hnone, _⟩ | ⟨j, hj, hend⟩
          · rw [hprogress] at hnone
            exact absurd hnone (by simp)
          · obtain rfl := Option.some.inj (hprogress.symm.trans hj)
            rcases hend with hstopped | hnone
            · simp [hstopped]
            · simp [hnone]
  | deliver position =>
      apply Option.map_eq_none_iff.mpr
      simp [Tbon.deliver, hflight]

/-- What has been sent has arrived. -/
theorem PartialInvariant.received_of_passed (h : PartialInvariant O broken message s)
    (hfinal : PartialFinal O broken message s) {c : ℤ} (hpassed : Passed O s.state c) :
    s.state.received c = [message] := by
  have hsent := (h.base.mem_sent c).mpr hpassed
  have hperm := h.base.sent_perm
  rw [hfinal.inFlight_eq, List.nil_append] at hperm
  obtain ⟨delivery, hmem, rfl⟩ := List.mem_map.mp ((hperm.map Prod.fst).subset hsent)
  have hreceived : delivery.2 ∈ s.state.received delivery.1 :=
    List.mem_map_of_mem (List.mem_filter.mpr ⟨hmem, by simp⟩)
  rcases h.base.received_eq delivery.1 with hnil | hone
  · rw [hnil] at hreceived
    exact absurd hreceived List.not_mem_nil
  · exact hone

/-- A loop that has ended, or has stopped behind a child, has passed the child. -/
theorem PartialInvariant.passed (h : PartialInvariant O broken message s)
    (hfinal : PartialFinal O broken message s) {p c : ℤ} {j : ℕ} (hp : O.Served broken p)
    (hheld : s.state.held message p = some message)
    (hchild : (O.vertex p).childrenIds[j]? = some c) (hne : c ≠ -1)
    (hunbroken : O.Unbroken broken p j) : Passed O s.state c := by
  obtain ⟨hid, hlt⟩ := hp.range
  obtain ⟨hpos, hclt, hparent, hindex⟩ := O.child_at hid hlt hchild hne
  obtain ⟨k, hk⟩ := hfinal.started hid hlt (by rw [hheld]; rfl)
  rw [passed_of_progress (by rw [hparent, hk]), hparent]
  refine ⟨hpos, hclt, ?_⟩
  cases hstopped : s.stopped p with
  | true =>
      obtain ⟨stop, connection, hstop, hconnection, hbroken⟩ := h.stopped_broken p hstopped
      obtain rfl := Option.some.inj (hk.symm.trans hstop)
      by_contra hbehind
      have hworks := hunbroken k (by omega) connection
        (TbonVertex.connection_of_nextSend hconnection)
      rw [hworks] at hbroken
      exact absurd hbroken (by simp)
  | false =>
      have hend := O.nextSend_none hid hlt (hfinal.ended hk hheld hstopped)
      have hbounds := child_bounds O.degree_pos hpos hclt
      rw [hparent] at hbounds
      omega

/-- In a final state the served vertices hold the message. -/
theorem PartialInvariant.held_of_served (h : PartialInvariant O broken message s)
    (hfinal : PartialFinal O broken message s) {c : ℤ} (hserved : O.Served broken c) :
    s.state.held message c = some message := by
  induction hserved with
  | root => exact if_pos rfl
  | child hp hchild hne hunbroken ih =>
      obtain ⟨hid, hlt⟩ := hp.range
      obtain ⟨hpos, _⟩ := O.child_at hid hlt hchild hne
      have hreceived := h.received_of_passed hfinal
        (h.passed hfinal hp ih hchild hne hunbroken)
      rw [State.held, if_neg (by omega), hreceived]
      rfl

/-- A vertex that has received the message is served, and has received it once. -/
theorem PartialInvariant.received_eq (h : PartialInvariant O broken message s) (id : ℤ) :
    s.state.received id = [] ∨
      1 ≤ id ∧ O.Served broken id ∧ s.state.received id = [message] := by
  rcases h.base.received_eq id with hnil | hone
  · exact .inl hnil
  · right
    have hmem : message ∈ s.state.received id := by
      rw [hone]
      exact List.mem_singleton_self message
    obtain ⟨delivery, hdelivery, _⟩ := List.mem_map.mp hmem
    obtain ⟨hdelivered, hid⟩ := List.mem_filter.mp hdelivery
    have hsent := h.base.delivered_message delivery hdelivered
    rw [← of_decide_eq_true hid] at hone ⊢
    exact ⟨(h.base.sent_range delivery hsent).1, h.sent_served delivery hsent, hone⟩

/-- In a final state exactly the served vertices have received it. -/
theorem PartialInvariant.received_iff (h : PartialInvariant O broken message s)
    (hfinal : PartialFinal O broken message s) {id : ℤ} (hid : 1 ≤ id) :
    s.state.received id = [message] ↔ O.Served broken id := by
  constructor
  · intro hone
    rcases h.received_eq id with hnil | ⟨_, hserved, _⟩
    · rw [hnil] at hone
      exact absurd hone (by simp)
    · exact hserved
  · intro hserved
    have hheld := h.held_of_served hfinal hserved
    rw [State.held, if_neg (by omega)] at hheld
    rcases h.received_eq id with hnil | ⟨_, _, hone⟩
    · rw [hnil] at hheld
      exact absurd hheld (by simp)
    · exact hone

/-- A broadcast can always be brought to its end. -/
theorem PartialInvariant.exists_run_final (h : PartialInvariant O broken message s) :
    ∃ as t, (O.partialBroadcast broken message).run s as = some t ∧
      PartialFinal O broken message t := by
  apply System.exists_run_final (I := PartialInvariant O broken message)
  · intro s a t h hstep
    exact h.step hstep
  · intro s a t h hstep
    exact h.stepsLeft_lt hstep
  · exact h

/-- A run takes at most four steps for each vertex. -/
theorem PartialInvariant.length_le (h : PartialInvariant O broken message s) {as : List Action}
    (hrun : (O.partialBroadcast broken message).run s as = some t) :
    as.length ≤ 4 * O.total.toNat := by
  have hlower : ∀ s a t, PartialInvariant O broken message s →
      (O.partialBroadcast broken message).step s a = some t → stepsLeft O t < stepsLeft O s := by
    intro s a t h hstep
    exact h.stepsLeft_lt hstep
  have hlength := System.length_le_of_run (fun _ _ _ h hstep => h.step hstep) hlower h hrun
  have hbound := stepsLeft_le h
  omega

/-- A broadcast with broken connections delivers the message to no vertex twice and to no vertex
that a broken connection cuts off. It takes at most four steps for each vertex and can always be
brought to its end, where all other vertices but the root have received the message. -/
theorem tbon_partial_broadcast (O : Overlay) (broken : ℤ → ℤ → Bool) (message : β)
    (s : PartialState β) (hreach : (O.partialBroadcast broken message).Reachable s) :
    (∀ id, s.state.received id = [] ∨
      1 ≤ id ∧ O.Served broken id ∧ s.state.received id = [message]) ∧
      (∀ as t, (O.partialBroadcast broken message).run s as = some t →
        as.length ≤ 4 * O.total.toNat) ∧
      (∃ as t, (O.partialBroadcast broken message).run s as = some t ∧
        PartialFinal O broken message t) ∧
      (PartialFinal O broken message s →
        ∀ id, 1 ≤ id → (s.state.received id = [message] ↔ O.Served broken id)) := by
  have h := PartialInvariant.of_reachable hreach
  refine ⟨h.received_eq, ?_, h.exists_run_final, ?_⟩
  · intro as t hrun
    exact h.length_le hrun
  · intro hfinal id hid
    exact h.received_iff hfinal hid

/-- The connection of the root to its second child is broken. -/
def sampleBroken (id connection : ℤ) : Bool := decide (id = 0 ∧ connection = 1)

/-- The root sends to its first child and stops. -/
def samplePartialRun : List Action := [.start 0, .send 0, .send 0, .deliver 0, .start 1]

/-- The second child has received nothing, and never will. -/
theorem samplePartialRun_ends :
    ∃ s, (sampleOverlay.partialBroadcast sampleBroken true).run
        ⟨⟨fun _ => none, [], [], []⟩, fun _ => false⟩ samplePartialRun = some s ∧
      PartialFinal sampleOverlay sampleBroken true s ∧
      s.state.received 1 = [true] ∧ s.state.received 2 = [] := by
  have hrun : ((sampleOverlay.partialBroadcast sampleBroken true).run
      ⟨⟨fun _ => none, [], [], []⟩, fun _ => false⟩ samplePartialRun).map
      (fun s => (s.state.inFlight, s.state.received 1, s.state.received 2)) =
        some ([], [true], []) := by decide
  have hrun' : ((sampleOverlay.partialBroadcast sampleBroken true).run
      ⟨⟨fun _ => none, [], [], []⟩, fun _ => false⟩ samplePartialRun).map
      (fun s => (s.state.progress 0, s.stopped 0, s.state.progress 1, s.state.progress 2)) =
        some (some 1, true, some 0, none) := by decide
  obtain ⟨s, hs, hvalue⟩ := Option.map_eq_some_iff.mp hrun
  rw [hs, Option.map_some, Option.some.injEq] at hrun'
  simp only [Prod.mk.injEq] at hvalue hrun'
  obtain ⟨hflight, hfirst, hsecond⟩ := hvalue
  obtain ⟨hroot, hstopped, hleft, hright⟩ := hrun'
  have h := PartialInvariant.of_reachable ((System.Reachable.initial rfl).run hs)
  refine ⟨s, hs, h.final hflight ?_, hfirst, hsecond⟩
  intro id hid hlt
  have hlt' : id < 3 := hlt
  obtain rfl | rfl | rfl : id = 0 ∨ id = 1 ∨ id = 2 := by omega
  · exact Or.inr ⟨1, hroot, Or.inl hstopped⟩
  · exact Or.inr ⟨0, hleft, Or.inr (by decide)⟩
  · refine Or.inl ⟨hright, ?_⟩
    rw [State.held, hsecond]
    rfl

theorem samplePartialRun_broadcast :
    ∃ s, (sampleOverlay.partialBroadcast sampleBroken true).run
        ⟨⟨fun _ => none, [], [], []⟩, fun _ => false⟩ samplePartialRun = some s ∧
      PartialFinal sampleOverlay sampleBroken true s ∧
      s.state.received 1 = [true] ∧ sampleOverlay.Served sampleBroken 1 ∧
      s.state.received 2 = [] ∧ ¬sampleOverlay.Served sampleBroken 2 := by
  obtain ⟨s, hs, hfinal, hfirst, hsecond⟩ := samplePartialRun_ends
  have hserved := (tbon_partial_broadcast sampleOverlay sampleBroken true s
    ((System.Reachable.initial rfl).run hs)).2.2.2 hfinal
  refine ⟨s, hs, hfinal, hfirst, (hserved 1 (le_refl 1)).mp hfirst, hsecond, ?_⟩
  intro hserved'
  have hreceived := (hserved 2 (by decide)).mpr hserved'
  rw [hsecond] at hreceived
  exact absurd hreceived (by simp)

end Dynpm.Tbon
