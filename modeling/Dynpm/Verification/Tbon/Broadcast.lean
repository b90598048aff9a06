import Dynpm.Verification.Tbon.Edges
import Mathlib.Data.List.Perm.Basic

/-! # A broadcast reaches every vertex once

A vertex sends to its children in the order of their ids. At any time the buffers sent are
therefore those for the children that the loops of their parents have passed, one for each, and
each of them is in flight or has been delivered.
-/

namespace Dynpm.Tbon

open Library

variable {β : Type}

/-! ## The forwarding loop -/

theorem Overlay.size (O : Overlay) : Size O.degree O.total :=
  ⟨O.degree_pos, O.total_pos, O.size_le⟩

theorem Overlay.childrenIds_eq (O : Overlay) {id : ℤ} (hid : 0 ≤ id) (hlt : id < O.total) :
    (O.vertex id).childrenIds = childrenOf O.degree O.total id := by
  obtain ⟨parent, hedges⟩ := O.edges_eq id hid hlt
  rw [O.size.computeLocalTbonEdges_eq hid hlt] at hedges
  exact (Prod.mk.inj (Except.ok.inj hedges)).2.symm

theorem Overlay.childrenIds_getElem? (O : Overlay) {id : ℤ} (hid : 0 ≤ id) (hlt : id < O.total)
    {j : ℕ} (hj : (j : ℤ) < O.degree) :
    (O.vertex id).childrenIds[j]? = some (childOf O.degree O.total id j) := by
  have hrange : j < O.degree.toNat := by omega
  rw [O.childrenIds_eq hid hlt, childrenOf, List.getElem?_map, List.getElem?_range hrange]
  rfl

/-- A send goes to the child at the index of the loop. -/
theorem Overlay.nextSend_some (O : Overlay) {id : ℤ} (hid : 0 ≤ id) (hlt : id < O.total) {j : ℕ}
    {connection : ℤ} (h : (O.vertex id).nextSend j = some connection) :
    (j : ℤ) < O.degree ∧ O.degree * id + j + 1 < O.total ∧
      O.peer id connection = O.degree * id + j + 1 := by
  unfold TbonVertex.nextSend at h
  split at h
  case isFalse => exact absurd h (by simp)
  case isTrue hguard =>
    rw [O.degree_eq id hid hlt] at hguard
    have hchild := O.childrenIds_getElem? hid hlt hguard.1
    have hne : childOf O.degree O.total id j ≠ -1 := by
      intro heq
      exact hguard.2 (by rw [hchild, heq])
    obtain ⟨index, hindex, hpeer⟩ := O.connected id hid hlt j _ hchild hne
    obtain rfl := Option.some.inj (h.symm.trans hindex)
    unfold childOf at hne hpeer
    split at hne
    · exact absurd rfl hne
    · next hin =>
        rw [if_neg hin] at hpeer
        exact ⟨hguard.1, by omega, hpeer⟩

/-- The loop ends behind the last child. -/
theorem Overlay.nextSend_none (O : Overlay) {id : ℤ} (hid : 0 ≤ id) (hlt : id < O.total) {j : ℕ}
    (h : (O.vertex id).nextSend j = none) :
    O.degree ≤ j ∨ O.total ≤ O.degree * id + j + 1 := by
  by_contra hcond
  rw [not_or, Int.not_le, Int.not_le] at hcond
  have hchild := O.childrenIds_getElem? hid hlt hcond.1
  have hvalue : childOf O.degree O.total id j = O.degree * id + j + 1 := if_neg (by omega)
  have hmul := (O.size.child_le hid hlt).1
  have hne : childOf O.degree O.total id j ≠ -1 := by omega
  obtain ⟨index, hindex, _⟩ := O.connected id hid hlt j _ hchild hne
  unfold TbonVertex.nextSend at h
  rw [O.degree_eq id hid hlt, hchild, if_pos ⟨hcond.1, by simpa using hne⟩, hindex] at h
  exact absurd h (by simp)

/-! ## The invariant -/

/-- The loop of the parent of `c` has passed `c`. -/
def Passed (O : Overlay) (s : State β) (c : ℤ) : Prop :=
  1 ≤ c ∧ c < O.total ∧ ∃ j, s.progress (parentOf O.degree c) = some j ∧
    c ≤ O.degree * parentOf O.degree c + j

structure Invariant (O : Overlay) (message : β) (s : State β) : Prop where
  progress_range : ∀ id j, s.progress id = some j → 0 ≤ id ∧ id < O.total
  mem_sent : ∀ c, c ∈ s.sent.map Prod.fst ↔ Passed O s c
  sent_nodup : (s.sent.map Prod.fst).Nodup
  sent_message : ∀ delivery ∈ s.sent, delivery.2 = message
  sent_perm : s.sent.Perm (s.inFlight ++ s.delivered)

variable {O : Overlay} {message : β} {s t : State β}

/-- The ids of the children of a vertex are consecutive. -/
theorem child_bounds (hdegree : 1 ≤ O.degree) {c : ℤ} (hc : 1 ≤ c) (hlt : c < O.total) :
    O.degree * parentOf O.degree c + 1 ≤ c ∧
      c ≤ O.degree * parentOf O.degree c + O.degree := by
  have hbounds := parentOf_bounds hdegree hc
  have hmem := (mem_childrenIdsOf_iff_parentOf hdegree hbounds.1 hlt).mpr ⟨by omega, rfl⟩
  obtain ⟨hlow, hhigh, _⟩ := mem_childrenIdsOf.mp hmem
  exact ⟨hlow, hhigh⟩

theorem parentOf_child (hdegree : 1 ≤ O.degree) {id : ℤ} (hid : 0 ≤ id) {j : ℕ}
    (hj : (j : ℤ) < O.degree) (hlt : O.degree * id + j + 1 < O.total) :
    parentOf O.degree (O.degree * id + j + 1) = id := by
  have hmem : O.degree * id + j + 1 ∈ childrenIdsOf O.degree O.total id :=
    mem_childrenIdsOf.mpr ⟨by omega, by omega, hlt⟩
  exact ((mem_childrenIdsOf_iff_parentOf hdegree hid hlt).mp hmem).2

theorem Invariant.initial : Invariant O message ⟨fun _ => none, [], [], []⟩ where
  progress_range id j h := by simp at h
  mem_sent c := by simp [Passed]
  sent_nodup := List.nodup_nil
  sent_message := by simp
  sent_perm := List.Perm.refl _

/-- A vertex enters its loop or advances in it. -/
theorem Invariant.range_update (h : Invariant O message s) {id : ℤ} {k : ℕ} (hid : 0 ≤ id)
    (hlt : id < O.total) (ht : t.progress = Function.update s.progress id (some k)) :
    ∀ v j, t.progress v = some j → 0 ≤ v ∧ v < O.total := by
  intro v j hv
  rw [ht] at hv
  by_cases hvid : v = id
  · exact hvid ▸ ⟨hid, hlt⟩
  · rw [Function.update_of_ne hvid] at hv
    exact h.progress_range v j hv

theorem passed_of_progress {c : ℤ} {j : ℕ} (h : s.progress (parentOf O.degree c) = some j) :
    Passed O s c ↔ 1 ≤ c ∧ c < O.total ∧ c ≤ O.degree * parentOf O.degree c + j := by
  simp [Passed, h]

theorem passed_update_of_ne {c id : ℤ} {k : ℕ}
    (ht : t.progress = Function.update s.progress id (some k)) (hne : parentOf O.degree c ≠ id) :
    Passed O t c ↔ Passed O s c := by
  rw [Passed, Passed, ht, Function.update_of_ne hne]

theorem passed_update_self {c id : ℤ} {k : ℕ}
    (ht : t.progress = Function.update s.progress id (some k)) (heq : parentOf O.degree c = id) :
    Passed O t c ↔ 1 ≤ c ∧ c < O.total ∧ c ≤ O.degree * id + k := by
  rw [passed_of_progress (j := k) (by rw [ht, heq, Function.update_self]), heq]

/-- What a vertex holds is the message. -/
theorem Invariant.held_eq (h : Invariant O message s) {id : ℤ} {buffer : β}
    (hheld : s.held message id = some buffer) : buffer = message := by
  unfold State.held at hheld
  split at hheld
  · exact (Option.some.inj hheld).symm
  · have hmem := List.mem_of_mem_head? hheld
    obtain ⟨delivery, hdelivery, rfl⟩ := List.mem_map.mp hmem
    apply h.sent_message delivery
    exact h.sent_perm.symm.subset (List.mem_append_right _ (List.mem_of_mem_filter hdelivery))

theorem Invariant.start (h : Invariant O message s) {id : ℤ}
    (hstep : O.start message s id = some t) : Invariant O message t := by
  unfold Overlay.start at hstep
  split at hstep
  case isFalse => exact absurd hstep (by simp)
  case isTrue hguard =>
    obtain ⟨hid, hlt, hnone, _⟩ := hguard
    obtain rfl := Option.some.inj hstep
    refine ⟨h.range_update hid hlt rfl, ?_, h.sent_nodup, h.sent_message, h.sent_perm⟩
    intro c
    rw [h.mem_sent c]
    by_cases hparent : parentOf O.degree c = id
    · -- the loop is before all children of `id`
      refine Iff.trans ?_ (passed_update_self rfl hparent).symm
      constructor
      · rintro ⟨_, _, j, hj, _⟩
        rw [hparent, hnone] at hj
        exact absurd hj (by simp)
      · rintro ⟨hc, hclt, hle⟩
        have hbounds := child_bounds O.degree_pos hc hclt
        rw [hparent] at hbounds
        omega
    · exact (passed_update_of_ne rfl hparent).symm

theorem Invariant.send (h : Invariant O message s) {id : ℤ}
    (hstep : O.send message s id = some t) : Invariant O message t := by
  obtain ⟨j, hprogress, hstep⟩ := Option.bind_eq_some_iff.mp hstep
  obtain ⟨buffer, hheld, hstep⟩ := Option.bind_eq_some_iff.mp hstep
  obtain ⟨connection, hsend, hstep⟩ := Option.bind_eq_some_iff.mp hstep
  obtain rfl := Option.some.inj hstep
  obtain ⟨hid, hlt⟩ := h.progress_range id j hprogress
  obtain ⟨hj, htarget, hpeer⟩ := O.nextSend_some hid hlt hsend
  have hparent := parentOf_child O.degree_pos hid hj htarget
  have hmul := (O.size.child_le hid hlt).1
  have hnew : O.peer id connection ∉ s.sent.map Prod.fst := by
    rw [h.mem_sent, hpeer, passed_of_progress (by rw [hparent, hprogress]), hparent]
    omega
  refine ⟨h.range_update hid hlt rfl, ?_, ?_, ?_, ?_⟩
  · intro c
    simp only [List.map_append, List.map_cons, List.map_nil, List.mem_append, List.mem_singleton,
      h.mem_sent c, hpeer]
    by_cases hc : parentOf O.degree c = id
    · refine Iff.trans ?_ (passed_update_self rfl hc).symm
      rw [passed_of_progress (by rw [hc, hprogress]), hc]
      omega
    · have hne : c ≠ O.degree * id + j + 1 := by
        rintro rfl
        exact hc hparent
      refine Iff.trans ?_ (passed_update_of_ne rfl hc).symm
      simp only [hne, or_false]
  · rw [List.map_append, List.map_cons, List.map_nil, List.nodup_append]
    refine ⟨h.sent_nodup, List.nodup_singleton _, ?_⟩
    intro c hc d hd heq
    rw [heq, List.mem_singleton.mp hd] at hc
    exact hnew hc
  · intro delivery hmem
    rcases List.mem_append.mp hmem with hmem | hmem
    · exact h.sent_message delivery hmem
    · obtain rfl := List.mem_singleton.mp hmem
      exact h.held_eq hheld
  · have hperm := h.sent_perm.append_right [(O.peer id connection, buffer)]
    rw [List.append_assoc] at hperm
    refine hperm.trans ?_
    rw [List.append_assoc]
    exact List.perm_append_comm.append_left _

theorem Invariant.deliver (h : Invariant O message s) {position : ℕ}
    (hstep : deliver s position = some t) : Invariant O message t := by
  obtain ⟨delivery, hget, hstep⟩ := Option.bind_eq_some_iff.mp hstep
  obtain rfl := Option.some.inj hstep
  obtain ⟨hlt, rfl⟩ := List.getElem?_eq_some_iff.mp hget
  refine ⟨h.progress_range, h.mem_sent, h.sent_nodup, h.sent_message, ?_⟩
  have hperm := (List.getElem_cons_eraseIdx_perm hlt).symm.append_right s.delivered
  refine (h.sent_perm.trans hperm).trans ?_
  rw [List.cons_append, ← List.append_assoc]
  exact (List.perm_append_singleton _ _).symm

theorem Invariant.step (h : Invariant O message s) {a : Action}
    (hstep : (O.broadcast message).step s a = some t) : Invariant O message t := by
  cases a with
  | start id => exact h.start hstep
  | send id => exact h.send hstep
  | deliver position => exact h.deliver hstep

theorem Invariant.of_reachable (h : (O.broadcast message).Reachable s) :
    Invariant O message s := by
  apply h.invariant (I := Invariant O message)
  · rintro s rfl
    exact Invariant.initial
  · intro s a t h hstep
    exact h.step hstep

/-! ## What the vertices receive -/

theorem Invariant.delivered_nodup (h : Invariant O message s) :
    (s.delivered.map Prod.fst).Nodup := by
  have hperm := (h.sent_perm.map Prod.fst).nodup_iff.mp h.sent_nodup
  rw [List.map_append, List.nodup_append] at hperm
  exact hperm.2.1

theorem Invariant.delivered_message (h : Invariant O message s) :
    ∀ delivery ∈ s.delivered, delivery ∈ s.sent := by
  intro delivery hmem
  exact h.sent_perm.symm.subset (List.mem_append_right _ hmem)

/-- A vertex has received nothing or the message, once and unchanged. -/
theorem Invariant.received_eq (h : Invariant O message s) (id : ℤ) :
    s.received id = [] ∨ s.received id = [message] := by
  have hlength : (s.received id).length ≤ 1 := by
    have hcount := List.nodup_iff_count_le_one.mp h.delivered_nodup id
    rw [List.count, List.countP_map, List.countP_eq_length_filter] at hcount
    simpa [State.received, Function.comp_def, beq_eq_decide] using hcount
  match hreceived : s.received id with
  | [] => exact Or.inl rfl
  | [buffer] =>
      right
      have hmem : buffer ∈ s.received id := by rw [hreceived]; exact List.mem_singleton_self _
      obtain ⟨delivery, hdelivery, rfl⟩ := List.mem_map.mp hmem
      rw [h.sent_message delivery (h.delivered_message delivery (List.mem_of_mem_filter hdelivery))]
  | _ :: _ :: _ =>
      rw [hreceived] at hlength
      simp at hlength

theorem Invariant.sent_range (h : Invariant O message s) :
    ∀ delivery ∈ s.sent, 1 ≤ delivery.1 ∧ delivery.1 < O.total := by
  intro delivery hmem
  obtain ⟨hlow, hhigh, _⟩ := (h.mem_sent delivery.1).mp (List.mem_map_of_mem hmem)
  exact ⟨hlow, hhigh⟩

theorem Invariant.received_root (h : Invariant O message s) : s.received 0 = [] := by
  rw [State.received, List.map_eq_nil_iff, List.filter_eq_nil_iff]
  intro delivery hmem
  have hrange := h.sent_range delivery (h.delivered_message delivery hmem)
  simp only [decide_eq_true_eq]
  omega

/-- No vertex can take a step and no buffer is in flight. -/
def Final (O : Overlay) (message : β) (s : State β) : Prop :=
  ∀ a, (O.broadcast message).step s a = none

theorem Final.inFlight_eq (hfinal : Final O message s) : s.inFlight = [] := by
  cases hflight : s.inFlight with
  | nil => rfl
  | cons delivery rest =>
      have hnone := hfinal (.deliver 0)
      simp [Overlay.broadcast, Tbon.deliver, hflight] at hnone

/-- When all vertices are at the end of their loops and all buffers are delivered, nothing is left
to do. -/
theorem Invariant.final (h : Invariant O message s) (hflight : s.inFlight = [])
    (hended : ∀ id, 0 ≤ id → id < O.total →
      ∃ j, s.progress id = some j ∧ (O.vertex id).nextSend j = none) :
    Final O message s := by
  intro a
  cases a with
  | start id =>
      apply if_neg
      rintro ⟨hid, hlt, hnone, _⟩
      obtain ⟨j, hj, _⟩ := hended id hid hlt
      rw [hnone] at hj
      exact absurd hj (by simp)
  | send id =>
      change O.send message s id = none
      rw [Overlay.send]
      cases hprogress : s.progress id with
      | none => rfl
      | some k =>
          obtain ⟨hid, hlt⟩ := h.progress_range id k hprogress
          obtain ⟨j, hj, hnone⟩ := hended id hid hlt
          obtain rfl := Option.some.inj (hprogress.symm.trans hj)
          simp [hnone]
  | deliver position =>
      change Tbon.deliver s position = none
      simp [Tbon.deliver, hflight]

/-- A vertex that holds the message has sent it to all its children. -/
theorem Final.passed (hfinal : Final O message s) {c : ℤ}
    (hc : 1 ≤ c) (hlt : c < O.total)
    (hheld : s.held message (parentOf O.degree c) = some message) : Passed O s c := by
  have hbounds := parentOf_bounds O.degree_pos hc
  have hid : parentOf O.degree c < O.total := by omega
  cases hprogress : s.progress (parentOf O.degree c) with
  | none =>
      have hnone := hfinal (.start (parentOf O.degree c))
      simp [Overlay.broadcast, Overlay.start, hbounds.1, hid, hprogress, hheld] at hnone
  | some j =>
      have hnone := hfinal (.send (parentOf O.degree c))
      have hsend : (O.vertex (parentOf O.degree c)).nextSend j = none := by
        cases hsend : (O.vertex (parentOf O.degree c)).nextSend j with
        | none => rfl
        | some connection =>
            simp [Overlay.broadcast, Overlay.send, hprogress, hheld, hsend] at hnone
      have hend := O.nextSend_none hbounds.1 hid hsend
      have hchild := child_bounds O.degree_pos hc hlt
      rw [passed_of_progress hprogress]
      exact ⟨hc, hlt, by omega⟩

/-- In a final state every vertex holds the message. -/
theorem Invariant.held_of_final (h : Invariant O message s) (hfinal : Final O message s) :
    ∀ c ∈ (tree O.degree O.total O.degree_pos).vertices, s.held message c = some message := by
  apply RootedTree.induction (P := fun c => s.held message c = some message)
  · exact if_pos rfl
  · intro c hc hne hheld
    have hne' : c ≠ 0 := hne
    have hpos : 1 ≤ c := by
      have := hc.1
      omega
    have hsent := (h.mem_sent c).mpr (hfinal.passed hpos hc.2 hheld)
    have hperm := h.sent_perm
    rw [hfinal.inFlight_eq, List.nil_append] at hperm
    obtain ⟨delivery, hmem, rfl⟩ := List.mem_map.mp ((hperm.map Prod.fst).subset hsent)
    have hreceived : delivery.2 ∈ s.received delivery.1 :=
      List.mem_map_of_mem (List.mem_filter.mpr ⟨hmem, by simp⟩)
    rw [State.held, if_neg hne']
    rcases h.received_eq delivery.1 with hnil | hone
    · rw [hnil] at hreceived
      exact absurd hreceived List.not_mem_nil
    · rw [hone]
      rfl

/-- For every order of sends and deliveries, no vertex receives the message twice or changed,
the root never receives it, every send goes to another vertex of the tree, and when nothing is
left to do every vertex but the root has received the message exactly once. -/
theorem tbon_broadcast_once (O : Overlay) (message : β) (s : State β)
    (hreach : (O.broadcast message).Reachable s) :
    (∀ id, s.received id = [] ∨ s.received id = [message]) ∧ s.received 0 = [] ∧
      (∀ delivery ∈ s.sent, 1 ≤ delivery.1 ∧ delivery.1 < O.total) ∧
      (Final O message s → ∀ id, 1 ≤ id → id < O.total → s.received id = [message]) := by
  have h := Invariant.of_reachable hreach
  refine ⟨h.received_eq, h.received_root, h.sent_range, ?_⟩
  intro hfinal id hid hlt
  have hheld := h.held_of_final hfinal id ⟨by omega, hlt⟩
  rw [State.held, if_neg (by omega)] at hheld
  rcases h.received_eq id with hnil | hone
  · rw [hnil] at hheld
    exact absurd hheld (by simp)
  · exact hone

/-- For every size there is an overlay: the connection to the child at index `j` has index
`j`. -/
def Overlay.ofSize (degree total : ℤ) (h : Size degree total) : Overlay where
  degree
  total
  degree_pos := h.degree_pos
  total_pos := h.total_pos
  size_le := h.product_le
  vertex id :=
    ⟨degree, childrenOf degree total id, (List.range degree.toNat).map fun j : ℕ => (j : ℤ)⟩
  peer id index := childOf degree total id index.toNat
  degree_eq _ _ _ := rfl
  edges_eq id hid hlt := ⟨_, h.computeLocalTbonEdges_eq hid hlt⟩
  connected id _ _ j child hchild _ := by
    rw [childrenOf, List.getElem?_map] at hchild
    obtain ⟨k, hk, hvalue⟩ := Option.map_eq_some_iff.mp hchild
    obtain ⟨hlt, rfl⟩ := List.getElem?_eq_some_iff.mp hk
    refine ⟨j, ?_, ?_⟩
    · rw [List.getElem?_map, hk]
      simp
    · rw [← hvalue]
      simp

/-- A root with two children. -/
def sampleOverlay : Overlay := Overlay.ofSize 2 3 ⟨by decide, by decide, by decide⟩

/-- Both sends are made before the second one is delivered first. -/
def sampleRun : List Action :=
  [.start 0, .send 0, .send 0, .deliver 1, .start 2, .deliver 0, .start 1]

/-- The root and both children have come to the end of their loops, and no buffer is in flight. -/
theorem sampleRun_ends :
    ∃ s, (sampleOverlay.broadcast true).run ⟨fun _ => none, [], [], []⟩ sampleRun = some s ∧
      s.inFlight = [] ∧ s.progress 0 = some 2 ∧ s.progress 1 = some 0 ∧ s.progress 2 = some 0 := by
  have hrun : (((sampleOverlay.broadcast true).run ⟨fun _ => none, [], [], []⟩ sampleRun).map
      fun s => (s.inFlight, s.progress 0, s.progress 1, s.progress 2)) =
        some ([], some 2, some 0, some 0) := by decide
  obtain ⟨s, hs, hvalue⟩ := Option.map_eq_some_iff.mp hrun
  simp only [Prod.mk.injEq] at hvalue
  exact ⟨s, hs, hvalue⟩

theorem sampleRun_broadcast :
    ∃ s, (sampleOverlay.broadcast true).run ⟨fun _ => none, [], [], []⟩ sampleRun = some s ∧
      Final sampleOverlay true s ∧ s.received 1 = [true] ∧ s.received 2 = [true] := by
  obtain ⟨s, hs, hflight, hroot, hleft, hright⟩ := sampleRun_ends
  have hreach := (System.Reachable.initial rfl).run hs
  have hfinal : Final sampleOverlay true s := by
    apply (Invariant.of_reachable hreach).final hflight
    intro id hid hlt
    have hlt' : id < 3 := hlt
    obtain rfl | rfl | rfl : id = 0 ∨ id = 1 ∨ id = 2 := by omega
    · exact ⟨2, hroot, by decide⟩
    · exact ⟨0, hleft, by decide⟩
    · exact ⟨0, hright, by decide⟩
  have hreceived := (tbon_broadcast_once sampleOverlay true s hreach).2.2.2 hfinal
  exact ⟨s, hs, hfinal, hreceived 1 (by decide) (by decide), hreceived 2 (by decide) (by decide)⟩

end Dynpm.Tbon
