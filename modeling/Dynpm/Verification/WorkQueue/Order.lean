import Dynpm.Verification.WorkQueue.Delivery
import Mathlib.Data.List.Nodup

/-! # The order in which units are started

Units are popped in the order in which they were added, but between a pop and the call of the
unit's function other workers may pop and start units. The units that share a key are started in
their order exactly as long as no worker starts one while another worker still has to start an
earlier one.
-/

namespace Dynpm.WorkQueue

open Library

/-- An element that precedes another one in a list without repetitions stands in any part of the
list that ends right before the other one. -/
theorem mem_of_pair_sublist {α : Type} {x u : α} {front rest : List α}
    (hnodup : (front ++ u :: rest).Nodup) (h : [x, u].Sublist (front ++ u :: rest)) :
    x ∈ front := by
  obtain ⟨_, hnodup', _⟩ := List.nodup_append.mp hnodup
  have hu : u ∉ rest := (List.nodup_cons.mp hnodup').1
  obtain ⟨l₁, l₂, hsplit, hfront, hrest⟩ := List.sublist_append_iff.mp h
  match l₁, hsplit with
  | [], hsplit =>
      obtain rfl : [x, u] = l₂ := by simpa using hsplit
      rcases List.cons_sublist_cons'.mp hrest with hrest | ⟨_, hrest⟩
      · exact absurd (hrest.subset (by simp)) hu
      · exact absurd (hrest.subset (by simp)) hu
  | y :: l₁, hsplit =>
      obtain rfl : x = y := (List.cons.inj hsplit).1
      exact hfront.subset List.mem_cons_self

variable {workers : ℕ} {α κ : Type} [DecidableEq κ] {key : α → Option κ}

/-- The units of a key, in order. -/
def keyed (key : α → Option κ) (c : κ) (units : List α) : List α :=
  units.filter fun unit => key unit = some c

/-- The units that the workers have started. -/
def State.startedUnits (s : State workers α) : List α := s.started.map Prod.snd

/-- The units that the workers have popped. -/
def State.poppedUnits (s : State workers α) : List α := s.popped.map Prod.snd

/-- The units of each key have been started in the order in which they were added. -/
def InOrder (key : α → Option κ) (s : State workers α) : Prop :=
  ∀ c, keyed key c s.startedUnits <+: keyed key c s.added

/-- A worker starts a unit only when no worker still has to start a unit with the same key that
was popped before. -/
def OldestFirst (key : α → Option κ) (s : State workers α) : Action workers α → Prop
  | .call w => ∀ unit, s.worker w = .popped unit → ∀ v older, s.worker v = .popped older →
      ∀ c, key unit = some c → key older = some c → ¬ [older, unit].Sublist s.poppedUnits
  | _ => True

structure OrderInvariant (key : α → Option κ) (s : State workers α) : Prop where
  queue : Invariant s
  order : ∀ c, keyed key c s.startedUnits <+: keyed key c s.poppedUnits

variable {s t : State workers α} {w : Fin workers} {unit : α}

theorem OrderInvariant.inOrder (h : OrderInvariant key s) : InOrder key s := by
  intro c
  exact (h.order c).trans (h.queue.popped_front.filter _)

/-! ## Units that are popped and not started -/

theorem mem_unitsOf {records : List (Fin workers × α)} :
    unit ∈ unitsOf w records ↔ (w, unit) ∈ records := by
  simp [unitsOf]

theorem Invariant.poppedUnits_nodup (h : Invariant s) : s.poppedUnits.Nodup :=
  h.added_nodup.sublist h.popped_front.sublist

/-- A unit is popped by one worker. -/
theorem Invariant.popper_unique (h : Invariant s) {v : Fin workers}
    (hw : (w, unit) ∈ s.popped) (hv : (v, unit) ∈ s.popped) : w = v :=
  congrArg Prod.fst (List.inj_on_of_nodup_map h.poppedUnits_nodup hw hv rfl)

theorem Invariant.mem_popped_of_started (h : Invariant s) (hmem : (w, unit) ∈ s.started) :
    (w, unit) ∈ s.popped := by
  rw [← mem_unitsOf, h.pops w]
  exact List.mem_append_left _ (mem_unitsOf.mpr hmem)

/-- A worker about to start a unit has popped it, and nobody has started it. -/
theorem Invariant.popped_not_started (h : Invariant s) (hw : s.worker w = .popped unit) :
    unit ∈ s.poppedUnits ∧ unit ∉ s.startedUnits := by
  have hpops := h.pops w
  rw [hw] at hpops
  have hmem : (w, unit) ∈ s.popped := by
    rw [← mem_unitsOf, hpops]
    exact List.mem_append_right _ (List.mem_singleton_self unit)
  refine ⟨List.mem_map_of_mem hmem, ?_⟩
  intro hstarted
  obtain ⟨⟨v, unit'⟩, hv, rfl⟩ := List.mem_map.mp hstarted
  obtain rfl := h.popper_unique hmem (h.mem_popped_of_started hv)
  have hnodup : (unitsOf w s.popped).Nodup :=
    h.poppedUnits_nodup.sublist (List.filter_sublist.map _)
  rw [hpops] at hnodup
  exact (List.nodup_append.mp hnodup).2.2 _ (mem_unitsOf.mpr hv) _
    (List.mem_singleton_self _) rfl

/-- A unit that has been popped and not started is with a worker. -/
theorem Invariant.exists_worker (h : Invariant s) (hpopped : unit ∈ s.poppedUnits)
    (hstarted : unit ∉ s.startedUnits) : ∃ w, s.worker w = .popped unit := by
  obtain ⟨⟨w, unit'⟩, hmem, rfl⟩ := List.mem_map.mp hpopped
  rw [← mem_unitsOf, h.pops w] at hmem
  rcases List.mem_append.mp hmem with hmem | hmem
  · exact absurd (List.mem_map_of_mem (mem_unitsOf.mp hmem)) hstarted
  · refine ⟨w, ?_⟩
    cases hworker : s.worker w with
    | popped unit =>
        rw [hworker] at hmem
        rw [List.mem_singleton.mp hmem]
    | _ =>
        rw [hworker] at hmem
        exact absurd hmem List.not_mem_nil

/-- A unit that is in the queue, or with a worker that has not called its function yet. -/
def State.Pending (s : State workers α) (unit : α) : Prop :=
  unit ∈ s.workUnits ∨ ∃ w, unit ∈ (s.worker w).pending

theorem mem_pending_update {place : Fin workers → Worker α} {new : Worker α} {v : Fin workers}
    (h : unit ∈ (Function.update place w new v).pending) :
    unit ∈ new.pending ∨ unit ∈ (place v).pending := by
  by_cases hv : v = w
  · subst hv
    rw [Function.update_self] at h
    exact Or.inl h
  · rw [Function.update_of_ne hv] at h
    exact Or.inr h

/-- A worker that moves to a place where it owes no call adds nothing to the pending units. -/
theorem pending_of_move {place : Worker α} {started : List (Fin workers × α)}
    (hplace : place.pending = [])
    (h : ({ s with worker := Function.update s.worker w place, started := started } :
      State workers α).Pending unit) : s.Pending unit := by
  rcases h with h | ⟨v, h⟩
  · exact Or.inl h
  · rcases mem_pending_update h with h | h
    · rw [hplace] at h
      exact absurd h List.not_mem_nil
    · exact Or.inr ⟨v, h⟩

theorem pending_of_append {added : List α} {new : α}
    (h : ({ s with workUnits := s.workUnits ++ [new], added := added } :
      State workers α).Pending unit) : s.Pending unit ∨ unit = new := by
  rcases h with h | h
  · rcases List.mem_append.mp h with h | h
    · exact Or.inl (Or.inl h)
    · exact Or.inr (List.mem_singleton.mp h)
  · exact Or.inl (Or.inr h)

/-- A unit that is popped has been in the queue before. -/
theorem pending_of_takeMutex (h : (takeMutex s w).Pending unit) : s.Pending unit := by
  unfold takeMutex at h
  split at h
  · exact pending_of_move rfl h
  · split at h
    · exact pending_of_move rfl h
    · next first rest hunits =>
        rcases h with h | ⟨v, h⟩
        · left
          rw [hunits]
          exact List.mem_cons_of_mem _ h
        · rcases mem_pending_update h with h | h
          · left
            rw [hunits, List.mem_singleton.mp h]
            exact List.mem_cons_self
          · exact Or.inr ⟨v, h⟩

/-! ## One step -/

theorem mem_keyed {c : κ} {units : List α} :
    unit ∈ keyed key c units ↔ unit ∈ units ∧ key unit = some c := by
  simp [keyed]

theorem keyed_append (c : κ) (units : List α) (unit : α) :
    keyed key c (units ++ [unit]) =
      keyed key c units ++ if key unit = some c then [unit] else [] := by
  by_cases h : key unit = some c <;> simp [keyed, h]

theorem startedUnits_append (s : State workers α) (place : Fin workers → Worker α) :
    ({ s with worker := place, started := s.started ++ [(w, unit)] } :
      State workers α).startedUnits = s.startedUnits ++ [unit] := by
  simp [State.startedUnits]

/-- The worker that starts the oldest unit of its key keeps the order. -/
theorem OrderInvariant.call (h : OrderInvariant key s) (hw : s.worker w = .popped unit)
    (holdest : OldestFirst key s (.call w)) :
    OrderInvariant key { s with
      worker := Function.update s.worker w (.running unit)
      started := s.started ++ [(w, unit)] } := by
  refine ⟨h.queue.call hw, ?_⟩
  intro c
  rw [startedUnits_append, keyed_append]
  change _ <+: keyed key c s.poppedUnits
  split
  · next hkey =>
      obtain ⟨hpopped, hstarted⟩ := h.queue.popped_not_started hw
      obtain ⟨rest, hrest⟩ := h.order c
      have hmem : unit ∈ rest := by
        have hmem := mem_keyed.mpr ⟨hpopped, hkey⟩
        rw [← hrest] at hmem
        rcases List.mem_append.mp hmem with hmem | hmem
        · exact absurd (mem_keyed.mp hmem).1 hstarted
        · exact hmem
      cases rest with
      | nil => exact absurd hmem List.not_mem_nil
      | cons older rest =>
          rcases List.mem_cons.mp hmem with rfl | hmem
          · exact ⟨rest, by simpa using hrest⟩
          · -- an older unit of the same key is still with a worker
            have hpair : [older, unit].Sublist (keyed key c s.poppedUnits) := by
              rw [← hrest]
              exact (List.Sublist.cons_cons older (List.singleton_sublist.mpr hmem)).trans
                (List.sublist_append_right _ _)
            have hnodup : (keyed key c s.startedUnits ++ older :: rest).Nodup := by
              rw [hrest]
              exact h.queue.poppedUnits_nodup.filter _
            have holder := mem_keyed.mp (hpair.subset List.mem_cons_self)
            obtain ⟨v, hv⟩ := h.queue.exists_worker holder.1 (by
              intro hmem'
              exact (List.nodup_append.mp hnodup).2.2 _ (mem_keyed.mpr ⟨hmem', holder.2⟩) _
                List.mem_cons_self rfl)
            exact absurd (hpair.trans List.filter_sublist)
              (holdest unit hw v older hv c hkey holder.2)
  · rw [List.append_nil]
    exact h.order c

/-- The worker that does not start the oldest unit of its key destroys the order. -/
theorem OrderInvariant.not_inOrder_call (h : OrderInvariant key s)
    (hw : s.worker w = .popped unit) (hnot : ¬ OldestFirst key s (.call w)) :
    ¬ InOrder key { s with
      worker := Function.update s.worker w (.running unit)
      started := s.started ++ [(w, unit)] } := by
  simp only [OldestFirst, not_forall, not_not] at hnot
  obtain ⟨unit', hw', v, older, hv, c, hkey, hkey', hpair⟩ := hnot
  obtain rfl := Worker.popped.inj (hw.symm.trans hw')
  intro horder
  obtain ⟨rest, hrest⟩ := horder c
  rw [startedUnits_append, keyed_append, if_pos hkey, List.append_assoc,
    List.singleton_append] at hrest
  have hkeyed : [older, unit].Sublist (keyed key c s.added) := by
    have hpair := (hpair.trans h.queue.popped_front.sublist).filter fun u => key u = some c
    simpa [keyed, hkey, hkey'] using hpair
  have hnodup : (keyed key c s.added).Nodup := h.queue.added_nodup.filter _
  change _ = keyed key c s.added at hrest
  rw [← hrest] at hkeyed hnodup
  have hstarted := mem_keyed.mp (mem_of_pair_sublist hnodup hkeyed)
  exact (h.queue.popped_not_started hv).2 hstarted.1

theorem takeMutex_grows (s : State workers α) (w : Fin workers) :
    (takeMutex s w).started = s.started ∧ s.popped <+: (takeMutex s w).popped := by
  unfold takeMutex
  split
  · exact ⟨rfl, List.prefix_refl _⟩
  · split
    · exact ⟨rfl, List.prefix_refl _⟩
    · exact ⟨rfl, List.prefix_append _ _⟩

omit [DecidableEq κ] in
/-- A single worker always starts the oldest unit. -/
theorem Invariant.oldestFirst_of_single (h : Invariant s) (hworkers : workers ≤ 1)
    (a : Action workers α) : OldestFirst key s a := by
  cases a with
  | call w =>
      intro unit hw v older hv c _ _ hpair
      obtain rfl : v = w := by
        apply Fin.ext
        have := v.isLt
        have := w.isLt
        omega
      obtain rfl := Worker.popped.inj (hw.symm.trans hv)
      have hnodup := h.poppedUnits_nodup.sublist hpair
      exact (List.nodup_cons.mp hnodup).1 List.mem_cons_self
  | _ => trivial

theorem orderInvariant_init {threadCount : ℤ} {s : State threadCount.toNat α}
    (h : workQueueInit threadCount = some s) : OrderInvariant key s := by
  refine ⟨invariant_init h, ?_⟩
  unfold workQueueInit at h
  split at h
  · exact absurd h (by simp)
  · obtain rfl := Option.some.inj h
    intro c
    exact List.prefix_refl _

variable [DecidableEq α]

/-- The units pending after a step were pending before, apart from one that has been added. -/
theorem pending_of_step {a : Action workers α} (hstep : step s a = some t)
    (h : t.Pending unit) : s.Pending unit ∨ ∃ wake, a = .add unit wake := by
  rcases step_cases hstep with ⟨w, _, rfl⟩ | ⟨w, place, _, hplace, _, rfl⟩ | ⟨w, _, _, _, rfl⟩ |
    ⟨added, wake, rfl, hadd⟩ | rfl
  · exact Or.inl (pending_of_takeMutex h)
  · exact Or.inl (pending_of_move hplace h)
  · exact Or.inl (pending_of_move rfl h)
  · have hpending : s.Pending unit ∨ unit = added := by
      rcases (workQueueAdd_cases hadd).2 with ⟨_, _, rfl⟩ | ⟨_, rfl⟩
      · exact pending_of_append (pending_of_move rfl h)
      · exact pending_of_append h
    rcases hpending with hpending | rfl
    · exact Or.inl hpending
    · exact Or.inr ⟨wake, rfl⟩
  · rcases h with h | ⟨w, h⟩
    · exact absurd h List.not_mem_nil
    · refine Or.inl (Or.inr ⟨w, ?_⟩)
      simp only [workQueueFinalize] at h
      split at h
      · exact absurd h List.not_mem_nil
      · exact h

theorem OrderInvariant.step (h : OrderInvariant key s) {a : Action workers α}
    (holdest : OldestFirst key s a) (hstep : step s a = some t) : OrderInvariant key t := by
  have hqueue := h.queue.step hstep
  rcases step_cases hstep with ⟨w, _, rfl⟩ | ⟨w, place, _, _, _, rfl⟩ | ⟨w, unit, rfl, hw, rfl⟩ |
    ⟨added, wake, rfl, hadd⟩ | rfl
  · obtain ⟨hstarted, hpopped⟩ := takeMutex_grows s w
    refine ⟨hqueue, ?_⟩
    intro c
    rw [State.startedUnits, hstarted]
    exact (h.order c).trans ((hpopped.map _).filter _)
  · exact ⟨hqueue, h.order⟩
  · exact h.call hw holdest
  · rcases (workQueueAdd_cases hadd).2 with ⟨_, _, rfl⟩ | ⟨_, rfl⟩
    · exact ⟨hqueue, h.order⟩
    · exact ⟨hqueue, h.order⟩
  · exact ⟨hqueue, h.order⟩

theorem OrderInvariant.not_inOrder_step (h : OrderInvariant key s) {a : Action workers α}
    (hnot : ¬ OldestFirst key s a) (hstep : WorkQueue.step s a = some t) : ¬ InOrder key t := by
  cases a with
  | call w =>
      simp only [WorkQueue.step] at hstep
      split at hstep
      · next unit hw =>
          obtain rfl := Option.some.inj hstep
          exact h.not_inOrder_call hw hnot
      · exact absurd hstep (by simp)
  | _ => exact absurd trivial hnot

end Dynpm.WorkQueue
