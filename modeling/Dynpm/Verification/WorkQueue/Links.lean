import Mathlib.Data.List.Perm.Subperm
import Mathlib.Data.List.TakeWhile
import Dynpm.Library.Simulation
import Dynpm.Model.WorkUnits
import Dynpm.Verification.WorkQueue.Delivery

/-! # The links of the work queue

The pointers of the work queue always form a list that ends, even if a caller adds a unit that is
still in it. Such a unit becomes the last one, and the units behind it are lost. As long as no unit
is added a second time, the pointers do what the queue of units does.
-/

namespace Dynpm.WorkUnits

open Library
open Dynpm.WorkQueue (Worker Action)

variable {workers : ℕ} {α : Type} {s t : State workers α} {unit : α} {units : List α}
  {w : Fin workers}

/-- The pointers of the queue lead through the given units, all of which have been added. -/
structure Holds (s : State workers α) (units : List α) : Prop where
  linked : Linked s.next s.workUnits units
  subset : units ⊆ s.added

theorem Holds.length_le (h : Holds s units) : units.length ≤ s.added.length :=
  (List.subperm_of_subset h.linked.nodup h.subset).length_le

theorem Holds.units_eq (h : Holds s units) : s.units = units :=
  h.linked.linkedObjects_eq h.length_le

variable [DecidableEq α]

/-! ## Taking a unit -/

theorem Holds.popped {rest : List α} (h : Holds s (unit :: rest)) :
    s.workUnits = some unit ∧
      Linked (Function.update s.next unit none) (s.next unit) rest := by
  have hhead := h.linked.head_eq
  have hlinked := h.linked
  have hnodup := List.nodup_cons.mp h.linked.nodup
  rw [List.head?_cons] at hhead
  rw [hhead] at hlinked
  obtain ⟨_, heq, hnext⟩ := Linked.some_iff.mp hlinked
  obtain ⟨_, rfl⟩ := List.cons.inj heq
  refine ⟨hhead, hnext.congr ?_⟩
  intro b hb
  have hne : b ≠ unit := by
    rintro rfl
    exact hnodup.1 hb
  rw [Function.update_of_ne hne]

/-! ## Adding a unit -/

theorem Holds.linkUnit_nil (h : Holds s []) (unit : α) :
    linkUnit s unit =
      some { s with
        workUnits := some unit
        next := Function.update s.next unit none
        added := s.added ++ [unit] } := by
  have hhead := h.linked.head_eq
  rw [List.head?_nil] at hhead
  rw [linkUnit, hhead]

theorem Holds.linkUnit_tail {front : List α} {tail : α} (h : Holds s (front ++ [tail])) (unit : α) :
    linkUnit s unit =
      some { s with
        next := Function.update (Function.update s.next tail (some unit)) unit none
        added := s.added ++ [unit] } := by
  have hlinked := h.linked
  unfold linkUnit
  cases hunits : s.workUnits with
  | none =>
      rw [hunits] at hlinked
      simp at hlinked
  | some current =>
      rw [hunits] at hlinked
      have htail := hlinked.lastLinked_eq h.length_le
      rw [List.getLast?_concat] at htail
      simp only [htail, Option.map_some]

/-- A unit that is not in the queue becomes the last one. -/
theorem Holds.linkUnit_of_notMem (h : Holds s units) (hunit : unit ∉ units) :
    ∃ next workUnits,
      linkUnit s unit = some { s with next, workUnits, added := s.added ++ [unit] } ∧
        Linked next workUnits (units ++ [unit]) := by
  rcases List.eq_nil_or_concat units with rfl | ⟨front, tail, rfl⟩
  · refine ⟨_, _, h.linkUnit_nil unit, ?_⟩
    simp
  · rw [List.concat_eq_append] at h hunit ⊢
    refine ⟨_, _, h.linkUnit_tail unit, ?_⟩
    have hlinked := h.linked.link hunit
    simpa using hlinked

/-- A unit that is in the queue becomes the last one, and the units behind it are lost. -/
theorem Holds.linkUnit_of_append {front rest : List α} (h : Holds s (front ++ unit :: rest)) :
    ∃ next workUnits,
      linkUnit s unit = some { s with next, workUnits, added := s.added ++ [unit] } ∧
        Linked next workUnits (front ++ [unit]) := by
  obtain ⟨most, tail, heq⟩ : ∃ most tail, unit :: rest = most ++ [tail] := by
    obtain ⟨most, tail, heq⟩ := (List.eq_nil_or_concat (unit :: rest)).resolve_left (by simp)
    exact ⟨most, tail, by rw [heq, List.concat_eq_append]⟩
  have hunits := h
  rw [heq, ← List.append_assoc] at hunits
  refine ⟨_, _, hunits.linkUnit_tail unit, ?_⟩
  have hnodup := List.nodup_append.mp h.linked.nodup
  have htail : tail ∈ unit :: rest := by simp [heq]
  refine h.linked.cut ?_ (Function.update_self ..)
  intro b hb
  have hbunit : b ≠ unit := hnodup.2.2 b hb unit List.mem_cons_self
  have hbtail : b ≠ tail := hnodup.2.2 b hb tail htail
  rw [Function.update_of_ne hbunit, Function.update_of_ne hbtail]

theorem signal_eq_some {wake : Option (Fin workers)} (h : signal s wake = some t) :
    ∃ worker, t = { s with worker } := by
  unfold signal at h
  split at h
  · next w =>
      split at h
      · exact ⟨_, (Option.some.inj h).symm⟩
      · exact absurd h (by simp)
  · split at h
    · exact absurd h (by simp)
    · exact ⟨_, (Option.some.inj h).symm⟩

theorem exists_signal (s : State workers α) : ∃ wake t, signal s wake = some t := by
  by_cases hwaiting : ∃ w, s.worker w = .waiting
  · obtain ⟨w, hw⟩ := hwaiting
    exact ⟨some w, _, if_pos hw⟩
  · exact ⟨none, s, if_neg hwaiting⟩

/-- What `dynpm_work_queue_add` does to the units in the queue. -/
theorem Holds.add (h : Holds s units) {wake : Option (Fin workers)}
    (hadd : workQueueAdd s unit wake = some t) :
    t.added = s.added ++ [unit] ∧ t.popped = s.popped ∧ t.finalized = s.finalized ∧
      ((unit ∉ units ∧ Holds t (units ++ [unit])) ∨
        ∃ front rest, units = front ++ unit :: rest ∧ Holds t (front ++ [unit])) := by
  obtain ⟨u, hlink, hsignal⟩ := Option.bind_eq_some_iff.mp hadd
  obtain ⟨worker, rfl⟩ := signal_eq_some hsignal
  by_cases hunit : unit ∈ units
  · obtain ⟨front, rest, rfl⟩ := List.append_of_mem hunit
    obtain ⟨next, workUnits, heq, hlinked⟩ := h.linkUnit_of_append
    obtain rfl := Option.some.inj (heq.symm.trans hlink)
    refine ⟨rfl, rfl, rfl, Or.inr ⟨front, rest, rfl, hlinked, ?_⟩⟩
    exact List.append_subset.mpr
      ⟨fun u hu => List.mem_append_left _ (h.subset (List.mem_append_left _ hu)),
        List.subset_append_right _ _⟩
  · obtain ⟨next, workUnits, heq, hlinked⟩ := h.linkUnit_of_notMem hunit
    obtain rfl := Option.some.inj (heq.symm.trans hlink)
    refine ⟨rfl, rfl, rfl, Or.inl ⟨hunit, hlinked, ?_⟩⟩
    exact List.append_subset.mpr
      ⟨fun u hu => List.mem_append_left _ (h.subset hu), List.subset_append_right _ _⟩

/-- `dynpm_work_queue_add` always returns: the walk to the tail ends, and the signal wakes a worker
if one waits. -/
theorem Holds.exists_add (h : Holds s units) (unit : α) :
    ∃ wake t, workQueueAdd s unit wake = some t := by
  obtain ⟨next, workUnits, heq⟩ : ∃ next workUnits,
      linkUnit s unit = some { s with next, workUnits, added := s.added ++ [unit] } := by
    by_cases hunit : unit ∈ units
    · obtain ⟨front, rest, rfl⟩ := List.append_of_mem hunit
      obtain ⟨next, workUnits, heq, _⟩ := h.linkUnit_of_append
      exact ⟨next, workUnits, heq⟩
    · obtain ⟨next, workUnits, heq, _⟩ := h.linkUnit_of_notMem hunit
      exact ⟨next, workUnits, heq⟩
  obtain ⟨wake, t, hsignal⟩ :=
    exists_signal { s with next, workUnits, added := s.added ++ [unit] }
  refine ⟨wake, t, ?_⟩
  rw [workQueueAdd, heq]
  exact hsignal

/-! ## One step -/

theorem Holds.takeMutex (h : Holds s units) (w : Fin workers) :
    (WorkUnits.takeMutex s w).added = s.added ∧
      (WorkUnits.takeMutex s w).finalized = s.finalized ∧
      ∃ units', Holds (WorkUnits.takeMutex s w) units' ∧
        (WorkUnits.takeMutex s w).popped.map Prod.snd ++ units' =
          s.popped.map Prod.snd ++ units := by
  unfold WorkUnits.takeMutex
  split
  · exact ⟨rfl, rfl, units, ⟨h.linked, h.subset⟩, rfl⟩
  · cases units with
    | nil =>
        have hhead := h.linked.head_eq
        split
        · exact ⟨rfl, rfl, [], ⟨h.linked, h.subset⟩, rfl⟩
        · next hunit => exact absurd (hunit.symm.trans hhead) (by simp)
    | cons unit rest =>
        obtain ⟨hhead, hrest⟩ := h.popped
        split
        · next hnone => exact absurd (hnone.symm.trans hhead) (by simp)
        · next hunit =>
            obtain rfl := Option.some.inj (hunit.symm.trans hhead)
            refine ⟨rfl, rfl, rest, ⟨hrest, (List.cons_subset.mp h.subset).2⟩, ?_⟩
            simp

/-- What a step can do: a worker takes the mutex or moves without touching the queue, or one of the
two functions of the queue is called. -/
theorem step_cases {a : Action workers α} (hstep : step s a = some t) :
    (∃ w, t = takeMutex s w) ∨
    (∃ worker started, t = { s with worker, started }) ∨
    (∃ unit wake, a = .add unit wake ∧ workQueueAdd s unit wake = some t) ∨
    t = workQueueFinalize s := by
  cases a with
  | lock w =>
      simp only [step] at hstep
      split at hstep
      · exact Or.inl ⟨w, (Option.some.inj hstep).symm⟩
      · exact absurd hstep (by simp)
  | spuriousWakeUp w =>
      simp only [step] at hstep
      split at hstep
      · exact Or.inr (Or.inl ⟨_, _, (Option.some.inj hstep).symm⟩)
      · exact absurd hstep (by simp)
  | call w =>
      simp only [step] at hstep
      split at hstep
      · exact Or.inr (Or.inl ⟨_, _, (Option.some.inj hstep).symm⟩)
      · exact absurd hstep (by simp)
  | «return» w =>
      simp only [step] at hstep
      split at hstep
      · exact Or.inr (Or.inl ⟨_, _, (Option.some.inj hstep).symm⟩)
      · exact absurd hstep (by simp)
  | add unit wake => exact Or.inr (Or.inr (Or.inl ⟨unit, wake, rfl, hstep⟩))
  | finalize => exact Or.inr (Or.inr (Or.inr (Option.some.inj hstep).symm))

/-- The pointers form a list again after every step. -/
theorem Holds.step (h : Holds s units) {a : Action workers α} (hstep : step s a = some t) :
    ∃ units, Holds t units := by
  rcases step_cases hstep with ⟨w, rfl⟩ | ⟨_, _, rfl⟩ | ⟨unit, wake, _, hadd⟩ | rfl
  · obtain ⟨_, _, units', hunits', _⟩ := h.takeMutex w
    exact ⟨units', hunits'⟩
  · exact ⟨units, h.linked, h.subset⟩
  · obtain ⟨_, _, _, hcases⟩ := h.add hadd
    rcases hcases with ⟨_, h⟩ | ⟨_, _, _, h⟩
    · exact ⟨_, h⟩
    · exact ⟨_, h⟩
  · exact ⟨[], .nil, List.nil_subset _⟩

omit [DecidableEq α] in
theorem holds_of_init {threadCount : ℤ} {s : State threadCount.toNat α} {next : α → Option α}
    (h : workQueueInit next threadCount = some s) : Holds s [] := by
  unfold workQueueInit at h
  split at h
  · exact absurd h (by simp)
  · obtain rfl := Option.some.inj h
    exact ⟨.nil, List.nil_subset _⟩

/-! ## Runs in which units are added again -/

/-- A unit that is added becomes the last one, and takes the units behind it out of the queue if it
was in it. -/
theorem Holds.units_add (h : Holds s units) {unit : α} {wake : Option (Fin workers)}
    (hadd : workQueueAdd s unit wake = some t) :
    t.units = units.takeWhile (fun u => u ≠ unit) ++ [unit] := by
  obtain ⟨_, _, _, ⟨hunit, ht⟩ | ⟨front, rest, rfl, ht⟩⟩ := h.add hadd
  · rw [ht.units_eq, List.takeWhile_eq_self_iff.mpr]
    intro u hu
    have hne : u ≠ unit := by
      rintro rfl
      exact hunit hu
    simpa using hne
  · have hfront : ∀ u ∈ front, u ≠ unit := fun u hu =>
      (List.nodup_append.mp h.linked.nodup).2.2 u hu unit List.mem_cons_self
    rw [ht.units_eq, List.takeWhile_append_of_pos (by simpa using hfront)]
    simp

/-- In every state that the queue reaches, whatever its callers add, the pointers form a list that
ends. Any unit can be added next. Whichever worker that wakes, the unit becomes the last one, and
it takes the units behind it out of the queue if it was in it. -/
theorem links_form_queue (threadCount : ℤ) (s : State threadCount.toNat α)
    (hreach : (system threadCount).Reachable s) :
    Linked s.next s.workUnits s.units ∧
      ∀ unit, (∃ wake t, step s (.add unit wake) = some t) ∧
        ∀ wake t, step s (.add unit wake) = some t →
          t.units = s.units.takeWhile (fun u => u ≠ unit) ++ [unit] := by
  obtain ⟨units, h⟩ : ∃ units, Holds s units := by
    apply hreach.invariant (I := fun s => ∃ units, Holds s units)
    · rintro s ⟨next, hinit⟩
      exact ⟨[], holds_of_init hinit⟩
    · rintro s a t ⟨units, h⟩ hstep
      exact h.step hstep
  rw [h.units_eq]
  refine ⟨h.linked, fun unit => ⟨h.exists_add unit, ?_⟩⟩
  intro wake t hadd
  exact h.units_add hadd

/-- A queue with one worker, over units whose memory points to unit 9. -/
def sampleQueue : State (1 : ℤ).toNat ℕ where
  next _ := some 9
  workUnits := none
  threadData := (List.finRange (1 : ℤ).toNat).reverse
  terminate _ := false
  worker _ := .atLock
  added := []
  popped := []
  started := []
  finalized := false

theorem sampleQueue_initial : workQueueInit (fun _ => some 9) 1 = some sampleQueue := rfl

/-- The queue holds the units 1, 2 and 3, and adding 2 again takes 3 out of it. -/
theorem threeUnits_form_queue :
    ∃ t u, (system 1).run sampleQueue [.add 1 none, .add 2 none, .add 3 none] = some t ∧
      Linked t.next t.workUnits [1, 2, 3] ∧ step t (.add 2 none) = some u ∧
      u.units = [1, 2] := by
  have hrun : ((system 1).run sampleQueue [.add 1 none, .add 2 none, .add 3 none]).map
      (fun t => (t.units, (step t (.add 2 none)).isSome)) = some ([1, 2, 3], true) := by
    decide
  obtain ⟨t, ht, hvalue⟩ := Option.map_eq_some_iff.mp hrun
  obtain ⟨hunits, hadds⟩ := Prod.mk.inj hvalue
  obtain ⟨u, hu⟩ := Option.isSome_iff_exists.mp hadds
  have hinit : (system 1).Reachable sampleQueue := .initial ⟨_, sampleQueue_initial⟩
  obtain ⟨hlinked, hadd⟩ := links_form_queue 1 t (hinit.run ht)
  have hlast := (hadd 2).2 none u hu
  rw [hunits] at hlinked hlast
  exact ⟨t, u, ht, hlinked, hu, hlast⟩

/-- The pointers form a list, and the units have left it in the order in which they were added. -/
def FifoInvariant (s : State workers α) : Prop :=
  (∃ units, Holds s units) ∧ s.Fifo

theorem FifoInvariant.step {a : Action workers α} (h : FifoInvariant s) (hadd : AddsUnlinked s a)
    (hstep : WorkUnits.step s a = some t) : FifoInvariant t := by
  obtain ⟨⟨units, hholds⟩, hfifo⟩ := h
  refine ⟨hholds.step hstep, ?_⟩
  have hunits := hfifo
  rw [State.Fifo, hholds.units_eq] at hunits
  rcases step_cases hstep with ⟨w, rfl⟩ | ⟨_, _, rfl⟩ | ⟨unit, wake, rfl, hadds⟩ | rfl
  · obtain ⟨hadded, hfinalized, units', hunits', hpopped⟩ := hholds.takeMutex w
    rw [State.Fifo, hunits'.units_eq, hadded, hfinalized, hpopped]
    exact hunits
  · exact hfifo
  · obtain ⟨hadded, hpopped, hfinalized, hcases⟩ := hholds.add hadds
    rw [State.Fifo, hfinalized]
    by_cases hfinal : s.finalized = true
    · exact Or.inl hfinal
    · rw [AddsUnlinked, hholds.units_eq] at hadd
      obtain ⟨_, ht⟩ | ⟨front, rest, rfl, _⟩ := hcases
      · rw [ht.units_eq, hadded, hpopped, ← List.append_assoc, hunits.resolve_left hfinal]
        exact Or.inr rfl
      · exact absurd (List.mem_append_right front List.mem_cons_self) (hadd.resolve_left hfinal)
  · exact Or.inl rfl

/-- A unit that is added while it is in the queue is in the queue only once. -/
theorem FifoInvariant.not_fifo_of_linked {a : Action workers α} (h : FifoInvariant s)
    (hadd : ¬ AddsUnlinked s a) (hstep : WorkUnits.step s a = some t) : ¬ t.Fifo := by
  obtain ⟨⟨units, hholds⟩, hfifo⟩ := h
  cases a with
  | lock _ | spuriousWakeUp _ | call _ | «return» _ | finalize => exact absurd trivial hadd
  | add unit wake =>
      rw [AddsUnlinked, hholds.units_eq, not_or, not_not] at hadd
      rw [State.Fifo, hholds.units_eq] at hfifo
      obtain ⟨hadded, hpopped, hfinalized, hcases⟩ := hholds.add hstep
      obtain ⟨hunit, _⟩ | ⟨front, rest, rfl, ht⟩ := hcases
      · exact absurd hadd.2 hunit
      · have hlength := congrArg List.length (hfifo.resolve_left hadd.1)
        rw [State.Fifo, hfinalized, ht.units_eq, hadded, hpopped, not_or]
        refine ⟨hadd.1, ?_⟩
        intro heq
        have hlength' := congrArg List.length heq
        simp only [List.length_append, List.length_cons, List.length_nil] at hlength hlength'
        omega

/-- The units leave the queue in the order in which they are added, each as often as it is added,
throughout exactly those runs in which no unit is added while it is in the queue. -/
theorem queue_fifo_iff (threadCount : ℤ) (s : State threadCount.toNat α)
    (hinit : (system threadCount).initial s) (actions : List (Action threadCount.toNat α)) :
    (system threadCount).Throughout State.Fifo s actions ↔
      (system threadCount).Respecting AddsUnlinked s actions := by
  obtain ⟨next, hinit⟩ := hinit
  have hholds := holds_of_init hinit
  have hstart : FifoInvariant s := by
    refine ⟨⟨[], hholds⟩, Or.inr ?_⟩
    rw [hholds.units_eq]
    unfold workQueueInit at hinit
    split at hinit
    · exact absurd hinit (by simp)
    · obtain rfl := Option.some.inj hinit
      rfl
  apply System.throughout_iff_respecting (I := FifoInvariant) _ _ _ hstart
  · intro s h
    exact h.2
  · intro s a t h hadd hstep
    exact h.step hadd hstep
  · intro s a t h hadd hstep
    exact h.not_fifo_of_linked hadd hstep

/-- Unit 1 is added again while unit 2 is behind it. -/
theorem readdedUnit_not_fifo :
    ¬ (system 1).Throughout State.Fifo sampleQueue
      [.add 1 none, .add 2 none, .add 1 none] := by
  rw [queue_fifo_iff 1 sampleQueue ⟨_, sampleQueue_initial⟩]
  decide

/-! ## Runs in which no unit is added again -/

/-- The queue with the given units in the place of their links. -/
def State.abstract (c : State workers α) (units : List α) : WorkQueue.State workers α where
  workUnits := units
  threadData := c.threadData
  terminate := c.terminate
  worker := c.worker
  added := c.added
  popped := c.popped
  started := c.started
  finalized := c.finalized

/-- The pointers of `c` lead through the units of `s`, and the rest is the same. -/
def Refines (c : State workers α) (s : WorkQueue.State workers α) : Prop :=
  Holds c s.workUnits ∧ s = c.abstract s.workUnits

theorem Holds.abstract_takeMutex (h : Holds s units) (w : Fin workers) :
    Refines (WorkUnits.takeMutex s w) (WorkQueue.takeMutex (s.abstract units) w) := by
  unfold WorkUnits.takeMutex WorkQueue.takeMutex
  by_cases hterminate : s.terminate w = true
  · rw [if_pos hterminate, if_pos (show (s.abstract units).terminate w = true from hterminate)]
    exact ⟨⟨h.linked, h.subset⟩, rfl⟩
  · rw [if_neg hterminate, if_neg (show ¬ (s.abstract units).terminate w = true from hterminate)]
    cases units with
    | nil =>
        have hhead := h.linked.head_eq
        split
        · exact ⟨⟨h.linked, h.subset⟩, rfl⟩
        · next hunit => exact absurd (hunit.symm.trans hhead) (by simp)
    | cons unit rest =>
        obtain ⟨hhead, hrest⟩ := h.popped
        split
        · next hnone => exact absurd (hnone.symm.trans hhead) (by simp)
        · next hunit =>
            obtain rfl := Option.some.inj (hunit.symm.trans hhead)
            exact ⟨⟨hrest, (List.cons_subset.mp h.subset).2⟩, rfl⟩

theorem abstract_workQueueFinalize (s : State workers α) (units : List α) :
    Refines (workQueueFinalize s) (WorkQueue.workQueueFinalize (s.abstract units)) := by
  have hterminate : (WorkQueue.workQueueFinalize (s.abstract units)).terminate =
      (workQueueFinalize s).terminate := by
    funext w
    by_cases hw : w ∈ s.threadData
    · simp [WorkQueue.workQueueFinalize, workQueueFinalize, State.abstract, hw]
    · simp [WorkQueue.workQueueFinalize, workQueueFinalize, State.abstract, hw]
  have hrest : WorkQueue.workQueueFinalize (s.abstract units) =
      { (workQueueFinalize s).abstract [] with
        terminate := (WorkQueue.workQueueFinalize (s.abstract units)).terminate } := rfl
  rw [hrest, hterminate]
  exact ⟨⟨.nil, List.nil_subset _⟩, rfl⟩

theorem Holds.abstract_workQueueAdd (h : Holds s units) (hunit : unit ∉ s.added)
    (wake : Option (Fin workers)) :
    Option.Rel Refines (workQueueAdd s unit wake)
      (WorkQueue.workQueueAdd (s.abstract units) unit wake) := by
  obtain ⟨next, workUnits, heq, hlinked⟩ :=
    h.linkUnit_of_notMem fun hmem => hunit (h.subset hmem)
  have hsubset : units ++ [unit] ⊆ s.added ++ [unit] := List.append_subset.mpr
    ⟨fun u hu => List.mem_append_left _ (h.subset hu), List.subset_append_right _ _⟩
  rw [workQueueAdd, heq, WorkQueue.workQueueAdd,
    if_neg (show unit ∉ (s.abstract units).added from hunit)]
  cases wake with
  | some w =>
      change Option.Rel Refines (if s.worker w = .waiting then some _ else none)
        (if s.worker w = .waiting then some _ else none)
      by_cases hw : s.worker w = .waiting
      · rw [if_pos hw, if_pos hw]
        exact .some ⟨⟨hlinked, hsubset⟩, rfl⟩
      · rw [if_neg hw, if_neg hw]
        exact .none
  | none =>
      change Option.Rel Refines (if ∃ w, s.worker w = .waiting then none else some _)
        (if ∃ w, s.worker w = .waiting then none else some _)
      by_cases hw : ∃ w, s.worker w = .waiting
      · rw [if_pos hw, if_pos hw]
        exact .none
      · rw [if_neg hw, if_neg hw]
        exact .some ⟨⟨hlinked, hsubset⟩, rfl⟩

/-- The pointers and the units agree on a step that does not add a unit again. -/
theorem Refines.step {c : State workers α} {s : WorkQueue.State workers α} (h : Refines c s)
    {a : Action workers α} (hadd : AddsOnce c a) :
    Option.Rel Refines (WorkUnits.step c a) (WorkQueue.step s a) := by
  obtain ⟨hholds, heq⟩ := h
  generalize s.workUnits = units at hholds heq
  subst heq
  cases a with
  | lock w =>
      change Option.Rel Refines
        (if c.worker w = .atLock ∨ c.worker w = .woken then some _ else none)
        (if c.worker w = .atLock ∨ c.worker w = .woken then some _ else none)
      by_cases hw : c.worker w = .atLock ∨ c.worker w = .woken
      · rw [if_pos hw, if_pos hw]
        exact .some (hholds.abstract_takeMutex w)
      · rw [if_neg hw, if_neg hw]
        exact .none
  | spuriousWakeUp w =>
      change Option.Rel Refines (if c.worker w = .waiting then some _ else none)
        (if c.worker w = .waiting then some _ else none)
      by_cases hw : c.worker w = .waiting
      · rw [if_pos hw, if_pos hw]
        exact .some ⟨⟨hholds.linked, hholds.subset⟩, rfl⟩
      · rw [if_neg hw, if_neg hw]
        exact .none
  | call w =>
      simp only [WorkUnits.step, WorkQueue.step, State.abstract]
      cases c.worker w with
      | popped unit => exact .some ⟨⟨hholds.linked, hholds.subset⟩, rfl⟩
      | atLock | waiting | woken | running _ | exited => exact .none
  | «return» w =>
      simp only [WorkUnits.step, WorkQueue.step, State.abstract]
      cases c.worker w with
      | running unit => exact .some ⟨⟨hholds.linked, hholds.subset⟩, rfl⟩
      | atLock | waiting | woken | popped _ | exited => exact .none
  | add unit wake => exact hholds.abstract_workQueueAdd hadd wake
  | finalize => exact .some (abstract_workQueueFinalize c units)

omit [DecidableEq α] in
theorem refines_init {threadCount : ℤ} {c : State threadCount.toNat α} {next : α → Option α}
    (h : workQueueInit next threadCount = some c) :
    ∃ s, WorkQueue.workQueueInit threadCount = some s ∧ Refines c s := by
  have hholds := holds_of_init h
  unfold workQueueInit at h
  unfold WorkQueue.workQueueInit
  split at h
  · exact absurd h (by simp)
  · next hcount =>
      obtain rfl := Option.some.inj h
      exact ⟨_, if_neg hcount, hholds, rfl⟩

/-- The runs of the queue of units are the runs of the pointers in which no unit is added twice,
whatever the memory of the units held at the beginning. The workers are at the same places, the same
units have been popped and started, and the pointers lead through the units in the queue. -/
theorem links_refine_queue (threadCount : ℤ) (next : α → Option α)
    (c : State threadCount.toNat α) (hinit : workQueueInit next threadCount = some c)
    (actions : List (Action threadCount.toNat α)) :
    ∃ s, WorkQueue.workQueueInit threadCount = some s ∧
      Option.Rel Refines (((system threadCount).restrict AddsOnce).run c actions)
        ((WorkQueue.system threadCount).run s actions) := by
  obtain ⟨s, hs, hrefines⟩ := refines_init hinit
  refine ⟨s, hs, System.rel_run ?_ hrefines actions⟩
  intro c s a h
  by_cases hadd : AddsOnce c a
  · rw [System.restrict_step_of_pos hadd]
    exact h.step hadd
  · rw [System.restrict_step_of_neg hadd]
    cases a with
    | add unit wake =>
        have hunit : unit ∈ s.added := by
          rw [h.2]
          exact not_not.mp hadd
        change Option.Rel Refines none (WorkQueue.workQueueAdd s unit wake)
        rw [WorkQueue.workQueueAdd, if_pos hunit]
        exact .none
    | lock _ | spuriousWakeUp _ | call _ | «return» _ | finalize => exact absurd trivial hadd

theorem sampleQueue_refines :
    ∃ s, WorkQueue.workQueueInit (α := ℕ) 1 = some s ∧
      Option.Rel Refines
        (((system 1).restrict AddsOnce).run sampleQueue
          [.add 1 none, .add 2 none, .lock ⟨0, by decide⟩])
        ((WorkQueue.system 1).run s [.add 1 none, .add 2 none, .lock ⟨0, by decide⟩]) :=
  links_refine_queue 1 _ sampleQueue sampleQueue_initial _

end Dynpm.WorkUnits
