import Dynpm.Model.WorkQueue

/-! # Delivery of the work units

Until the queue is finalised, the units popped and the units still linked are the units added,
in order. A worker waits only when there is no unit, and every unit added wakes a worker that
waits, so that a unit never stays behind while all workers wait.
-/

namespace Dynpm.WorkQueue

open Library

variable {workers : ℕ} {α : Type}

/-- The units recorded for a worker. -/
def unitsOf (w : Fin workers) (records : List (Fin workers × α)) : List α :=
  (records.filter fun record => record.1 = w).map Prod.snd

theorem unitsOf_append (w v : Fin workers) (records : List (Fin workers × α)) (unit : α) :
    unitsOf w (records ++ [(v, unit)]) =
      unitsOf w records ++ if v = w then [unit] else [] := by
  by_cases h : v = w <;> simp [unitsOf, h]

structure Invariant (s : State workers α) : Prop where
  size_pos : 0 < workers
  fifo : s.finalized = false → s.popped.map Prod.snd ++ s.workUnits = s.added
  popped_front : s.popped.map Prod.snd <+: s.added
  added_nodup : s.added.Nodup
  pops : ∀ w, unitsOf w s.popped = unitsOf w s.started ++ (s.worker w).pending
  awake : s.workUnits ≠ [] → ∃ w, s.worker w ≠ .waiting
  linked : s.finalized = false → ∀ w, w ∈ s.threadData
  terminated : s.finalized = true → ∀ w, s.terminate w = true ∧ s.worker w ≠ .waiting

variable {s t : State workers α} {w : Fin workers}

theorem invariant_init {threadCount : ℤ} {s : State threadCount.toNat α}
    (h : workQueueInit threadCount = some s) : Invariant s := by
  unfold workQueueInit at h
  split at h
  · exact absurd h (by simp)
  · obtain rfl := Option.some.inj h
    exact ⟨by omega, fun _ => rfl, List.nil_prefix, List.nodup_nil, fun _ => rfl,
      fun hne => absurd rfl hne, fun _ w => List.mem_reverse.mpr (List.mem_finRange w),
      fun hfalse => absurd hfalse (by simp)⟩

theorem finalized_init {threadCount : ℤ} {s : State threadCount.toNat α}
    (h : workQueueInit threadCount = some s) : s.finalized = false := by
  unfold workQueueInit at h
  split at h
  · exact absurd h (by simp)
  · obtain rfl := Option.some.inj h
    rfl

/-! ## One step -/

/-- A worker that moves between two places at neither of which it owes a call. -/
theorem Invariant.pops_update (h : Invariant s) {place : Worker α}
    (hbefore : (s.worker w).pending = []) (hafter : place.pending = []) :
    ∀ v, unitsOf v s.popped =
      unitsOf v s.started ++ (Function.update s.worker w place v).pending := by
  intro v
  by_cases hv : v = w
  · subst hv
    rw [Function.update_self, hafter, ← hbefore]
    exact h.pops v
  · rw [Function.update_of_ne hv]
    exact h.pops v

/-- A worker that moves to a place where it does not wait. -/
theorem Invariant.terminated_update (h : Invariant s) {place : Worker α}
    (hplace : place ≠ .waiting) (hfinalized : s.finalized = true) :
    ∀ v, s.terminate v = true ∧ Function.update s.worker w place v ≠ .waiting := by
  intro v
  refine ⟨(h.terminated hfinalized v).1, ?_⟩
  by_cases hv : v = w
  · subst hv
    rwa [Function.update_self]
  · rw [Function.update_of_ne hv]
    exact (h.terminated hfinalized v).2

theorem exists_awake_update {place : Worker α} (hplace : place ≠ .waiting) :
    ∃ v, Function.update s.worker w place v ≠ .waiting :=
  ⟨w, by rwa [Function.update_self]⟩

/-- A worker moves without touching the queue. -/
theorem Invariant.move (h : Invariant s) {place : Worker α}
    (hbefore : (s.worker w).pending = []) (hafter : place.pending = [])
    (hplace : place ≠ .waiting) :
    Invariant { s with worker := Function.update s.worker w place } :=
  ⟨h.size_pos, h.fifo, h.popped_front, h.added_nodup, h.pops_update hbefore hafter,
    fun _ => exists_awake_update hplace, h.linked, h.terminated_update hplace⟩

theorem Invariant.lock (h : Invariant s) (hw : s.worker w = .atLock ∨ s.worker w = .woken) :
    Invariant (takeMutex s w) := by
  have hpending : (s.worker w).pending = [] := by
    rcases hw with hw | hw
    · rw [hw]
      rfl
    · rw [hw]
      rfl
  unfold takeMutex
  split
  · exact h.move hpending rfl (by simp)
  · next hterminate =>
      have hrunning : s.finalized = false := by
        by_contra hfinalized
        exact hterminate (h.terminated (by simpa using hfinalized) w).1
      split
      · next hempty =>
          exact ⟨h.size_pos, h.fifo, h.popped_front, h.added_nodup, h.pops_update hpending rfl,
            fun hne => absurd hempty hne, h.linked,
            fun hfinalized => absurd (hrunning.symm.trans hfinalized) (by simp)⟩
      · next unit rest hunits =>
          have hfifo : (s.popped ++ [(w, unit)]).map Prod.snd ++ rest = s.added := by
            have hfifo := h.fifo hrunning
            rw [hunits] at hfifo
            simpa using hfifo
          refine ⟨h.size_pos, fun _ => hfifo, ⟨rest, hfifo⟩, h.added_nodup, ?_,
            fun _ => exists_awake_update (by simp), h.linked,
            fun hfinalized => absurd (hrunning.symm.trans hfinalized) (by simp)⟩
          intro v
          have hpops := h.pops v
          simp only [unitsOf_append]
          by_cases hv : v = w
          · subst hv
            rw [hpending, List.append_nil] at hpops
            rw [Function.update_self, hpops, if_pos rfl]
            rfl
          · rw [Function.update_of_ne hv, if_neg (Ne.symm hv), List.append_nil]
            exact hpops

theorem Invariant.call (h : Invariant s) {unit : α} (hw : s.worker w = .popped unit) :
    Invariant { s with
      worker := Function.update s.worker w (.running unit)
      started := s.started ++ [(w, unit)] } := by
  refine ⟨h.size_pos, h.fifo, h.popped_front, h.added_nodup, ?_,
    fun _ => exists_awake_update (by simp), h.linked, h.terminated_update (by simp)⟩
  intro v
  have hpops := h.pops v
  simp only [unitsOf_append]
  by_cases hv : v = w
  · subst hv
    rw [hw] at hpops
    rw [Function.update_self, hpops, if_pos rfl]
    simp [Worker.pending]
  · rw [Function.update_of_ne hv, if_neg (Ne.symm hv), List.append_nil]
    exact hpops

variable [DecidableEq α]

/-- What `dynpm_work_queue_add` does: it appends a fresh unit and wakes a worker that waits,
unless none does. -/
theorem workQueueAdd_cases {unit : α} {wake : Option (Fin workers)}
    (hstep : workQueueAdd s unit wake = some t) :
    unit ∉ s.added ∧
      ((∃ w, s.worker w = .waiting ∧
        t = { s with
          workUnits := s.workUnits ++ [unit]
          added := s.added ++ [unit]
          worker := Function.update s.worker w .woken }) ∨
      ((∀ w, s.worker w ≠ .waiting) ∧
        t = { s with workUnits := s.workUnits ++ [unit], added := s.added ++ [unit] })) := by
  unfold workQueueAdd at hstep
  split at hstep
  · exact absurd hstep (by simp)
  · next hfresh =>
      refine ⟨hfresh, ?_⟩
      cases wake with
      | some w =>
          simp only at hstep
          split at hstep
          · next hw => exact Or.inl ⟨w, hw, (Option.some.inj hstep).symm⟩
          · exact absurd hstep (by simp)
      | none =>
          simp only at hstep
          split at hstep
          · exact absurd hstep (by simp)
          · next hnone =>
              exact Or.inr ⟨fun w hw => hnone ⟨w, hw⟩, (Option.some.inj hstep).symm⟩

theorem Invariant.add (h : Invariant s) {unit : α} {wake : Option (Fin workers)}
    (hstep : workQueueAdd s unit wake = some t) : Invariant t := by
  obtain ⟨hfresh, hcases⟩ := workQueueAdd_cases hstep
  have hfifo : s.finalized = false →
      s.popped.map Prod.snd ++ (s.workUnits ++ [unit]) = s.added ++ [unit] := by
    intro hfinalized
    rw [← List.append_assoc, h.fifo hfinalized]
  have hfront : s.popped.map Prod.snd <+: s.added ++ [unit] :=
    h.popped_front.trans (List.prefix_append _ _)
  have hnodup : (s.added ++ [unit]).Nodup := by
    rw [List.nodup_append]
    refine ⟨h.added_nodup, List.nodup_singleton _, ?_⟩
    intro u hu v hv heq
    rw [heq, List.mem_singleton.mp hv] at hu
    exact hfresh hu
  rcases hcases with ⟨w, hw, rfl⟩ | ⟨hnone, rfl⟩
  · exact ⟨h.size_pos, hfifo, hfront, hnodup, h.pops_update (by rw [hw]; rfl) rfl,
      fun _ => exists_awake_update (by simp), h.linked, h.terminated_update (by simp)⟩
  · -- nobody waits, and there is at least one worker
    exact ⟨h.size_pos, hfifo, hfront, hnodup, h.pops, fun _ => ⟨⟨0, h.size_pos⟩, hnone _⟩,
      h.linked, h.terminated⟩

theorem Invariant.finalize (h : Invariant s) : Invariant (workQueueFinalize s) := by
  have hfinalized : (workQueueFinalize s).finalized ≠ false := by simp [workQueueFinalize]
  refine ⟨h.size_pos, fun hfalse => absurd hfalse hfinalized, h.popped_front, h.added_nodup, ?_,
    fun hne => absurd rfl hne, fun hfalse => absurd hfalse hfinalized, ?_⟩
  · intro v
    have hpops := h.pops v
    simp only [workQueueFinalize]
    split
    · next hv =>
        rw [hv] at hpops
        exact hpops
    · exact hpops
  · intro _ v
    simp only [workQueueFinalize]
    constructor
    · split
      · rfl
      · next hv =>
          cases hfinalized : s.finalized with
          | false => exact absurd (h.linked hfinalized v) hv
          | true => exact (h.terminated hfinalized v).1
    · split
      · simp
      · next hv => exact hv

/-- What a step can do: a worker takes the mutex, moves without touching the queue or calls the
function of its unit, or one of the two functions of the queue is called. -/
theorem step_cases {a : Action workers α} (hstep : step s a = some t) :
    (∃ w, (s.worker w = .atLock ∨ s.worker w = .woken) ∧ t = takeMutex s w) ∨
    (∃ w place, (s.worker w).pending = [] ∧ place.pending = [] ∧ place ≠ .waiting ∧
      t = { s with worker := Function.update s.worker w place }) ∨
    (∃ w unit, a = .call w ∧ s.worker w = .popped unit ∧
      t = { s with
        worker := Function.update s.worker w (.running unit)
        started := s.started ++ [(w, unit)] }) ∨
    (∃ unit wake, a = .add unit wake ∧ workQueueAdd s unit wake = some t) ∨
    t = workQueueFinalize s := by
  cases a with
  | lock w =>
      simp only [step] at hstep
      split at hstep
      · next hw => exact Or.inl ⟨w, hw, (Option.some.inj hstep).symm⟩
      · exact absurd hstep (by simp)
  | spuriousWakeUp w =>
      simp only [step] at hstep
      split at hstep
      · next hw =>
          refine Or.inr (Or.inl ⟨w, .woken, ?_, rfl, by simp, (Option.some.inj hstep).symm⟩)
          rw [hw]
          rfl
      · exact absurd hstep (by simp)
  | call w =>
      simp only [step] at hstep
      split at hstep
      · next unit hw =>
          exact Or.inr (Or.inr (Or.inl ⟨w, unit, rfl, hw, (Option.some.inj hstep).symm⟩))
      · exact absurd hstep (by simp)
  | «return» w =>
      simp only [step] at hstep
      split at hstep
      · next unit hw =>
          refine Or.inr (Or.inl ⟨w, .atLock, ?_, rfl, by simp, (Option.some.inj hstep).symm⟩)
          rw [hw]
          rfl
      · exact absurd hstep (by simp)
  | add unit wake => exact Or.inr (Or.inr (Or.inr (Or.inl ⟨unit, wake, rfl, hstep⟩)))
  | finalize => exact Or.inr (Or.inr (Or.inr (Or.inr (Option.some.inj hstep).symm)))

theorem Invariant.step (h : Invariant s) {a : Action workers α}
    (hstep : step s a = some t) : Invariant t := by
  rcases step_cases hstep with ⟨w, hw, rfl⟩ | ⟨w, place, hbefore, hafter, hplace, rfl⟩ |
    ⟨w, unit, _, hw, rfl⟩ | ⟨unit, wake, _, hadd⟩ | rfl
  · exact h.lock hw
  · exact h.move hbefore hafter hplace
  · exact h.call hw
  · exact h.add hadd
  · exact h.finalize

/-! ## Whole runs -/

/-- After the finalisation a step pops no unit. -/
theorem Invariant.popped_of_finalized (h : Invariant s) (hfinalized : s.finalized = true)
    {a : Action workers α} (hstep : WorkQueue.step s a = some t) :
    t.finalized = true ∧ t.popped = s.popped := by
  rcases step_cases hstep with ⟨w, _, rfl⟩ | ⟨_, _, _, _, _, rfl⟩ | ⟨_, _, _, _, rfl⟩ |
    ⟨unit, wake, _, hadd⟩ | rfl
  · rw [takeMutex, if_pos (h.terminated hfinalized w).1]
    exact ⟨hfinalized, rfl⟩
  · exact ⟨hfinalized, rfl⟩
  · exact ⟨hfinalized, rfl⟩
  · rcases (workQueueAdd_cases hadd).2 with ⟨_, _, rfl⟩ | ⟨_, rfl⟩
    · exact ⟨hfinalized, rfl⟩
    · exact ⟨hfinalized, rfl⟩
  · exact ⟨rfl, rfl⟩

/-- After the finalisation no run pops a unit or leaves a worker waiting. -/
theorem Invariant.run_of_finalized {threadCount : ℤ} {s t : State threadCount.toNat α}
    (h : Invariant s) (hfinalized : s.finalized = true)
    {actions : List (Action threadCount.toNat α)}
    (hrun : (system threadCount).run s actions = some t) :
    t.popped = s.popped ∧ ∀ w, t.worker w ≠ .waiting := by
  induction actions generalizing s with
  | nil =>
      obtain rfl := Option.some.inj hrun
      exact ⟨rfl, fun w => (h.terminated hfinalized w).2⟩
  | cons a actions ih =>
      obtain ⟨u, hstep, hrun⟩ := Option.bind_eq_some_iff.mp hrun
      obtain ⟨hfinalized', hpopped⟩ := h.popped_of_finalized hfinalized hstep
      obtain ⟨hpopped', hawake⟩ := ih (h.step hstep) hfinalized' hrun
      exact ⟨hpopped'.trans hpopped, hawake⟩

/-- Only the finalisation ends the queue. -/
theorem finalized_of_step {a : Action workers α} (ha : a ≠ .finalize)
    (hstep : WorkQueue.step s a = some t) : t.finalized = s.finalized := by
  cases a with
  | lock w =>
      obtain ⟨_, hstep⟩ := Option.ite_none_right_eq_some.mp hstep
      obtain rfl := Option.some.inj hstep
      unfold takeMutex
      split
      · rfl
      · split
        · rfl
        · rfl
  | spuriousWakeUp w =>
      obtain ⟨_, hstep⟩ := Option.ite_none_right_eq_some.mp hstep
      obtain rfl := Option.some.inj hstep
      rfl
  | add unit wake =>
      rcases (workQueueAdd_cases hstep).2 with ⟨_, _, rfl⟩ | ⟨_, rfl⟩
      · rfl
      · rfl
  | finalize => exact absurd rfl ha
  | _ =>
      simp only [WorkQueue.step] at hstep
      split at hstep
      · obtain rfl := Option.some.inj hstep
        rfl
      · exact absurd hstep (by simp)

theorem finalized_of_run {threadCount : ℤ} {s t : State threadCount.toNat α}
    {actions : List (Action threadCount.toNat α)} (hnone : .finalize ∉ actions)
    (hrun : (system threadCount).run s actions = some t) : t.finalized = s.finalized := by
  induction actions generalizing s with
  | nil =>
      obtain rfl := Option.some.inj hrun
      rfl
  | cons a actions ih =>
      obtain ⟨u, hstep, hrun⟩ := Option.bind_eq_some_iff.mp hrun
      obtain ⟨hne, hnone⟩ := not_or.mp (List.mem_cons.not.mp hnone)
      exact (ih hnone hrun).trans (finalized_of_step (Ne.symm hne) hstep)

/-- A run that has been finalised at some point ends with the units popped before. -/
theorem Invariant.run_of_finalize {threadCount : ℤ} {s t : State threadCount.toNat α}
    (h : Invariant s) {front more : List (Action threadCount.toNat α)}
    (hrun : (system threadCount).run s (front ++ .finalize :: more) = some t) :
    ∃ u, (system threadCount).run s front = some u ∧ t.popped = u.popped ∧
      ∀ w, t.worker w ≠ .waiting := by
  rw [System.run_append] at hrun
  obtain ⟨u, hu, hrun⟩ := Option.bind_eq_some_iff.mp hrun
  have hinv : Invariant u := System.invariant_of_run (fun s a t h hstep => h.step hstep) h hu
  exact ⟨u, hu, hinv.finalize.run_of_finalized rfl hrun⟩

/-- In every run until the finalisation the units popped and those still linked are the units added,
in order. In every run no unit is popped twice, each worker calls the units it has popped, in order,
and owes at most the call of the last one, and the workers do not all wait while there is a unit.
After a finalisation no worker pops a unit or waits. -/
theorem work_queue_delivers_once (threadCount : ℤ) (s t : State threadCount.toNat α)
    (hinit : workQueueInit threadCount = some s) (actions : List (Action threadCount.toNat α))
    (hrun : (system threadCount).run s actions = some t) :
    (.finalize ∉ actions → t.popped.map Prod.snd ++ t.workUnits = t.added) ∧
      (t.popped.map Prod.snd).Nodup ∧
      (∀ w, unitsOf w t.popped = unitsOf w t.started ++ (t.worker w).pending) ∧
      (t.workUnits ≠ [] → ∃ w, t.worker w ≠ .waiting) ∧
      ∀ front more, actions = front ++ .finalize :: more →
        ∃ u, (system threadCount).run s front = some u ∧ t.popped = u.popped ∧
          ∀ w, t.worker w ≠ .waiting := by
  have hs : Invariant s := invariant_init hinit
  have h : Invariant t := System.invariant_of_run (fun s a t h hstep => h.step hstep) hs hrun
  refine ⟨?_, h.added_nodup.sublist h.popped_front.sublist, h.pops, h.awake, ?_⟩
  · intro hnone
    apply h.fifo
    rw [finalized_of_run hnone hrun]
    exact finalized_init hinit
  · rintro front more rfl
    exact hs.run_of_finalize hrun

/-- Two workers wait, and one of them is woken by a unit and calls it. -/
def sampleFront : List (Action (2 : ℤ).toNat ℕ) :=
  [.lock ⟨0, by decide⟩, .lock ⟨1, by decide⟩, .add 7 (some ⟨0, by decide⟩), .lock ⟨0, by decide⟩,
    .call ⟨0, by decide⟩]

/-- The other one still waits when the queue is finalised. Both find that they have been told to
terminate, and a unit that comes too late stays in the queue. -/
def sampleMore : List (Action (2 : ℤ).toNat ℕ) :=
  [.lock ⟨1, by decide⟩, .add 8 none, .return ⟨0, by decide⟩, .lock ⟨0, by decide⟩]

theorem sampleRun_delivers_once :
    ∃ s t u, workQueueInit 2 = some s ∧
      (system 2).run s (sampleFront ++ .finalize :: sampleMore) = some t ∧
      t.popped = [(⟨0, by decide⟩, 7)] ∧ t.started = [(⟨0, by decide⟩, 7)] ∧ t.workUnits = [8] ∧
      (system 2).run s sampleFront = some u ∧ u.worker ⟨1, by decide⟩ = .waiting ∧
      t.popped = u.popped ∧ ∀ w, t.worker w ≠ .waiting := by
  have hrun : ((workQueueInit 2).bind fun s =>
      (system 2).run s (sampleFront ++ .finalize :: sampleMore)).map (fun t =>
        (t.popped, t.started, t.workUnits)) =
      some ([(⟨0, by decide⟩, 7)], [(⟨0, by decide⟩, 7)], [8]) := by decide
  obtain ⟨t, ht, hvalues⟩ := Option.map_eq_some_iff.mp hrun
  obtain ⟨s, hs, ht⟩ := Option.bind_eq_some_iff.mp ht
  simp only [Prod.mk.injEq] at hvalues
  obtain ⟨hpopped, hstarted, hunits⟩ := hvalues
  obtain ⟨_, _, _, _, hfinalize⟩ := work_queue_delivers_once 2 s t hs _ ht
  obtain ⟨u, hu, hsame, hawake⟩ := hfinalize sampleFront sampleMore rfl
  have hwaiting : ((workQueueInit 2).bind fun s => (system 2).run s sampleFront).map (fun u =>
      u.worker ⟨1, by decide⟩) = some .waiting := by decide
  rw [hs, Option.bind_some, hu, Option.map_some] at hwaiting
  exact ⟨s, t, u, hs, ht, hpopped, hstarted, hunits, hu, Option.some.inj hwaiting, hsame, hawake⟩

end Dynpm.WorkQueue
