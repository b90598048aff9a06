import Dynpm.Library.Links
import Dynpm.Model.WorkQueue

/-! # The links of the work units

Model of `src/network/queue.c` at the level of the pointers `work_units` of the queue and `next` of
the work units. Nothing keeps a caller of `dynpm_work_queue_add` from adding a unit that is still in
the queue, and the field `next` of a unit that is in no queue holds anything.
-/

namespace Dynpm.WorkUnits

open Library
open Dynpm.WorkQueue (Worker Action)

/-- The work queue and its workers, with the links of the units. -/
structure State (workers : ℕ) (α : Type) where
  next : α → Option α
  workUnits : Option α
  threadData : List (Fin workers)
  terminate : Fin workers → Bool
  worker : Fin workers → Worker α
  added : List α
  popped : List (Fin workers × α)
  started : List (Fin workers × α)
  finalized : Bool

variable {α : Type}

/-- `dynpm_work_queue_init`, where `next` is what the memory of the units holds. -/
def workQueueInit (next : α → Option α) (threadCount : ℤ) : Option (State threadCount.toNat α) :=
  if threadCount < 1 then none
  else some {
    next
    workUnits := none
    threadData := (List.finRange threadCount.toNat).reverse
    terminate := fun _ => false
    worker := fun _ => .atLock
    added := []
    popped := []
    started := []
    finalized := false }

variable {workers : ℕ}

/-- The units that can be reached from `work_units`. There are at most as many as have been
added. -/
def State.units (s : State workers α) : List α :=
  linkedObjects s.next s.added.length s.workUnits

variable [DecidableEq α]

/-- `queue_thread` from taking the mutex to releasing it. -/
def takeMutex (s : State workers α) (w : Fin workers) : State workers α :=
  if s.terminate w then { s with worker := Function.update s.worker w .exited }
  else
    match s.workUnits with
    | none => { s with worker := Function.update s.worker w .waiting }
    | some unit =>
        { s with
          workUnits := s.next unit
          next := Function.update s.next unit none
          worker := Function.update s.worker w (.popped unit)
          popped := s.popped ++ [(w, unit)] }

/-- The links that `dynpm_work_queue_add` sets: that of the tail, or `work_units`, and then that of
the unit. It does nothing if the walk to the tail does not end. -/
def linkUnit (s : State workers α) (unit : α) : Option (State workers α) :=
  match s.workUnits with
  | some current =>
      (lastLinked s.next s.added.length current).map fun tail =>
        { s with
          next := Function.update (Function.update s.next tail (some unit)) unit none
          added := s.added ++ [unit] }
  | none =>
      some { s with
        workUnits := some unit
        next := Function.update s.next unit none
        added := s.added ++ [unit] }

/-- `pthread_cond_signal`, which wakes the given worker, or none if none is waiting. -/
def signal (s : State workers α) (wake : Option (Fin workers)) : Option (State workers α) :=
  match wake with
  | some w =>
      if s.worker w = .waiting then
        some { s with worker := Function.update s.worker w .woken }
      else none
  | none => if ∃ w, s.worker w = .waiting then none else some s

/-- `dynpm_work_queue_add`. -/
def workQueueAdd (s : State workers α) (unit : α) (wake : Option (Fin workers)) :
    Option (State workers α) := do
  let s ← linkUnit s unit
  signal s wake

/-- `dynpm_work_queue_finalize`. -/
def workQueueFinalize (s : State workers α) : State workers α :=
  { s with
    terminate := fun w => s.threadData.contains w || s.terminate w
    workUnits := none
    threadData := []
    worker := fun w => if s.worker w = .waiting then .woken else s.worker w
    finalized := true }

def step (s : State workers α) : Action workers α → Option (State workers α)
  | .lock w =>
      if s.worker w = .atLock ∨ s.worker w = .woken then some (takeMutex s w) else none
  | .spuriousWakeUp w =>
      if s.worker w = .waiting then
        some { s with worker := Function.update s.worker w .woken }
      else none
  | .call w =>
      match s.worker w with
      | .popped unit =>
          some { s with
            worker := Function.update s.worker w (.running unit)
            started := s.started ++ [(w, unit)] }
      | _ => none
  | .return w =>
      match s.worker w with
      | .running _ => some { s with worker := Function.update s.worker w .atLock }
      | _ => none
  | .add unit wake => workQueueAdd s unit wake
  | .finalize => some (workQueueFinalize s)

/-- The queue after an initialisation that succeeded, whatever the memory of the units holds. -/
def system (threadCount : ℤ) :
    System (State threadCount.toNat α) (Action threadCount.toNat α) where
  initial s := ∃ next, workQueueInit next threadCount = some s
  step := step

/-- Units leave the queue in the order in which they were added, until the queue is finalised. -/
def State.Fifo (s : State workers α) : Prop :=
  s.finalized = true ∨ s.popped.map Prod.snd ++ s.units = s.added

/-- A unit is only added to the queue while it is not in it. -/
def AddsUnlinked (s : State workers α) : Action workers α → Prop
  | .add unit _ => s.finalized = true ∨ unit ∉ s.units
  | _ => True

instance (s : State workers α) : ∀ a, Decidable (AddsUnlinked s a)
  | .add unit _ => inferInstanceAs (Decidable (s.finalized = true ∨ unit ∉ s.units))
  | .lock _ | .spuriousWakeUp _ | .call _ | .return _ | .finalize =>
      inferInstanceAs (Decidable True)

/-- A unit is added to the queue at most once. -/
def AddsOnce (s : State workers α) : Action workers α → Prop
  | .add unit _ => unit ∉ s.added
  | _ => True

instance (s : State workers α) : ∀ a, Decidable (AddsOnce s a)
  | .add unit _ => inferInstanceAs (Decidable (unit ∉ s.added))
  | .lock _ | .spuriousWakeUp _ | .call _ | .return _ | .finalize =>
      inferInstanceAs (Decidable True)

end Dynpm.WorkUnits
