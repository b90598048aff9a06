import Dynpm.Library.Transition
import Mathlib.Data.Fintype.Basic
import Mathlib.Data.List.FinRange
import Mathlib.Data.Int.Notation

/-! # The work queue of the thread pool

Model of `src/network/queue.c`. Every section between locking and unlocking the queue mutex is
one step. `pthread_cond_wait` releases the mutex with the same step in which it blocks, and a
worker that is woken up takes the mutex again before it re-examines the queue.
-/

namespace Dynpm.WorkQueue

open Library

/-- Where a worker is in `queue_thread`. -/
inductive Worker (α : Type) where
  /-- About to lock the mutex at the beginning of the loop. -/
  | atLock
  /-- Blocked in `pthread_cond_wait`. -/
  | waiting
  /-- Woken up, about to lock the mutex again. -/
  | woken
  /-- The unit has been popped, its function has not been called yet. -/
  | popped (unit : α)
  /-- In the function of the unit. -/
  | running (unit : α)
  | exited
  deriving DecidableEq

/-- The unit whose function a worker still has to call. -/
def Worker.pending {α : Type} : Worker α → List α
  | .popped unit => [unit]
  | _ => []

/-- The work queue and its workers. `threadData` lists the workers that
`dynpm_work_queue_finalize` finds. The units added, popped and started, with the worker that did
so, are recorded in order, and `finalized` records the first finalisation. -/
structure State (workers : ℕ) (α : Type) where
  workUnits : List α
  threadData : List (Fin workers)
  terminate : Fin workers → Bool
  worker : Fin workers → Worker α
  added : List α
  popped : List (Fin workers × α)
  started : List (Fin workers × α)
  finalized : Bool

variable {α : Type}

/-- `dynpm_work_queue_init`, unless it refuses the number of threads. Each worker is linked in
front of the workers before it. -/
def workQueueInit (threadCount : ℤ) : Option (State threadCount.toNat α) :=
  if threadCount < 1 then none
  else some {
    workUnits := []
    threadData := (List.finRange threadCount.toNat).reverse
    terminate := fun _ => false
    worker := fun _ => .atLock
    added := []
    popped := []
    started := []
    finalized := false }

variable {workers : ℕ} [DecidableEq α]

/-- The worker takes the mutex, at the beginning of the loop or on its return from waiting. It
leaves when it has been told to terminate, waits when there is no unit, and otherwise pops the
first unit. -/
def takeMutex (s : State workers α) (w : Fin workers) : State workers α :=
  if s.terminate w then { s with worker := Function.update s.worker w .exited }
  else
    match s.workUnits with
    | [] => { s with worker := Function.update s.worker w .waiting }
    | unit :: rest =>
        { s with
          workUnits := rest
          worker := Function.update s.worker w (.popped unit)
          popped := s.popped ++ [(w, unit)] }

/-- `dynpm_work_queue_add` for a unit that is in no queue. Its signal wakes the given worker, or
none if none is waiting. -/
def workQueueAdd (s : State workers α) (unit : α) (wake : Option (Fin workers)) :
    Option (State workers α) :=
  if unit ∈ s.added then none
  else
    let s := { s with workUnits := s.workUnits ++ [unit], added := s.added ++ [unit] }
    match wake with
    | some w =>
        if s.worker w = .waiting then
          some { s with worker := Function.update s.worker w .woken }
        else none
    | none => if ∃ w, s.worker w = .waiting then none else some s

/-- `dynpm_work_queue_finalize`. -/
def workQueueFinalize (s : State workers α) : State workers α :=
  { s with
    terminate := fun w => if w ∈ s.threadData then true else s.terminate w
    workUnits := []
    threadData := []
    worker := fun w => if s.worker w = .waiting then .woken else s.worker w
    finalized := true }

/-- The sections of the workers and of the callers. -/
inductive Action (workers : ℕ) (α : Type) where
  | lock (w : Fin workers)
  | spuriousWakeUp (w : Fin workers)
  | call (w : Fin workers)
  | return (w : Fin workers)
  | add (unit : α) (wake : Option (Fin workers))
  | finalize

def step (s : State workers α) : Action workers α → Option (State workers α)
  | .lock w =>
      if s.worker w = .atLock ∨ s.worker w = .woken then some (takeMutex s w) else none
  | .spuriousWakeUp w =>
      if s.worker w = .waiting then
        some { s with worker := Function.update s.worker w .woken }
      else none
  | .call w =>
      match s.worker w with
      | .popped unit =>
          some { s with
            worker := Function.update s.worker w (.running unit)
            started := s.started ++ [(w, unit)] }
      | _ => none
  | .return w =>
      match s.worker w with
      | .running _ => some { s with worker := Function.update s.worker w .atLock }
      | _ => none
  | .add unit wake => workQueueAdd s unit wake
  | .finalize => some (workQueueFinalize s)

/-- The queue after an initialisation that succeeded. -/
def system (threadCount : ℤ) :
    System (State threadCount.toNat α) (Action threadCount.toNat α) where
  initial s := workQueueInit threadCount = some s
  step := step

end Dynpm.WorkQueue
