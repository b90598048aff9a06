import Dynpm.Library.Transition
import Dynpm.Model.TbonVertex

/-! # Timed waits on a vertex

Model of `_create_time_offset` and of the three functions of `src/network/tbon.c` that wait on a
condition variable of a vertex. The system clock counts nanoseconds. Other threads change the
vertex while they hold its mutex and signal whenever they like, and a wait may be woken up for no
reason at all.
-/

namespace Dynpm.Tbon

open Library

/-! ## Times -/

/-- `struct timeval`. -/
structure Timeval where
  tvSec : ℤ
  tvUsec : ℤ
  deriving DecidableEq

/-- `struct timespec`. -/
structure Timespec where
  tvSec : ℤ
  tvNsec : ℤ
  deriving DecidableEq

/-- What the two structures denote, in nanoseconds. -/
def Timeval.nanoseconds (now : Timeval) : ℤ := now.tvSec * 10 ^ 9 + now.tvUsec * 10 ^ 3

def Timespec.nanoseconds (time : Timespec) : ℤ := time.tvSec * 10 ^ 9 + time.tvNsec

/-- `pthread_cond_timedwait` returns `EINVAL` for any other time. -/
def Timespec.Valid (time : Timespec) : Prop := 0 ≤ time.tvNsec ∧ time.tvNsec < 10 ^ 9

instance (time : Timespec) : Decidable time.Valid := inferInstanceAs (Decidable (_ ∧ _))

/-- `gettimeofday`. -/
def gettimeofday (clock : ℤ) : Timeval := ⟨clock / 10 ^ 9, clock % 10 ^ 9 / 10 ^ 3⟩

/-- `_create_time_offset`, called at the given time. -/
def createTimeOffset (now : Timeval) (seconds nanoseconds : ℤ) : Except Fault Timespec := do
  let tvSec ← CLong.add now.tvSec seconds
  let tvNsec ← CLong.add now.tvUsec nanoseconds
  return ⟨tvSec, tvNsec⟩

/-! ## The three waits -/

/-- What distinguishes the three functions: whether the function returns before it locks the
mutex, and whether the condition holds for which it waits otherwise. -/
structure TimedWait where
  skips : Vertex → Bool
  met : Vertex → Bool

/-- `dynpm_tbon_children_done_wait_timeout`, which does not wait on a leaf. -/
def tbonChildrenDoneWaitTimeout : TimedWait where
  skips vertex := ¬ 0 < vertex.totalChildren
  met vertex := ¬ vertex.childrenDone < vertex.totalChildren

/-- `dynpm_tbon_finalized_wait_timeout`. -/
def tbonFinalizedWaitTimeout : TimedWait where
  skips _ := false
  met vertex := vertex.finalized

/-- `dynpm_tbon_initialized_wait_timeout`. -/
def tbonInitializedWaitTimeout : TimedWait where
  skips _ := false
  met vertex := vertex.initialized

/-- Where a call is. It holds the mutex only when it is about to leave. -/
inductive WaitPc where
  | start
  | locking
  /-- In `pthread_cond_timedwait`, which has released the mutex. -/
  | waiting (deadline : Timespec)
  /-- In `pthread_cond_timedwait`, which is about to lock the mutex again. -/
  | woken (deadline : Timespec)
  | leaving (deadline : Timespec)
  | returned
  /-- The deadline could not be computed. -/
  | faulted
  deriving DecidableEq

/-- The vertex, the clock and the call. -/
structure Waiting where
  vertex : Vertex
  clock : ℤ
  pc : WaitPc

/-- The call goes on; another thread changes what the three functions wait for, or signals the
condition variable; the wait is woken up for no reason; time passes. -/
inductive WaitEvent where
  | advance
  | update (childrenDone : ℤ) (initialized finalized : Bool)
  | signal
  | spurious
  | elapse (time : ℕ)

namespace Waiting

/-- The mutex has been locked: the deadline is computed, and the call waits if it has to. -/
def checkAndWait (wait : TimedWait) (seconds nanoseconds : ℤ) (s : Waiting) : Waiting :=
  match createTimeOffset (gettimeofday s.clock) seconds nanoseconds with
  | .error _ => { s with pc := .faulted }
  | .ok deadline =>
      if wait.met s.vertex then { s with pc := .leaving deadline }
      else if deadline.Valid then { s with pc := .waiting deadline }
      else { s with pc := .leaving deadline }

/-- The next step of the call, unless it is blocked or has ended. -/
def advance (wait : TimedWait) (seconds nanoseconds : ℤ) (s : Waiting) : Option Waiting :=
  match s.pc with
  | .start => some { s with pc := if wait.skips s.vertex then .returned else .locking }
  | .locking => some (s.checkAndWait wait seconds nanoseconds)
  -- `ETIMEDOUT`
  | .waiting deadline =>
      if deadline.nanoseconds ≤ s.clock then some { s with pc := .woken deadline } else none
  | .woken deadline => some { s with pc := .leaving deadline }
  | .leaving _ => some { s with pc := .returned }
  | .returned | .faulted => none

/-- A wake-up reaches the call if it waits. -/
def wake (s : Waiting) : Waiting :=
  match s.pc with
  | .waiting deadline => { s with pc := .woken deadline }
  | _ => s

/-- Another thread changes the vertex, for which it needs the mutex. -/
def update (childrenDone : ℤ) (initialized finalized : Bool) (s : Waiting) : Option Waiting :=
  match s.pc with
  | .leaving _ => none
  | _ => some { s with vertex := { s.vertex with childrenDone, initialized, finalized } }

def step (wait : TimedWait) (seconds nanoseconds : ℤ) (s : Waiting) : WaitEvent → Option Waiting
  | .advance => s.advance wait seconds nanoseconds
  | .update childrenDone initialized finalized => s.update childrenDone initialized finalized
  | .signal | .spurious => some s.wake
  | .elapse time => some { s with clock := s.clock + time }

end Waiting

/-- One call on any vertex at any time, in every interleaving with the other threads. -/
def waitSystem (wait : TimedWait) (seconds nanoseconds : ℤ) : System Waiting WaitEvent where
  initial s := s.pc = .start
  step := Waiting.step wait seconds nanoseconds

end Dynpm.Tbon
