import Dynpm.Model.TbonWait

/-! # Timed waits on a vertex

`_create_time_offset` adds microseconds to nanoseconds, and the three waits call
`pthread_cond_timedwait` once. The deadline is right only at full seconds, and a wake-up ends a
wait whether or not there is a reason to.
-/

namespace Dynpm.Tbon

open Library

/-! ## The three functions -/

/-- The functions that wait on a vertex. -/
inductive VertexWait where
  | childrenDone
  | initialized
  | finalized
  deriving DecidableEq

namespace VertexWait

def function : VertexWait → TimedWait
  | .childrenDone => tbonChildrenDoneWaitTimeout
  | .initialized => tbonInitializedWaitTimeout
  | .finalized => tbonFinalizedWaitTimeout

/-- What the callers of a function wait for. -/
def Predicate : VertexWait → Vertex → Prop
  | .childrenDone, vertex => vertex.totalChildren ≤ vertex.childrenDone
  | .initialized, vertex => vertex.initialized = true
  | .finalized, vertex => vertex.finalized = true

instance (wait : VertexWait) (vertex : Vertex) : Decidable (wait.Predicate vertex) :=
  match wait with
  | .childrenDone => inferInstanceAs (Decidable (_ ≤ _))
  | .initialized => inferInstanceAs (Decidable (_ = true))
  | .finalized => inferInstanceAs (Decidable (_ = true))

theorem met_iff (wait : VertexWait) (vertex : Vertex) :
    wait.function.met vertex = true ↔ wait.Predicate vertex := by
  cases wait with
  | childrenDone => simp [function, tbonChildrenDoneWaitTimeout, Predicate]
  | initialized => exact Iff.rfl
  | finalized => exact Iff.rfl

end VertexWait

/-! ## Deadlines -/

/-- The time for which the caller asks. -/
def requested (now : Timeval) (seconds nanoseconds : ℤ) : ℤ :=
  now.nanoseconds + seconds * 10 ^ 9 + nanoseconds

/-- The deadline computed at the given time is valid and the one requested. The waits that begin at
this time do not fail, and they do not time out before. -/
structure DeadlineExact (now : Timeval) (seconds nanoseconds : ℤ) : Prop where
  deadline : ∃ time, createTimeOffset now seconds nanoseconds = .ok time ∧ time.Valid ∧
    time.nanoseconds = requested now seconds nanoseconds
  waits : ∀ (wait : VertexWait) (s : Waiting), s.pc = .locking → gettimeofday s.clock = now →
    ¬ wait.Predicate s.vertex →
    ∃ time, s.advance wait.function seconds nanoseconds = some { s with pc := .waiting time } ∧
      ∀ t : Waiting, t.pc = .waiting time → t.clock < requested now seconds nanoseconds →
        t.advance wait.function seconds nanoseconds = none

section

variable {now : Timeval} {seconds nanoseconds : ℤ}

/-- The microseconds of the clock are taken for nanoseconds. -/
theorem createTimeOffset_eq {time : Timespec}
    (h : createTimeOffset now seconds nanoseconds = .ok time) :
    time = ⟨now.tvSec + seconds, now.tvUsec + nanoseconds⟩ ∧ now.tvSec + seconds < 2 ^ 63 := by
  obtain ⟨tvSec, hsec, h⟩ := bind_eq_ok h
  obtain ⟨tvNsec, hnsec, h⟩ := bind_eq_ok h
  rw [CLong.add] at hsec hnsec
  split at hsec
  · next hbounds =>
      split at hnsec
      · rw [← Except.ok.inj h, ← Except.ok.inj hsec, ← Except.ok.inj hnsec]
        exact ⟨rfl, hbounds.2⟩
      · exact absurd hnsec (by simp)
  · exact absurd hsec (by simp)

theorem createTimeOffset_ok (hsec : -2 ^ 63 ≤ now.tvSec + seconds)
    (hsec' : now.tvSec + seconds < 2 ^ 63) (hnsec : -2 ^ 63 ≤ now.tvUsec + nanoseconds)
    (hnsec' : now.tvUsec + nanoseconds < 2 ^ 63) :
    createTimeOffset now seconds nanoseconds =
      .ok ⟨now.tvSec + seconds, now.tvUsec + nanoseconds⟩ := by
  have htvSec : CLong.add now.tvSec seconds = .ok (now.tvSec + seconds) := if_pos ⟨hsec, hsec'⟩
  have htvNsec : CLong.add now.tvUsec nanoseconds = .ok (now.tvUsec + nanoseconds) :=
    if_pos ⟨hnsec, hnsec'⟩
  rw [createTimeOffset, htvSec, ok_bind, htvNsec, ok_bind]
  rfl

/-- A valid deadline that is the one requested makes the waits what they should be. -/
theorem deadlineExact_of_deadline {time : Timespec}
    (hcreate : createTimeOffset now seconds nanoseconds = .ok time) (hvalid : time.Valid)
    (hexact : time.nanoseconds = requested now seconds nanoseconds) :
    DeadlineExact now seconds nanoseconds := by
  refine ⟨⟨time, hcreate, hvalid, hexact⟩, ?_⟩
  intro wait s hpc hnow hnot
  have hmet : ¬ wait.function.met s.vertex = true := fun h => hnot ((wait.met_iff s.vertex).mp h)
  refine ⟨time, ?_, ?_⟩
  · simp only [Waiting.advance, hpc, Waiting.checkAndWait, hnow, hcreate]
    rw [if_neg hmet, if_pos hvalid]
  · intro t hwaiting hclock
    simp only [Waiting.advance, hwaiting]
    rw [if_neg (by omega)]

end

/-- The deadline is right if and only if the clock shows no microseconds and the seconds do not
overflow. -/
theorem deadline_exact_iff (tvSec : Int64) (tvUsec : ℤ) (seconds nanoseconds : Int32)
    (husec : 0 ≤ tvUsec ∧ tvUsec < 10 ^ 6) (hseconds : 0 ≤ seconds.toInt)
    (hnanoseconds : 0 ≤ nanoseconds.toInt ∧ nanoseconds.toInt < 10 ^ 9) :
    DeadlineExact ⟨tvSec.toInt, tvUsec⟩ seconds.toInt nanoseconds.toInt ↔
      tvUsec = 0 ∧ tvSec.toInt + seconds.toInt < 2 ^ 63 := by
  have hlow := Int64.le_toInt tvSec
  constructor
  · intro h
    obtain ⟨time, hcreate, -, hexact⟩ := h.deadline
    obtain ⟨rfl, hlt⟩ := createTimeOffset_eq hcreate
    simp only [Timespec.nanoseconds, requested, Timeval.nanoseconds] at hexact
    exact ⟨by omega, hlt⟩
  · rintro ⟨rfl, hlt⟩
    refine deadlineExact_of_deadline (createTimeOffset_ok ?_ hlt ?_ ?_) ?_ ?_
    · dsimp only
      omega
    · dsimp only
      omega
    · dsimp only
      omega
    · exact ⟨by dsimp only; omega, by dsimp only; omega⟩
    · simp only [Timespec.nanoseconds, requested, Timeval.nanoseconds]
      omega

theorem deadline_exact_full_second :
    DeadlineExact ⟨(1700000000 : Int64).toInt, 0⟩ (5 : Int32).toInt (500 : Int32).toInt :=
  (deadline_exact_iff 1700000000 0 5 500 (by decide) (by decide) (by decide)).mpr (by decide)

/-- Half a second after a full second a wait for one second is to end after half a second, and at
the end of a second a wait for almost a second fails. -/
theorem deadline_not_exact :
    ¬ DeadlineExact ⟨(1700000000 : Int64).toInt, 500000⟩ (1 : Int32).toInt (0 : Int32).toInt ∧
      createTimeOffset ⟨1700000000, 500000⟩ 1 0 = .ok ⟨1700000001, 500000⟩ ∧
      createTimeOffset ⟨1700000000, 999999⟩ 0 999999999 = .ok ⟨1700000000, 1000999998⟩ ∧
      ¬ Timespec.Valid ⟨1700000000, 1000999998⟩ := by
  have hcreate : createTimeOffset ⟨1700000000, 500000⟩ 1 0 = .ok ⟨1700000001, 500000⟩ := rfl
  refine ⟨?_, hcreate, rfl, by decide⟩
  intro h
  obtain ⟨time, hcreate', -, hexact⟩ := h.deadline
  obtain rfl := Except.ok.inj (hcreate.symm.trans hcreate')
  exact absurd hexact (by decide)

/-! ## Reasons to return -/

/-- The predicate holds or the deadline has been reached. -/
def Reason (wait : VertexWait) (s : Waiting) (deadline : Timespec) : Prop :=
  wait.Predicate s.vertex ∨ deadline.nanoseconds ≤ s.clock

instance (wait : VertexWait) (s : Waiting) (deadline : Timespec) :
    Decidable (Reason wait s deadline) :=
  inferInstanceAs (Decidable (_ ∨ _))

/-- A step in which the call returns is taken in a state with a reason to. A call that has not
computed a deadline has no other reason than its predicate. -/
def ReturnsForReason (wait : VertexWait) (seconds nanoseconds : ℤ) (s : Waiting)
    (event : WaitEvent) : Prop :=
  ∀ t, s.step wait.function seconds nanoseconds event = some t → t.pc = .returned →
    s.pc = .returned ∨ wait.Predicate s.vertex ∨
      ∃ deadline, s.pc = .leaving deadline ∧ deadline.nanoseconds ≤ s.clock

/-- What the call relies on. Its vertex has not counted fewer than no children. The deadline is one
that `pthread_cond_timedwait` accepts. Before the deadline nobody wakes it up while its predicate
does not hold, and nobody makes the predicate false between a wake-up and the moment the call has
the mutex again. -/
def NotDisturbed (wait : VertexWait) (seconds nanoseconds : ℤ) (s : Waiting) : WaitEvent → Prop
  | .advance =>
      (s.pc = .start → wait.function.skips s.vertex = true → wait.Predicate s.vertex) ∧
        (s.pc = .locking → ∀ deadline,
          createTimeOffset (gettimeofday s.clock) seconds nanoseconds = .ok deadline →
          deadline.Valid ∨ Reason wait s deadline)
  | .signal | .spurious => ∀ deadline, s.pc = .waiting deadline → Reason wait s deadline
  | .update childrenDone initialized finalized => ∀ deadline, s.pc = .woken deadline →
      Reason wait { s with vertex := { s.vertex with childrenDone, initialized, finalized } }
        deadline
  | .elapse _ => True

section

variable {wait : VertexWait} {seconds nanoseconds : ℤ} {s t : Waiting}

/-- A call whose wait is over has a reason to return. -/
def Reasoned (wait : VertexWait) (s : Waiting) : Prop :=
  ∀ deadline, s.pc = .woken deadline ∨ s.pc = .leaving deadline → Reason wait s deadline

theorem reasoned_of_pc (hwoken : ∀ deadline, s.pc ≠ .woken deadline)
    (hleaving : ∀ deadline, s.pc ≠ .leaving deadline) : Reasoned wait s := by
  intro deadline hpc
  rcases hpc with hpc | hpc
  · exact absurd hpc (hwoken deadline)
  · exact absurd hpc (hleaving deadline)

theorem reasoned_of_reason {deadline : Timespec}
    (hpc : s.pc = .woken deadline ∨ s.pc = .leaving deadline) (h : Reason wait s deadline) :
    Reasoned wait s := by
  intro deadline' hpc'
  have heq : deadline = deadline' := by
    rcases hpc with hpc | hpc
    · simpa [hpc] using hpc'
    · simpa [hpc] using hpc'
  rw [← heq]
  exact h

/-- A step of the call, with what it has found. -/
inductive AdvanceDerivation (wait : VertexWait) (seconds nanoseconds : ℤ) (s : Waiting) :
    Waiting → Prop where
  | skip (hpc : s.pc = .start) (hskips : wait.function.skips s.vertex = true) :
      AdvanceDerivation wait seconds nanoseconds s { s with pc := .returned }
  | lock (hpc : s.pc = .start) (hskips : ¬ wait.function.skips s.vertex = true) :
      AdvanceDerivation wait seconds nanoseconds s { s with pc := .locking }
  | overflow (hpc : s.pc = .locking) {fault : Fault}
      (hcreate : createTimeOffset (gettimeofday s.clock) seconds nanoseconds = .error fault) :
      AdvanceDerivation wait seconds nanoseconds s { s with pc := .faulted }
  | met (hpc : s.pc = .locking) {deadline : Timespec}
      (hcreate : createTimeOffset (gettimeofday s.clock) seconds nanoseconds = .ok deadline)
      (hmet : wait.Predicate s.vertex) :
      AdvanceDerivation wait seconds nanoseconds s { s with pc := .leaving deadline }
  | wait (hpc : s.pc = .locking) {deadline : Timespec}
      (hcreate : createTimeOffset (gettimeofday s.clock) seconds nanoseconds = .ok deadline)
      (hmet : ¬ wait.Predicate s.vertex) (hvalid : deadline.Valid) :
      AdvanceDerivation wait seconds nanoseconds s { s with pc := .waiting deadline }
  | invalid (hpc : s.pc = .locking) {deadline : Timespec}
      (hcreate : createTimeOffset (gettimeofday s.clock) seconds nanoseconds = .ok deadline)
      (hmet : ¬ wait.Predicate s.vertex) (hinvalid : ¬ deadline.Valid) :
      AdvanceDerivation wait seconds nanoseconds s { s with pc := .leaving deadline }
  | timeout {deadline : Timespec} (hpc : s.pc = .waiting deadline)
      (hreached : deadline.nanoseconds ≤ s.clock) :
      AdvanceDerivation wait seconds nanoseconds s { s with pc := .woken deadline }
  | relock {deadline : Timespec} (hpc : s.pc = .woken deadline) :
      AdvanceDerivation wait seconds nanoseconds s { s with pc := .leaving deadline }
  | unlock {deadline : Timespec} (hpc : s.pc = .leaving deadline) :
      AdvanceDerivation wait seconds nanoseconds s { s with pc := .returned }

theorem advance_derivation (hstep : s.advance wait.function seconds nanoseconds = some t) :
    AdvanceDerivation wait seconds nanoseconds s t := by
  rw [Waiting.advance] at hstep
  cases hpc : s.pc with
  | start =>
      rw [hpc] at hstep
      obtain rfl := Option.some.inj hstep
      split
      · next hskips => exact .skip hpc hskips
      · next hskips => exact .lock hpc hskips
  | locking =>
      rw [hpc] at hstep
      obtain rfl := Option.some.inj hstep
      rw [Waiting.checkAndWait]
      cases hcreate : createTimeOffset (gettimeofday s.clock) seconds nanoseconds with
      | error fault => exact .overflow hpc hcreate
      | ok deadline =>
          dsimp only
          split
          · next hmet => exact .met hpc hcreate ((wait.met_iff s.vertex).mp hmet)
          · next hmet =>
              rw [wait.met_iff] at hmet
              split
              · next hvalid => exact .wait hpc hcreate hmet hvalid
              · next hinvalid => exact .invalid hpc hcreate hmet hinvalid
  | waiting deadline =>
      rw [hpc] at hstep
      dsimp only at hstep
      split at hstep
      · next hreached =>
          obtain rfl := Option.some.inj hstep
          exact .timeout hpc hreached
      · exact absurd hstep (by simp)
  | woken deadline =>
      rw [hpc] at hstep
      obtain rfl := Option.some.inj hstep
      exact .relock hpc
  | leaving deadline =>
      rw [hpc] at hstep
      obtain rfl := Option.some.inj hstep
      exact .unlock hpc
  | returned => exact absurd hstep (by simp [hpc])
  | faulted => exact absurd hstep (by simp [hpc])

/-- Where the wait is over, the call has a reason to return. -/
theorem Reasoned.advance (h : Reasoned wait s)
    (hcond : NotDisturbed wait seconds nanoseconds s .advance)
    (hstep : s.advance wait.function seconds nanoseconds = some t) : Reasoned wait t := by
  cases advance_derivation hstep with
  | skip hpc hskips => exact reasoned_of_pc (by simp) (by simp)
  | lock hpc hskips => exact reasoned_of_pc (by simp) (by simp)
  | overflow hpc hcreate => exact reasoned_of_pc (by simp) (by simp)
  | met hpc hcreate hmet => exact reasoned_of_reason (Or.inr rfl) (Or.inl hmet)
  | wait hpc hcreate hmet hvalid => exact reasoned_of_pc (by simp) (by simp)
  | invalid hpc hcreate hmet hinvalid =>
      have hreason := (hcond.2 hpc _ hcreate).resolve_left hinvalid
      exact reasoned_of_reason (Or.inr rfl) hreason
  | timeout hpc hreached => exact reasoned_of_reason (Or.inl rfl) (Or.inr hreached)
  | relock hpc => exact reasoned_of_reason (Or.inr rfl) (h _ (Or.inl hpc))
  | unlock hpc => exact reasoned_of_pc (by simp) (by simp)

/-- The call returns before it locks the mutex or after it has unlocked it. -/
theorem Reasoned.returnsForReason (h : Reasoned wait s)
    (hcond : NotDisturbed wait seconds nanoseconds s .advance) :
    ReturnsForReason wait seconds nanoseconds s .advance := by
  intro t hstep hreturned
  cases advance_derivation hstep with
  | skip hpc hskips => exact Or.inr (Or.inl (hcond.1 hpc hskips))
  | unlock hpc =>
      rcases h _ (Or.inr hpc) with hpredicate | hreached
      · exact Or.inr (Or.inl hpredicate)
      · exact Or.inr (Or.inr ⟨_, hpc, hreached⟩)
  | _ => exact absurd hreturned (by simp)

/-- Only the call itself returns. -/
theorem returnsForReason_of_pc {event : WaitEvent}
    (hpc : ∀ t, s.step wait.function seconds nanoseconds event = some t → t.pc = .returned →
      s.pc = .returned) : ReturnsForReason wait seconds nanoseconds s event := by
  intro t ht hreturned
  exact Or.inl (hpc t ht hreturned)

/-- A wake-up of either kind. -/
theorem Reasoned.wake (h : Reasoned wait s) {event : WaitEvent}
    (hevent : s.step wait.function seconds nanoseconds event = some s.wake)
    (hcond : ∀ deadline, s.pc = .waiting deadline → Reason wait s deadline) :
    ReturnsForReason wait seconds nanoseconds s event ∧ Reasoned wait s.wake := by
  have hwake : Reasoned wait s.wake ∧ (s.wake.pc = .returned → s.pc = .returned) := by
    rw [Waiting.wake]
    split
    · next deadline hpc =>
        exact ⟨reasoned_of_reason (Or.inl rfl) (hcond deadline hpc), by simp⟩
    · exact ⟨h, id⟩
  refine ⟨returnsForReason_of_pc ?_, hwake.1⟩
  intro t ht
  obtain rfl := Option.some.inj (hevent.symm.trans ht)
  exact hwake.2

/-- Another thread changes the vertex while the call does not hold the mutex. -/
theorem reasoned_update {childrenDone : ℤ} {initialized finalized : Bool}
    (hcond : NotDisturbed wait seconds nanoseconds s (.update childrenDone initialized finalized))
    (hstep : s.update childrenDone initialized finalized = some t) :
    Reasoned wait t ∧ (t.pc = .returned → s.pc = .returned) := by
  rw [Waiting.update] at hstep
  split at hstep
  · exact absurd hstep (by simp)
  · next hleaving =>
      obtain rfl := Option.some.inj hstep
      refine ⟨?_, id⟩
      intro deadline hpc
      rcases hpc with hpc | hpc
      · exact hcond deadline hpc
      · exact absurd hpc (hleaving deadline)

theorem Reasoned.step (h : Reasoned wait s) {event : WaitEvent}
    (hcond : NotDisturbed wait seconds nanoseconds s event)
    (hstep : s.step wait.function seconds nanoseconds event = some t) :
    ReturnsForReason wait seconds nanoseconds s event ∧ Reasoned wait t := by
  cases event with
  | advance => exact ⟨h.returnsForReason hcond, h.advance hcond hstep⟩
  | update childrenDone initialized finalized =>
      exact ⟨returnsForReason_of_pc fun u hu => (reasoned_update hcond hu).2,
        (reasoned_update hcond hstep).1⟩
  | signal =>
      obtain rfl := Option.some.inj hstep
      exact h.wake rfl hcond
  | spurious =>
      obtain rfl := Option.some.inj hstep
      exact h.wake rfl hcond
  | elapse time =>
      obtain rfl := Option.some.inj hstep
      refine ⟨returnsForReason_of_pc ?_, ?_⟩
      · intro u hu
        rw [← Option.some.inj hu]
        exact id
      · intro deadline hpc
        rcases h deadline hpc with hpredicate | hreached
        · exact Or.inl hpredicate
        · have hlater : deadline.nanoseconds ≤ s.clock + time := by omega
          exact Or.inr hlater

/-! ### Disturbed calls -/

/-- A call that is about to leave without a reason returns without one. -/
theorem not_respecting_leaving {deadline : Timespec} (hpc : s.pc = .leaving deadline)
    (hnot : ¬ Reason wait s deadline) (more : List WaitEvent) :
    ¬ (waitSystem wait.function seconds nanoseconds).Respecting
      (ReturnsForReason wait seconds nanoseconds) s (.advance :: more) := by
  have hstep : s.step wait.function seconds nanoseconds .advance =
      some { s with pc := .returned } := by
    rw [Waiting.step, Waiting.advance, hpc]
  intro h
  rcases (h _ hstep).1 _ hstep rfl with hreturned | hpredicate | ⟨deadline', hpc', hreached⟩
  · exact absurd (hpc.symm.trans hreturned) (by simp)
  · exact hnot (Or.inl hpredicate)
  · obtain rfl : deadline = deadline' := by simpa using hpc.symm.trans hpc'
    exact hnot (Or.inr hreached)

/-- A call that has been woken up too early returns too early if it is let. -/
theorem not_respecting_woken {deadline : Timespec} (hpc : s.pc = .woken deadline)
    (hnot : ¬ Reason wait s deadline) :
    ¬ (waitSystem wait.function seconds nanoseconds).Respecting
      (ReturnsForReason wait seconds nanoseconds) s [.advance, .advance] := by
  have hstep : s.step wait.function seconds nanoseconds .advance =
      some { s with pc := .leaving deadline } := by
    rw [Waiting.step, Waiting.advance, hpc]
  intro h
  exact @not_respecting_leaving wait seconds nanoseconds { s with pc := .leaving deadline } deadline
    rfl hnot [] (h _ hstep).2

/-- A step of the call after which it returns only for a reason, however it goes on, was taken
as the call relies on. -/
theorem notDisturbed_advance (hstep : s.advance wait.function seconds nanoseconds = some t)
    (hreason : ReturnsForReason wait seconds nanoseconds s .advance)
    (hrest : (waitSystem wait.function seconds nanoseconds).Respecting
      (ReturnsForReason wait seconds nanoseconds) t [.advance, .advance]) :
    NotDisturbed wait seconds nanoseconds s .advance := by
  constructor
  · intro hpc hskips
    have hreturned : t.pc = .returned := by
      rw [Waiting.advance, hpc] at hstep
      rw [← Option.some.inj hstep]
      exact if_pos hskips
    rcases hreason t hstep hreturned with hpc' | hpredicate | ⟨deadline, hpc', -⟩
    · exact absurd (hpc.symm.trans hpc') (by simp)
    · exact hpredicate
    · exact absurd (hpc.symm.trans hpc') (by simp)
  · intro hpc deadline hcreate
    by_contra hneither
    obtain ⟨hinvalid, hnot⟩ := not_or.mp hneither
    have hmet : ¬ wait.function.met s.vertex = true :=
      fun hmet => hnot (Or.inl ((wait.met_iff s.vertex).mp hmet))
    have hleaving : s.advance wait.function seconds nanoseconds =
        some { s with pc := .leaving deadline } := by
      simp only [Waiting.advance, hpc, Waiting.checkAndWait, hcreate]
      rw [if_neg hmet, if_neg hinvalid]
    obtain rfl := Option.some.inj (hleaving.symm.trans hstep)
    exact @not_respecting_leaving wait seconds nanoseconds { s with pc := .leaving deadline }
      deadline rfl hnot [.advance] hrest

theorem not_respecting_of_disturbed {event : WaitEvent}
    (hcond : ¬ NotDisturbed wait seconds nanoseconds s event)
    (hstep : s.step wait.function seconds nanoseconds event = some t) :
    ¬ (waitSystem wait.function seconds nanoseconds).Respecting
      (ReturnsForReason wait seconds nanoseconds) s (event :: [.advance, .advance]) := by
  intro h
  obtain ⟨hreason, hrest⟩ := h t hstep
  have hwoken : ∀ deadline, t.pc = .woken deadline → Reason wait t deadline := by
    intro deadline hpc
    by_contra hnot
    exact not_respecting_woken hpc hnot hrest
  apply hcond
  cases event with
  | advance => exact notDisturbed_advance hstep hreason hrest
  | update childrenDone initialized finalized =>
      intro deadline hpc
      rw [Waiting.step, Waiting.update, hpc] at hstep
      obtain rfl := Option.some.inj hstep
      exact hwoken deadline rfl
  | signal =>
      intro deadline hpc
      rw [Waiting.step, Waiting.wake, hpc] at hstep
      obtain rfl := Option.some.inj hstep
      exact hwoken deadline rfl
  | spurious =>
      intro deadline hpc
      rw [Waiting.step, Waiting.wake, hpc] at hstep
      obtain rfl := Option.some.inj hstep
      exact hwoken deadline rfl
  | elapse time => trivial

end

/-- A call that nobody disturbs returns only for a reason, in every interleaving; and one that has
been disturbed returns without a reason if it goes on at once: `pthread_cond_timedwait` is not
called in a loop, and its result is not looked at. -/
theorem timed_wait_returns_for_reason (wait : VertexWait) (seconds nanoseconds : Int32)
    (vertex : Vertex) (clock : ℤ) (events : List WaitEvent) :
    ((waitSystem wait.function seconds.toInt nanoseconds.toInt).Respecting
        (NotDisturbed wait seconds.toInt nanoseconds.toInt) ⟨vertex, clock, .start⟩ events →
      (waitSystem wait.function seconds.toInt nanoseconds.toInt).Respecting
        (ReturnsForReason wait seconds.toInt nanoseconds.toInt) ⟨vertex, clock, .start⟩ events) ∧
    (¬ (waitSystem wait.function seconds.toInt nanoseconds.toInt).Respecting
        (NotDisturbed wait seconds.toInt nanoseconds.toInt) ⟨vertex, clock, .start⟩ events →
      ∃ front, front <+: events ∧
        ¬ (waitSystem wait.function seconds.toInt nanoseconds.toInt).Respecting
          (ReturnsForReason wait seconds.toInt nanoseconds.toInt) ⟨vertex, clock, .start⟩
          (front ++ [.advance, .advance])) := by
  constructor
  · intro h
    refine System.Respecting.imp (I := Reasoned wait) ?_ (reasoned_of_pc (by simp) (by simp)) h
    intro s event t hs hcond hstep
    exact hs.step hcond hstep
  · intro h
    obtain ⟨front, event, s, t, hfront, hrun, hstep, hcond⟩ := System.exists_violation h
    refine ⟨front ++ [event], hfront, ?_⟩
    intro hall
    rw [List.append_assoc] at hall
    exact not_respecting_of_disturbed hcond hstep (hall.of_append hrun)

/-- A vertex with two children, none of which is done. -/
def pairVertex : Vertex where
  id := 0
  degree := 2
  nodes := []
  localHost := []
  totalNodes := 3
  parentId := -1
  readyCount := 0
  childrenDone := 0
  totalChildren := 2
  childrenIds := [1, 2]
  childrenHosts := [none, none]
  initialized := false
  finalized := false

/-- Both children are done before the signal. -/
theorem timed_wait_both_done :
    (waitSystem tbonChildrenDoneWaitTimeout 5 0).Respecting (ReturnsForReason .childrenDone 5 0)
      ⟨pairVertex, 0, .start⟩
      [.advance, .advance, .update 2 true false, .signal, .advance, .advance] := by
  refine (timed_wait_returns_for_reason .childrenDone 5 0 pairVertex 0 _).1 ?_
  rintro _ ⟨⟩
  refine ⟨⟨by simp [VertexWait.function, tbonChildrenDoneWaitTimeout, pairVertex], by simp⟩, ?_⟩
  rintro _ ⟨⟩
  refine ⟨⟨by rintro ⟨⟩, ?_⟩, ?_⟩
  · intro _ deadline hcreate
    exact Or.inl (by obtain rfl := Except.ok.inj hcreate; decide)
  rintro _ ⟨⟩
  refine ⟨by rintro deadline ⟨⟩, ?_⟩
  rintro _ ⟨⟩
  refine ⟨fun deadline _ => Or.inl (Int.le_refl 2), ?_⟩
  rintro _ ⟨⟩
  refine ⟨⟨by rintro ⟨⟩, by rintro ⟨⟩⟩, ?_⟩
  rintro _ ⟨⟩
  exact ⟨⟨by rintro ⟨⟩, by rintro ⟨⟩⟩, trivial⟩

/-- The first of two children is done and the call returns four seconds early; a wait for the
initialization is woken up for no reason. -/
theorem timed_wait_returns_early :
    ¬ (waitSystem tbonChildrenDoneWaitTimeout 5 0).Respecting (ReturnsForReason .childrenDone 5 0)
        ⟨pairVertex, 0, .start⟩
        [.advance, .advance, .update 1 true false, .elapse (10 ^ 9), .signal, .advance, .advance] ∧
      ¬ (waitSystem tbonInitializedWaitTimeout 5 0).Respecting (ReturnsForReason .initialized 5 0)
        ⟨pairVertex, 0, .start⟩ [.advance, .advance, .spurious, .advance, .advance] := by
  constructor
  · intro h
    obtain ⟨-, h⟩ := h _ rfl
    obtain ⟨-, h⟩ := h _ rfl
    obtain ⟨-, h⟩ := h _ rfl
    obtain ⟨-, h⟩ := h _ rfl
    obtain ⟨-, h⟩ := h _ rfl
    exact @not_respecting_woken .childrenDone 5 0 _ ⟨5, 0⟩ rfl (by decide) h
  · intro h
    obtain ⟨-, h⟩ := h _ rfl
    obtain ⟨-, h⟩ := h _ rfl
    obtain ⟨-, h⟩ := h _ rfl
    exact @not_respecting_woken .initialized 5 0 _ ⟨5, 0⟩ rfl (by decide) h

end Dynpm.Tbon
