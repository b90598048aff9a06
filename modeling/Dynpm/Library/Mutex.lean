import Mathlib.Data.Finset.Basic
import Dynpm.Library.Transition

/-! # Mutexes

What code does to mutexes is a list of operations. One thread executes it with the mutexes that
it holds, and several threads interleave theirs. The mutexes are of the default kind: the thread
that holds one and locks it again waits for ever, and an unlock releases a mutex whoever holds it.
-/

namespace Library

/-- An operation on a mutex, or the end of the whole process. -/
inductive MutexOp (μ : Type*) where
  | lock (m : μ)
  | unlock (m : μ)
  | exit
  deriving DecidableEq

/-- How code ends: it returns, waits for a mutex that its own thread holds, ends the process, or
unlocks a mutex that it does not hold. -/
inductive MutexOutcome (μ : Type*) where
  | returned (held : Finset μ)
  | deadlocked
  | exited
  | unlockedForeign (m : μ)

section

variable {μ : Type*} [DecidableEq μ]

/-- The execution of code by a thread that holds the given mutexes. -/
def executeLocks (held : Finset μ) : List (MutexOp μ) → MutexOutcome μ
  | [] => .returned held
  | .lock m :: ops => if m ∈ held then .deadlocked else executeLocks (insert m held) ops
  | .unlock m :: ops => if m ∈ held then executeLocks (held.erase m) ops else .unlockedForeign m
  | .exit :: _ => .exited

/-- The code unlocks no mutex that it does not hold, and it holds `final` when it returns. -/
def ReturnsWith (final held : Finset μ) (ops : List (MutexOp μ)) : Prop :=
  (∀ m, executeLocks held ops ≠ .unlockedForeign m) ∧
    ∀ held', executeLocks held ops = .returned held' → held' = final

/-- The code unlocks no mutex that it does not hold, and it returns with the mutexes that it was
called with. -/
def KeepsLocks (held : Finset μ) (ops : List (MutexOp μ)) : Prop := ReturnsWith held held ops

variable {final held : Finset μ} {m : μ} {ops : List (MutexOp μ)}

@[simp] theorem returnsWith_nil : ReturnsWith final held [] ↔ held = final := by
  simp [ReturnsWith, executeLocks]

@[simp] theorem returnsWith_lock :
    ReturnsWith final held (.lock m :: ops) ↔
      m ∈ held ∨ ReturnsWith final (insert m held) ops := by
  by_cases hmem : m ∈ held
  · simp [ReturnsWith, executeLocks, hmem]
  · simp [ReturnsWith, executeLocks, hmem]

@[simp] theorem returnsWith_unlock :
    ReturnsWith final held (.unlock m :: ops) ↔
      m ∈ held ∧ ReturnsWith final (held.erase m) ops := by
  by_cases hmem : m ∈ held
  · simp [ReturnsWith, executeLocks, hmem]
  · simp [ReturnsWith, executeLocks, hmem]

/-- A mutex that has been locked is given back. -/
theorem returnsWith_unlock_insert (h : m ∉ held) :
    ReturnsWith held (insert m held) [.unlock m] := by
  rw [returnsWith_unlock, Finset.erase_insert h, returnsWith_nil]
  exact ⟨Finset.mem_insert_self m held, rfl⟩

/-- A section of code between a lock and the unlock of the same mutex. -/
theorem keepsLocks_lock_unlock (m : μ) (held : Finset μ) :
    KeepsLocks held [.lock m, .unlock m] := by
  rw [KeepsLocks, returnsWith_lock]
  by_cases hmem : m ∈ held
  · exact Or.inl hmem
  · exact Or.inr (returnsWith_unlock_insert hmem)

@[simp] theorem returnsWith_exit : ReturnsWith final held (.exit :: ops) := by
  simp [ReturnsWith, executeLocks]

end

/-! ## Threads -/

/-- The owners of the mutexes, and what each thread still has to execute of the code that it is
in. -/
structure Threads (ι μ : Type*) where
  owner : μ → Option ι
  code : ι → List (MutexOp μ)
  exited : Bool

/-- A thread that is in no code calls some, or goes on with the code that it is in. -/
inductive ThreadAction (ι γ : Type*) where
  | call (thread : ι) (callback : γ)
  | next (thread : ι)

section

variable {ι μ γ : Type*} [DecidableEq ι] [DecidableEq μ]

def Threads.idle : Threads ι μ := ⟨fun _ => none, fun _ => [], false⟩

/-- A thread executes its next operation. A lock waits until the mutex is free. -/
def Threads.next (s : Threads ι μ) (thread : ι) : Option (Threads ι μ) :=
  match s.code thread with
  | [] => none
  | .lock m :: ops =>
      if s.owner m = none then
        some { s with
          owner := Function.update s.owner m (some thread)
          code := Function.update s.code thread ops }
      else none
  | .unlock m :: ops =>
      some { s with
        owner := Function.update s.owner m none
        code := Function.update s.code thread ops }
  | .exit :: _ => some { s with exited := true }

/-- Threads that call the given code in any order and interleave its operations. -/
def threadSystem (locks : γ → List (MutexOp μ)) : System (Threads ι μ) (ThreadAction ι γ) where
  initial s := s = Threads.idle
  step s action :=
    if s.exited then none
    else match action with
      | .call thread callback =>
          if s.code thread = [] then
            some { s with code := Function.update s.code thread (locks callback) }
          else none
      | .next thread => s.next thread

/-- The operation that the thread executes next does not release a mutex that it does not hold. -/
def UnlocksOwn (s : Threads ι μ) : ThreadAction ι γ → Prop
  | .call _ _ => True
  | .next thread => ∀ m ops, s.code thread = .unlock m :: ops → s.owner m = some thread

/-- A thread that starts on some code holds nothing, and the code returns with nothing. -/
def CallsKeepLocks (locks : γ → List (MutexOp μ)) (_ : Threads ι μ) : ThreadAction ι γ → Prop
  | .call _ callback => KeepsLocks ∅ (locks callback)
  | .next _ => True

/-- The code that a thread is in returns with nothing, executed with the mutexes it owns. -/
def Threads.Disciplined (s : Threads ι μ) : Prop :=
  ∀ i, ∃ held : Finset μ, (∀ m, m ∈ held ↔ s.owner m = some i) ∧ ReturnsWith ∅ held (s.code i)

variable {s t : Threads ι μ} {i : ι} {m : μ} {ops : List (MutexOp μ)}

omit [DecidableEq ι] in
theorem Threads.disciplined_idle : (Threads.idle : Threads ι μ).Disciplined := by
  intro i
  exact ⟨∅, by simp [Threads.idle], returnsWith_nil.mpr rfl⟩

/-- Changing the owner of one mutex from `i` or to `i`, and the code of `i`, leaves the other
threads alone. -/
theorem Threads.Disciplined.update (h : s.Disciplined) {owner : μ → Option ι}
    (held : Finset μ) (hheld : ∀ m, m ∈ held ↔ owner m = some i)
    (hothers : ∀ j ≠ i, ∀ m, owner m = some j ↔ s.owner m = some j)
    (hops : ReturnsWith ∅ held ops) :
    Threads.Disciplined
      { s with owner := owner, code := Function.update s.code i ops } := by
  intro j
  by_cases heq : j = i
  · subst heq
    refine ⟨held, hheld, ?_⟩
    simpa using hops
  · obtain ⟨heldj, hmem, hcode⟩ := h j
    refine ⟨heldj, ?_, ?_⟩
    · intro m
      exact (hmem m).trans (hothers j heq m).symm
    · simpa [heq] using hcode

theorem Threads.Disciplined.lock (h : s.Disciplined) (hcode : s.code i = .lock m :: ops)
    (hfree : s.owner m = none) :
    Threads.Disciplined
      { s with
        owner := Function.update s.owner m (some i)
        code := Function.update s.code i ops } := by
  obtain ⟨held, hheld, hreturns⟩ := h i
  rw [hcode, returnsWith_lock, hheld m, hfree] at hreturns
  refine h.update (insert m held) ?_ ?_ (hreturns.resolve_left (by simp))
  · intro m'
    by_cases heq : m' = m
    · simp [heq]
    · simp [heq, hheld m']
  · intro j hj m'
    by_cases heq : m' = m
    · simp [heq, hfree, Ne.symm hj]
    · simp [heq]

omit [DecidableEq ι] in
/-- A disciplined thread unlocks what it owns. -/
theorem Threads.Disciplined.owner_eq (h : s.Disciplined) (hcode : s.code i = .unlock m :: ops) :
    s.owner m = some i := by
  obtain ⟨held, hheld, hreturns⟩ := h i
  rw [hcode, returnsWith_unlock] at hreturns
  exact (hheld m).mp hreturns.1

theorem Threads.Disciplined.unlock (h : s.Disciplined) (hcode : s.code i = .unlock m :: ops) :
    Threads.Disciplined
      { s with
        owner := Function.update s.owner m none
        code := Function.update s.code i ops } := by
  have howner := h.owner_eq hcode
  obtain ⟨held, hheld, hreturns⟩ := h i
  rw [hcode, returnsWith_unlock] at hreturns
  refine h.update (held.erase m) ?_ ?_ hreturns.2
  · intro m'
    by_cases heq : m' = m
    · simp [heq]
    · simp [heq, hheld m']
  · intro j hj m'
    by_cases heq : m' = m
    · simp [heq, howner, Ne.symm hj]
    · simp [heq]

theorem Threads.Disciplined.next (h : s.Disciplined) (ht : s.next i = some t) :
    t.Disciplined := by
  rw [Threads.next] at ht
  split at ht
  · exact absurd ht (by simp)
  · next m ops hcode =>
      split at ht
      · next hfree =>
          obtain rfl := Option.some.inj ht
          exact h.lock hcode hfree
      · exact absurd ht (by simp)
  · next m ops hcode =>
      obtain rfl := Option.some.inj ht
      exact h.unlock hcode
  · obtain rfl := Option.some.inj ht
    exact h

theorem Threads.Disciplined.call (h : s.Disciplined) (hcode : s.code i = [])
    (hops : KeepsLocks ∅ ops) :
    Threads.Disciplined { s with code := Function.update s.code i ops } := by
  obtain ⟨held, hheld, hreturns⟩ := h i
  rw [hcode, returnsWith_nil] at hreturns
  subst hreturns
  exact h.update _ hheld (fun _ _ _ => Iff.rfl) hops

/-- Threads that only call code that keeps its locks never release a mutex of each other. -/
theorem unlocksOwn_of_keepsLocks {locks : γ → List (MutexOp μ)} {actions : List (ThreadAction ι γ)}
    (h : (threadSystem locks).Respecting (CallsKeepLocks locks) Threads.idle actions) :
    (threadSystem locks).Respecting UnlocksOwn Threads.idle actions := by
  refine System.Respecting.imp (I := Threads.Disciplined) ?_ Threads.disciplined_idle h
  intro s action t hs hkeeps hstep
  simp only [threadSystem] at hstep
  split at hstep
  · exact absurd hstep (by simp)
  cases action with
  | call i callback =>
      refine ⟨trivial, ?_⟩
      dsimp only at hstep
      split at hstep
      · next hcode =>
          obtain rfl := Option.some.inj hstep
          exact hs.call hcode hkeeps
      · exact absurd hstep (by simp)
  | next i => exact ⟨fun m ops hcode => hs.owner_eq hcode, hs.next hstep⟩

end

end Library
