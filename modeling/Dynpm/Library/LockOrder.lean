import Dynpm.Library.Mutex
import Dynpm.Library.Termination
import Mathlib.Data.Finset.Max
import Mathlib.Algebra.BigOperators.Group.Finset.Basic
import Mathlib.Algebra.Order.BigOperators.Group.Finset

/-! # Locking in order

Threads that lock mutexes in the order of a rank and give all of them back never come to a
deadlock: of the threads that wait, the one that waits for the mutex of the highest rank waits for
a thread that does not wait. Code may release mutexes that it does not hold; this only lets other
threads go on earlier.
-/

namespace Library

variable {ι μ γ : Type*} [DecidableEq ι] [DecidableEq μ] {rank : μ → ℕ}

/-- Code that locks mutexes only while all those it has locked before have a lower rank, and that
has given all of them back when it returns. -/
def LocksInOrder (rank : μ → ℕ) : Finset μ → List (MutexOp μ) → Prop
  | held, [] => held = ∅
  | held, .lock m :: ops => (∀ m' ∈ held, rank m' < rank m) ∧ LocksInOrder rank (insert m held) ops
  | held, .unlock m :: ops => LocksInOrder rank (held.erase m) ops
  | _, .exit :: _ => True

@[simp] theorem locksInOrder_nil {held : Finset μ} : LocksInOrder rank held [] ↔ held = ∅ := by
  rw [LocksInOrder]

@[simp] theorem locksInOrder_lock {held : Finset μ} {m : μ} {ops : List (MutexOp μ)} :
    LocksInOrder rank held (.lock m :: ops) ↔
      (∀ m' ∈ held, rank m' < rank m) ∧ LocksInOrder rank (insert m held) ops := by
  rw [LocksInOrder]

@[simp] theorem locksInOrder_unlock {held : Finset μ} {m : μ} {ops : List (MutexOp μ)} :
    LocksInOrder rank held (.unlock m :: ops) ↔ LocksInOrder rank (held.erase m) ops := by
  rw [LocksInOrder]

@[simp] theorem locksInOrder_exit {held : Finset μ} {ops : List (MutexOp μ)} :
    LocksInOrder rank held (.exit :: ops) := by
  rw [LocksInOrder]
  trivial

/-- An empty section. -/
theorem locksInOrder_lock_unlock {held : Finset μ} {m : μ} {ops : List (MutexOp μ)}
    (h : ∀ m' ∈ held, rank m' < rank m) :
    LocksInOrder rank held (.lock m :: .unlock m :: ops) ↔ LocksInOrder rank held ops := by
  have hfree : m ∉ held := fun hmem => Nat.lt_irrefl _ (h m hmem)
  rw [locksInOrder_lock, locksInOrder_unlock, Finset.erase_insert hfree]
  exact and_iff_right h

/-! ## Sections -/

/-- Code that is executed with `held` locked, keeps to the order and gives back what it locks. -/
def OrderedSection (rank : μ → ℕ) (held : Finset μ) (ops : List (MutexOp μ)) : Prop :=
  ∀ rest, LocksInOrder rank held rest → LocksInOrder rank held (ops ++ rest)

section

variable {held : Finset μ} {m : μ} {ops : List (MutexOp μ)}

theorem OrderedSection.locksInOrder (h : OrderedSection rank ∅ ops) :
    LocksInOrder rank ∅ ops := by
  have hends := h [] (locksInOrder_nil.mpr rfl)
  rwa [List.append_nil] at hends

theorem orderedSection_nil : OrderedSection rank held [] := fun _ hrest => hrest

theorem OrderedSection.append {more : List (MutexOp μ)} (h : OrderedSection rank held ops)
    (hmore : OrderedSection rank held more) : OrderedSection rank held (ops ++ more) := by
  intro rest hrest
  rw [List.append_assoc]
  exact h _ (hmore rest hrest)

theorem orderedSection_flatten {sections : List (List (MutexOp μ))}
    (h : ∀ ops ∈ sections, OrderedSection rank held ops) :
    OrderedSection rank held sections.flatten := by
  induction sections with
  | nil => exact orderedSection_nil
  | cons ops sections ih =>
      rw [List.flatten_cons]
      exact (h ops List.mem_cons_self).append
        (ih fun other hother => h other (List.mem_cons_of_mem _ hother))

/-- A mutex that is locked and ends the process. -/
theorem orderedSection_lock_exit (h : ∀ m' ∈ held, rank m' < rank m) :
    OrderedSection rank held [.lock m, .exit] := by
  intro rest _
  rw [List.cons_append, locksInOrder_lock]
  exact ⟨h, locksInOrder_exit⟩

/-- The release of a mutex that is not held. -/
theorem orderedSection_unlock (h : m ∉ held) : OrderedSection rank held [.unlock m] := by
  intro rest hrest
  rwa [List.cons_append, locksInOrder_unlock, Finset.erase_eq_of_notMem h]

/-- A section inside of another one, whose mutexes have lower ranks. -/
theorem orderedSection_lock (h : ∀ m' ∈ held, rank m' < rank m)
    (hops : OrderedSection rank (insert m held) ops) :
    OrderedSection rank held (.lock m :: ops ++ [.unlock m]) := by
  have hfree : m ∉ held := fun hmem => Nat.lt_irrefl _ (h m hmem)
  intro rest hrest
  rw [List.cons_append, List.cons_append, locksInOrder_lock, List.append_assoc]
  refine ⟨h, hops _ ?_⟩
  rwa [List.cons_append, List.nil_append, locksInOrder_unlock, Finset.erase_insert hfree]

/-- A wait for a condition variable, which gives the innermost mutex away for a while. -/
theorem orderedSection_unlock_lock (h : ∀ m' ∈ held, rank m' < rank m) :
    OrderedSection rank (insert m held) [.unlock m, .lock m] := by
  have hfree : m ∉ held := fun hmem => Nat.lt_irrefl _ (h m hmem)
  intro rest hrest
  rw [List.cons_append, locksInOrder_unlock, Finset.erase_insert hfree, List.cons_append,
    locksInOrder_lock]
  exact ⟨h, hrest⟩

end

/-! ## Threads -/

/-- Only the threads in `active` are in some code, and each of them locks in order. A thread may
have lost a mutex that it has locked to one that released it. -/
structure Threads.Ordered (rank : μ → ℕ) (active : Finset ι) (s : Threads ι μ) : Prop where
  code_eq : ∀ i ∉ active, s.code i = []
  inOrder : ∀ i, ∃ held : Finset μ, (∀ m, s.owner m = some i → m ∈ held) ∧
    LocksInOrder rank held (s.code i)

/-- The code that a call executes locks in order. -/
def CallsInOrder (rank : μ → ℕ) (locks : γ → List (MutexOp μ)) (_ : Threads ι μ) :
    ThreadAction ι γ → Prop
  | .call _ callback => LocksInOrder rank ∅ (locks callback)
  | .next _ => True

variable {s t : Threads ι μ} {active : Finset ι} {i : ι}

omit [DecidableEq ι] in
theorem Threads.ordered_idle : (Threads.idle : Threads ι μ).Ordered rank ∅ where
  code_eq _ _ := rfl
  inOrder _ := ⟨∅, by simp [Threads.idle], locksInOrder_nil.mpr rfl⟩

omit [DecidableEq ι] in
/-- Code that returns holds nothing. -/
theorem Threads.Ordered.owner_ne (h : s.Ordered rank active) (hcode : s.code i = []) (m : μ) :
    s.owner m ≠ some i := by
  intro howner
  obtain ⟨held, hheld, horder⟩ := h.inOrder i
  rw [hcode, locksInOrder_nil] at horder
  have hmem := hheld m howner
  rw [horder] at hmem
  exact absurd hmem (Finset.notMem_empty m)

/-- A thread goes on with other code and has taken or given away mutexes. -/
theorem Threads.Ordered.update (h : s.Ordered rank active) {owner : μ → Option ι}
    {ops : List (MutexOp μ)} (held : Finset μ) (hheld : ∀ m, owner m = some i → m ∈ held)
    (hothers : ∀ j ≠ i, ∀ m, owner m = some j → s.owner m = some j)
    (horder : LocksInOrder rank held ops) :
    Threads.Ordered rank (insert i active)
      { s with owner := owner, code := Function.update s.code i ops } where
  code_eq j hj := by
    rw [Finset.mem_insert, not_or] at hj
    exact (Function.update_of_ne hj.1 ops s.code).trans (h.code_eq j hj.2)
  inOrder j := by
    by_cases heq : j = i
    · subst heq
      exact ⟨held, hheld, by simpa using horder⟩
    · obtain ⟨heldj, hmem, hcode⟩ := h.inOrder j
      refine ⟨heldj, fun m howner => hmem m (hothers j heq m howner), ?_⟩
      simpa [heq] using hcode

theorem Threads.Ordered.call (h : s.Ordered rank active) (hcode : s.code i = [])
    {ops : List (MutexOp μ)} (hops : LocksInOrder rank ∅ ops) :
    Threads.Ordered rank (insert i active) { s with code := Function.update s.code i ops } :=
  h.update ∅ (fun m howner => absurd howner (h.owner_ne hcode m)) (fun _ _ _ => id) hops

theorem Threads.Ordered.next (h : s.Ordered rank active) (ht : s.next i = some t) :
    t.Ordered rank active := by
  have hactive : i ∈ active := by
    by_contra hnot
    rw [Threads.next, h.code_eq i hnot] at ht
    exact absurd ht (by simp)
  obtain ⟨held, hheld, horder⟩ := h.inOrder i
  rw [Threads.next] at ht
  split at ht
  · exact absurd ht (by simp)
  · next m ops hcode =>
      split at ht
      · next hfree =>
          obtain rfl := Option.some.inj ht
          rw [hcode, locksInOrder_lock] at horder
          rw [← Finset.insert_eq_of_mem hactive]
          refine h.update (insert m held) ?_ ?_ horder.2
          · intro m' howner
            by_cases heq : m' = m
            · exact heq ▸ Finset.mem_insert_self m' held
            · rw [Function.update_of_ne heq] at howner
              exact Finset.mem_insert_of_mem (hheld m' howner)
          · intro j hj m' howner
            by_cases heq : m' = m
            · rw [heq, Function.update_self] at howner
              exact absurd (Option.some.inj howner).symm hj
            · rwa [Function.update_of_ne heq] at howner
      · exact absurd ht (by simp)
  · next m ops hcode =>
      obtain rfl := Option.some.inj ht
      rw [hcode, locksInOrder_unlock] at horder
      rw [← Finset.insert_eq_of_mem hactive]
      refine h.update (held.erase m) ?_ ?_ horder
      · intro m' howner
        by_cases heq : m' = m
        · rw [heq, Function.update_self] at howner
          exact absurd howner (by simp)
        · rw [Function.update_of_ne heq] at howner
          exact Finset.mem_erase.mpr ⟨heq, hheld m' howner⟩
      · intro j _ m' howner
        by_cases heq : m' = m
        · rw [heq, Function.update_self] at howner
          exact absurd howner (by simp)
        · rwa [Function.update_of_ne heq] at howner
  · obtain rfl := Option.some.inj ht
    exact ⟨h.code_eq, h.inOrder⟩

/-! ## Progress -/

/-- A thread waits for a mutex that is owned. -/
def Threads.Waits (s : Threads ι μ) (i : ι) (m : μ) : Prop :=
  (∃ ops, s.code i = .lock m :: ops) ∧ ∃ j, s.owner m = some j

/-- A thread goes on, has returned, or waits. -/
theorem Threads.next_cases (s : Threads ι μ) (i : ι) :
    (∃ t, s.next i = some t) ∨ s.code i = [] ∨ ∃ m, s.Waits i m := by
  rw [Threads.next]
  cases hcode : s.code i with
  | nil => exact .inr (.inl rfl)
  | cons op ops =>
      cases op with
      | lock m =>
          cases howner : s.owner m with
          | none =>
              left
              simp [howner]
          | some j => exact .inr (.inr ⟨m, ⟨ops, hcode⟩, j, howner⟩)
      | unlock m => exact .inl ⟨_, rfl⟩
      | exit => exact .inl ⟨_, rfl⟩

omit [DecidableEq ι] in
/-- A thread only waits for a mutex of higher rank than those it owns. -/
theorem Threads.Ordered.rank_lt (h : s.Ordered rank active) {m m' : μ} (hwaits : s.Waits i m')
    (howner : s.owner m = some i) : rank m < rank m' := by
  obtain ⟨⟨ops, hcode⟩, _⟩ := hwaits
  obtain ⟨held, hheld, horder⟩ := h.inOrder i
  rw [hcode, locksInOrder_lock] at horder
  exact horder.1 m (hheld m howner)

/-- As long as a thread has not returned, some thread can go on. -/
theorem Threads.Ordered.exists_next (h : s.Ordered rank active) (hcode : s.code i ≠ []) :
    ∃ j t, s.next j = some t := by
  classical
  by_contra hnone
  have hwaits : ∀ j, s.code j ≠ [] → ∃ m, s.Waits j m := by
    intro j hj
    rcases s.next_cases j with hnext | hidle | hwaits
    · exact absurd ⟨j, hnext⟩ hnone
    · exact absurd hidle hj
    · exact hwaits
  have hnonempty : Nonempty μ := ⟨(hwaits i hcode).choose⟩
  choose! awaited hawaited using hwaits
  -- the thread that waits for the mutex of the highest rank
  have hne : (active.filter fun j => s.code j ≠ []).Nonempty := by
    refine ⟨i, Finset.mem_filter.mpr ⟨?_, hcode⟩⟩
    by_contra hnot
    exact hcode (h.code_eq i hnot)
  obtain ⟨j, hj, hmax⟩ := Finset.exists_max_image _ (fun j => rank (awaited j)) hne
  have hjwaits := hawaited j (Finset.mem_filter.mp hj).2
  obtain ⟨_, k, howner⟩ := hjwaits
  have hkcode : s.code k ≠ [] := fun hidle => h.owner_ne hidle _ howner
  have hkactive : k ∈ active := by
    by_contra hnot
    exact hkcode (h.code_eq k hnot)
  have hlt := h.rank_lt (hawaited k hkcode) howner
  have hle := hmax k (Finset.mem_filter.mpr ⟨hkactive, hkcode⟩)
  exact absurd hlt (Nat.not_lt.mpr hle)

/-! ## All threads return -/

/-- The threads execute what they are in, without calling anything new. -/
def nextSystem (ι μ : Type*) [DecidableEq ι] [DecidableEq μ] : System (Threads ι μ) ι where
  initial _ := True
  step s i := if s.exited then none else s.next i

theorem nextSystem_step {s t : Threads ι μ} (h : (nextSystem ι μ).step s i = some t) :
    s.exited = false ∧ s.next i = some t := by
  simp only [nextSystem] at h
  split at h
  · exact absurd h (by simp)
  · next hexited => exact ⟨by simpa using hexited, h⟩

/-- It is a run of the threads. -/
theorem run_nextSystem (locks : γ → List (MutexOp μ)) {s t : Threads ι μ} {threads : List ι}
    (h : (nextSystem ι μ).run s threads = some t) :
    (threadSystem locks).run s (threads.map .next) = some t := by
  induction threads generalizing s with
  | nil => exact h
  | cons i threads ih =>
      obtain ⟨u, hu, h⟩ := Option.bind_eq_some_iff.mp h
      rw [List.map_cons, System.run]
      change ((nextSystem ι μ).step s i).bind _ = _
      rw [hu]
      exact ih h

/-- What is left to execute. The end of the process counts as an operation that no thread has. -/
def Threads.remaining (active : Finset ι) (s : Threads ι μ) : ℕ :=
  ∑ i ∈ active, (s.code i).length + if s.exited then 0 else 1

omit [DecidableEq μ] in
/-- A thread that is done with its first operation has less to execute, and the others have as
much as before. -/
theorem Threads.sum_length_lt {s : Threads ι μ} {op : MutexOp μ} {ops : List (MutexOp μ)}
    (hactive : i ∈ active) (hcode : s.code i = op :: ops) :
    ∑ j ∈ active, (Function.update s.code i ops j).length < ∑ j ∈ active, (s.code j).length := by
  apply Finset.sum_lt_sum
  · intro j _
    by_cases heq : j = i
    · rw [heq, Function.update_self, hcode, List.length_cons]
      exact Nat.le_succ _
    · rw [Function.update_of_ne heq]
  · refine ⟨i, hactive, ?_⟩
    rw [Function.update_self, hcode, List.length_cons]
    exact Nat.lt_succ_self _

theorem Threads.Ordered.remaining_lt (h : s.Ordered rank active)
    (hstep : (nextSystem ι μ).step s i = some t) : t.remaining active < s.remaining active := by
  obtain ⟨hexited, ht⟩ := nextSystem_step hstep
  have hactive : i ∈ active := by
    by_contra hnot
    rw [Threads.next, h.code_eq i hnot] at ht
    exact absurd ht (by simp)
  rw [Threads.next] at ht
  split at ht
  · exact absurd ht (by simp)
  · next m ops hcode =>
      split at ht
      · obtain rfl := Option.some.inj ht
        exact Nat.add_lt_add_right (Threads.sum_length_lt hactive hcode) _
      · exact absurd ht (by simp)
  · next m ops hcode =>
      obtain rfl := Option.some.inj ht
      exact Nat.add_lt_add_right (Threads.sum_length_lt hactive hcode) _
  · obtain rfl := Option.some.inj ht
    rw [Threads.remaining, Threads.remaining, hexited]
    simp

/-- All threads have returned and no mutex is owned. -/
def Threads.Quiet (s : Threads ι μ) : Prop := (∀ i, s.code i = []) ∧ ∀ m, s.owner m = none

/-- From any state that is reached by calls in order, the threads can go on until all of them have
returned, unless one of them ends the process. -/
theorem exists_run_quiet {locks : γ → List (MutexOp μ)} (h : s.Ordered rank active) :
    ∃ (threads : List ι) (t : Threads ι μ),
      (threadSystem locks).run s (threads.map .next) = some t ∧ (t.exited = true ∨ t.Quiet) := by
  have hpreserved : ∀ s i t, Threads.Ordered rank active s →
      (nextSystem ι μ).step s i = some t → Threads.Ordered rank active t := by
    intro s i t h hstep
    exact h.next (nextSystem_step hstep).2
  have hlower : ∀ s i t, Threads.Ordered rank active s →
      (nextSystem ι μ).step s i = some t → t.remaining active < s.remaining active := by
    intro s i t h hstep
    exact h.remaining_lt hstep
  obtain ⟨threads, t, hrun, hfinal⟩ := System.exists_run_final hpreserved hlower h
  have ht := System.invariant_of_run hpreserved h hrun
  refine ⟨threads, t, run_nextSystem locks hrun, ?_⟩
  cases hexited : t.exited with
  | true => exact .inl rfl
  | false =>
      right
      have hidle : ∀ i, t.code i = [] := by
        intro i
        by_contra hcode
        obtain ⟨j, u, hu⟩ := ht.exists_next hcode
        have hnone := hfinal j
        simp only [nextSystem, hexited, hu] at hnone
        exact absurd hnone (by simp)
      refine ⟨hidle, ?_⟩
      intro m
      cases howner : t.owner m with
      | none => rfl
      | some i => exact absurd howner (ht.owner_ne (hidle i) m)

/-- The states that calls in order reach. -/
theorem ordered_of_callsInOrder {locks : γ → List (MutexOp μ)} {actions : List (ThreadAction ι γ)}
    (h : (threadSystem locks).Respecting (CallsInOrder rank locks) Threads.idle actions)
    (hrun : (threadSystem locks).run Threads.idle actions = some s) :
    ∃ active, s.Ordered rank active := by
  refine System.invariant_of_respecting (I := fun s => ∃ active, Threads.Ordered rank active s) ?_
    ⟨∅, Threads.ordered_idle⟩ h hrun
  rintro s action t ⟨active, hs⟩ hcalls hstep
  simp only [threadSystem] at hstep
  split at hstep
  · exact absurd hstep (by simp)
  cases action with
  | call i callback =>
      dsimp only at hstep
      split at hstep
      · next hcode =>
          obtain rfl := Option.some.inj hstep
          exact ⟨insert i active, hs.call hcode hcalls⟩
      · exact absurd hstep (by simp)
  | next i => exact ⟨active, hs.next hstep⟩

end Library
