import Mathlib.Algebra.Ring.Int.Defs
import Mathlib.Algebra.Ring.Nat
import Mathlib.Data.List.Forall2

/-! # Faults of C programs

Operations that have no defined result in C return a fault. The arithmetic of `int` is that of
the integers as long as the result can be represented in 32 bits.
-/

namespace Library

/-- The ways in which a C program leaves its defined behaviour. -/
inductive Fault where
  | assertion
  | outOfBounds
  | nullPointer
  | overflow
  | divisionByZero
  deriving DecidableEq, Repr

/-- A computation that returns has executed its first part without a fault. -/
theorem bind_eq_ok {α β : Type} {x : Except Fault α} {f : α → Except Fault β} {b : β}
    (h : (x >>= f) = .ok b) : ∃ a, x = .ok a ∧ f a = .ok b := by
  cases x with
  | error fault => exact absurd h (by simp [bind, Except.bind])
  | ok a => exact ⟨a, rfl, h⟩

theorem ok_bind {α β : Type} (a : α) (f : α → Except Fault β) : (Except.ok a >>= f) = f a := rfl

theorem error_bind {α β : Type} (fault : Fault) (f : α → Except Fault β) :
    (Except.error fault >>= f) = .error fault := rfl

/-- A computation of two parts without results ends if both do. -/
theorem bind_eq_ok_iff {x y : Except Fault Unit} :
    (x >>= fun _ => y) = .ok () ↔ x = .ok () ∧ y = .ok () := by
  cases x with
  | error fault => simp [error_bind]
  | ok result => simp [ok_bind]

/-- A computation that returns with its result rearranged has returned. -/
theorem map_eq_ok_iff {α β : Type} {f : α → β} {x : Except Fault α} {b : β} :
    x.map f = .ok b ↔ ∃ a, x = .ok a ∧ f a = b := by
  cases x with
  | error fault => simp [Except.map]
  | ok a => simp [Except.map]

/-- A loop none of whose iterations faults. -/
theorem mapM_ok {α β : Type*} {f : α → Except Fault β} {g : α → β} (xs : List α)
    (h : ∀ x ∈ xs, f x = .ok (g x)) : xs.mapM f = .ok (xs.map g) := by
  induction xs with
  | nil => rfl
  | cons x xs ih =>
      rw [List.mapM_cons, h x List.mem_cons_self, ih fun y hy => h y (List.mem_cons_of_mem _ hy)]
      rfl

/-- Loops that only differ in what their iterations do not depend on have the same results. -/
theorem exists_mapM_ok {ι α β : Type*} {f : ι → α → Except Fault β} {P : α → β → Prop}
    (xs : List α) (h : ∀ x ∈ xs, ∃ y, P x y ∧ ∀ i, f i x = .ok y) :
    ∃ ys, List.Forall₂ P xs ys ∧ ∀ i, xs.mapM (f i) = .ok ys := by
  induction xs with
  | nil => exact ⟨[], .nil, fun _ => rfl⟩
  | cons x xs ih =>
      obtain ⟨y, hP, hy⟩ := h x List.mem_cons_self
      obtain ⟨ys, hall, hys⟩ := ih fun z hz => h z (List.mem_cons_of_mem _ hz)
      refine ⟨y :: ys, .cons hP hall, ?_⟩
      intro i
      rw [List.mapM_cons, hy i, hys i]
      rfl

/-- A loop that has ended has executed all its iterations. -/
theorem exists_ok_of_mapM {α β : Type*} {f : α → Except Fault β} {xs : List α} {ys : List β}
    (h : xs.mapM f = .ok ys) : ∀ x ∈ xs, ∃ y, f x = .ok y := by
  induction xs generalizing ys with
  | nil => simp
  | cons x xs ih =>
      rw [List.mapM_cons] at h
      cases hx : f x with
      | error fault => exact absurd h (by simp [hx, bind, Except.bind])
      | ok y =>
          cases hxs : xs.mapM f with
          | error fault => exact absurd h (by simp [hx, hxs, bind, Except.bind])
          | ok others =>
              intro z hz
              rcases List.mem_cons.mp hz with rfl | hz
              · exact ⟨y, hx⟩
              · exact ih hxs z hz

/-- A loop without a result that ends has executed all its iterations. -/
theorem forM_eq_ok_iff {α : Type} {f : α → Except Fault PUnit} {xs : List α} :
    xs.forM f = .ok () ↔ ∀ x ∈ xs, f x = .ok () := by
  induction xs with
  | nil => exact iff_of_true rfl (by simp)
  | cons x xs ih =>
      have hcons : (x :: xs).forM f = f x >>= fun _ => xs.forM f := rfl
      rw [hcons, List.forall_mem_cons, ← ih]
      exact bind_eq_ok_iff

namespace CInt

/-- A result of type `int`. -/
def checked (x : ℤ) : Except Fault ℤ :=
  if -2 ^ 31 ≤ x ∧ x < 2 ^ 31 then .ok x else .error .overflow

def add (x y : ℤ) : Except Fault ℤ := checked (x + y)

def sub (x y : ℤ) : Except Fault ℤ := checked (x - y)

def mul (x y : ℤ) : Except Fault ℤ := checked (x * y)

/-- Division truncates towards zero. -/
def div (x y : ℤ) : Except Fault ℤ :=
  if y = 0 then .error .divisionByZero else checked (x.tdiv y)

theorem checked_ok {x : ℤ} (hlow : -2 ^ 31 ≤ x) (hhigh : x < 2 ^ 31) : checked x = .ok x :=
  if_pos ⟨hlow, hhigh⟩

theorem checked_eq_ok {x y : ℤ} (h : checked x = .ok y) : y = x ∧ -2 ^ 31 ≤ x ∧ x < 2 ^ 31 := by
  rw [checked] at h
  split at h
  · next hbounds => exact ⟨(Except.ok.inj h).symm, hbounds⟩
  · exact absurd h (by simp)

/-- A quotient of non-negative numbers. -/
theorem div_ok {x y : ℤ} (hx : 0 ≤ x) (hy : 0 < y) (hhigh : x < 2 ^ 31) :
    div x y = .ok (x / y) := by
  have hquot := Int.ediv_nonneg hx (Int.le_of_lt hy)
  have hle := Int.ediv_le_self y hx
  rw [div, if_neg (by omega), Int.tdiv_eq_ediv_of_nonneg hx]
  exact checked_ok (by omega) (by omega)

end CInt

/-- The sum of two numbers of type `long`, which has 64 bits. -/
def CLong.add (x y : ℤ) : Except Fault ℤ :=
  if -2 ^ 63 ≤ x + y ∧ x + y < 2 ^ 63 then .ok (x + y) else .error .overflow

end Library
