import Mathlib.Data.Finset.Card
import Mathlib.Data.Fintype.Card
import Mathlib.Data.List.FinRange

/-! # Tables of slots

A table of a fixed number of slots, each of which is free or holds an entry.
-/

namespace Library.SlotTable

variable {n : ℕ} {α : Type*} {table : Fin n → Option α} {i : Fin n}

/-- The slots that hold an entry. -/
def occupied (table : Fin n → Option α) : Finset (Fin n) :=
  Finset.univ.filter fun i => (table i).isSome

/-- The first free slot. -/
def firstFree (table : Fin n → Option α) : Option (Fin n) :=
  (List.finRange n).find? fun i => (table i).isNone

@[simp] theorem mem_occupied : i ∈ occupied table ↔ (table i).isSome := by
  simp [occupied]

/-- Filling a free slot. -/
theorem card_occupied_fill (h : table i = none) (a : α) :
    (occupied (Function.update table i (some a))).card = (occupied table).card + 1 := by
  have hinsert : occupied (Function.update table i (some a)) = insert i (occupied table) := by
    ext j
    by_cases hj : j = i
    · subst hj
      simp
    · simp [hj]
  rw [hinsert, Finset.card_insert_of_notMem (by simp [h])]

/-- Clearing an occupied slot. -/
theorem card_occupied_clear (h : (table i).isSome) :
    (occupied (Function.update table i none)).card + 1 = (occupied table).card := by
  have herase : occupied (Function.update table i none) = (occupied table).erase i := by
    ext j
    by_cases hj : j = i
    · subst hj
      simp
    · simp [hj]
  rw [herase, Finset.card_erase_add_one (mem_occupied.mpr h)]

/-- Clearing several occupied slots. -/
theorem card_occupied_clear_all {slots : Finset (Fin n)} (h : slots ⊆ occupied table) :
    (occupied fun i => if i ∈ slots then none else table i).card + slots.card =
      (occupied table).card := by
  have hsdiff : (occupied fun i => if i ∈ slots then none else table i) =
      occupied table \ slots := by
    ext j
    by_cases hj : j ∈ slots
    · simp [hj]
    · simp [hj]
  rw [hsdiff, Finset.card_sdiff_add_card_eq_card h]

theorem firstFree_some (h : firstFree table = some i) : table i = none := by
  simpa using List.find?_some h

theorem firstFree_none : firstFree table = none ↔ ∀ i, (table i).isSome := by
  simp [firstFree, Option.isSome_iff_ne_none]

/-- All slots are occupied if and only if as many are occupied as there are. -/
theorem card_occupied_eq_iff : (occupied table).card = n ↔ ∀ i, (table i).isSome := by
  have hcard := Finset.card_eq_iff_eq_univ (occupied table)
  rw [Fintype.card_fin] at hcard
  rw [hcard, Finset.eq_univ_iff_forall]
  simp

theorem card_occupied_le : (occupied table).card ≤ n := by
  have hcard := Finset.card_le_univ (occupied table)
  rwa [Fintype.card_fin] at hcard

end Library.SlotTable
