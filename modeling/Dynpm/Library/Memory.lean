import Mathlib.Data.List.Basic

/-! # Byte ranges

Memory objects are lists of cells. `store` and `load` act on the range that starts at an
offset, as `memcpy` does.
-/

namespace Library

variable {β : Type*}

/-- The object `mem` after `cells` has been copied to `offset`. -/
def store (mem : List β) (offset : ℕ) (cells : List β) : List β :=
  mem.take offset ++ cells ++ mem.drop (offset + cells.length)

/-- The `count` cells of `mem` from `offset` on. -/
def load (mem : List β) (offset count : ℕ) : List β :=
  (mem.drop offset).take count

theorem length_store (mem cells : List β) (offset : ℕ)
    (h : offset + cells.length ≤ mem.length) : (store mem offset cells).length = mem.length := by
  simp only [store, List.length_append, List.length_take, List.length_drop]
  omega

/-- Loading a stored range returns what was stored, whatever the object held before. -/
theorem load_store_self (mem cells : List β) (offset : ℕ) (h : offset ≤ mem.length) :
    load (store mem offset cells) offset cells.length = cells := by
  have htake : (mem.take offset).length = offset := by
    simp only [List.length_take]
    omega
  rw [load, store, List.append_assoc, List.drop_append, htake, Nat.sub_self]
  simp

end Library
