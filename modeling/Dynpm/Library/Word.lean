import Mathlib.Data.UInt

/-! # 32-bit words

Signed and unsigned readings of one word, and wrapping event counters. A counter that is
incremented once per event holds the number of events modulo `2 ^ 32`; two such counters can
be compared as long as their event counts are adjacent.
-/

namespace Library

/-- The two readings of a word agree on the nonnegative half. -/
theorem toNat_toUInt32_of_nonneg (x : Int32) (h : 0 ≤ x.toInt) :
    x.toUInt32.toNat = x.toInt.toNat := by
  have hx : x.toInt = x.toUInt32.toBitVec.toInt := rfl
  have hn : x.toUInt32.toNat = x.toUInt32.toBitVec.toNat := rfl
  rw [BitVec.toInt_eq_toNat_cond] at hx
  split at hx <;> omega

theorem toInt_toInt32_of_lt (v : UInt32) (h : v.toNat < 2 ^ 31) : v.toInt32.toInt = v.toNat := by
  have hv : v.toInt32.toInt = v.toBitVec.toInt := rfl
  have hn : v.toNat = v.toBitVec.toNat := rfl
  rw [BitVec.toInt_eq_toNat_cond] at hv
  split at hv <;> omega

theorem ofNat_add_one (k : ℕ) : UInt32.ofNat (k + 1) = UInt32.ofNat k + 1 := by
  rw [UInt32.ofNat_add]
  rfl

/-- Counters of adjacent event counts agree only when the event counts do. -/
theorem ofNat_eq_ofNat_iff {a b : ℕ} (hab : a ≤ b) (hba : b ≤ a + 1) :
    UInt32.ofNat a = UInt32.ofNat b ↔ a = b := by
  rw [← UInt32.toNat_inj, UInt32.toNat_ofNat', UInt32.toNat_ofNat']
  omega

/-- A counter is one behind another exactly when an event is still to be counted. -/
theorem ofNat_eq_ofNat_sub_one (a : ℕ) : UInt32.ofNat a = UInt32.ofNat (a + 1) - 1 := by
  rw [ofNat_add_one]
  simp

end Library
