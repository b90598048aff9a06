import Dynpm.Library.Memory
import Mathlib.Data.List.Range
import Mathlib.Algebra.Order.Ring.Nat

/-! # Fixed-size frames of a stream -/

namespace Library

variable {β : Type*}

/-- The complete frames of `size` cells at the beginning of a stream, in order. -/
def frames (size : ℕ) (stream : List β) : List (List β) :=
  (List.range (stream.length / size)).map fun k => load stream (k * size) size

theorem frames_of_lt {size : ℕ} {stream : List β} (h : stream.length < size) :
    frames size stream = [] := by
  simp [frames, Nat.div_eq_of_lt h]

/-- A block of the frame size at the front is the first frame. -/
theorem frames_block_append {size : ℕ} (hsize : 0 < size) {block : List β}
    (hblock : block.length = size) (rest : List β) :
    frames size (block ++ rest) = block :: frames size rest := by
  have hcount : (block ++ rest).length / size = rest.length / size + 1 := by
    rw [List.length_append, hblock, Nat.add_div_left _ hsize]
  rw [frames, hcount, List.range_succ_eq_map, List.map_cons, List.map_map]
  congr 1
  · simp [load, hblock]
  · apply List.map_congr_left
    intro k _
    have hdrop : (block ++ rest).drop ((k + 1) * size) = rest.drop (k * size) := by
      rw [Nat.add_mul, Nat.one_mul, Nat.add_comm, ← List.drop_drop, ← hblock]
      simp
    simp [load, hdrop]

/-- A stream that is cut at a frame boundary has the frames of its two parts. -/
theorem frames_append {size : ℕ} (hsize : 0 < size) (front rest : List β)
    (hfront : size ∣ front.length) :
    frames size (front ++ rest) = frames size front ++ frames size rest := by
  obtain ⟨k, hk⟩ := hfront
  induction k generalizing front with
  | zero =>
      obtain rfl : front = [] := List.length_eq_zero_iff.mp (by simpa using hk)
      simp [@frames_of_lt β size [] hsize]
  | succ k ih =>
      have htake : (front.take size).length = size := by
        rw [List.length_take, hk, Nat.mul_succ]
        omega
      have hdrop : (front.drop size).length = size * k := by
        rw [List.length_drop, hk, Nat.mul_succ]
        omega
      rw [← List.take_append_drop size front, List.append_assoc,
        frames_block_append hsize htake, frames_block_append hsize htake, ih _ hdrop,
        List.cons_append]

/-- Blocks of the frame size are the frames of the stream that they make up. -/
theorem frames_flatten {size : ℕ} (hsize : 0 < size) {blocks : List (List β)}
    (hblocks : ∀ block ∈ blocks, block.length = size) : frames size blocks.flatten = blocks := by
  induction blocks with
  | nil => exact frames_of_lt hsize
  | cons block blocks ih =>
      have hrest := ih fun b hb => hblocks b (List.mem_cons_of_mem block hb)
      rw [List.flatten_cons, frames_block_append hsize (hblocks block List.mem_cons_self), hrest]

theorem length_frames (size : ℕ) (stream : List β) :
    (frames size stream).length = stream.length / size := by
  rw [frames, List.length_map, List.length_range]

/-- A frame that is complete stays as it is when the stream goes on. -/
theorem frames_mono (size : ℕ) {stream whole : List β} (h : stream <+: whole) :
    frames size stream <+: frames size whole := by
  obtain ⟨rest, rfl⟩ := h
  have hcount : stream.length / size ≤ (stream ++ rest).length / size :=
    Nat.div_le_div_right (by simp)
  have hrange : List.range (stream.length / size) <+:
      List.range ((stream ++ rest).length / size) := by
    obtain ⟨more, hmore⟩ := Nat.exists_eq_add_of_le hcount
    rw [hmore, List.range_add]
    exact List.prefix_append _ _
  have hloads : frames size stream =
      (List.range (stream.length / size)).map fun k => load (stream ++ rest) (k * size) size := by
    apply List.map_congr_left
    intro k hk
    have hend : (k + 1) * size ≤ stream.length := by
      calc
        (k + 1) * size ≤ stream.length / size * size :=
          Nat.mul_le_mul_right _ (List.mem_range.mp hk)
        _ ≤ stream.length := Nat.div_mul_le_self _ _
    rw [Nat.add_mul, Nat.one_mul] at hend
    rw [load, load, List.drop_append_of_le_length (by omega), List.take_append_of_le_length]
    rw [List.length_drop]
    omega
  rw [hloads]
  exact hrange.map _

/-- Bytes that do not complete a frame add no frame. -/
theorem frames_append_of_lt {size : ℕ} (stream rest : List β)
    (h : stream.length % size + rest.length < size) :
    frames size (stream ++ rest) = frames size stream := by
  have hsize : 0 < size := by omega
  have hcount : (stream ++ rest).length / size = stream.length / size := by
    have hsplit := Nat.div_add_mod stream.length size
    rw [List.length_append]
    conv_lhs => rw [← hsplit]
    rw [Nat.add_assoc, Nat.mul_add_div hsize, Nat.div_eq_of_lt h, Nat.add_zero]
  have hmono := frames_mono size (List.prefix_append stream rest)
  refine (hmono.eq_of_length ?_).symm
  rw [length_frames, length_frames, hcount]

end Library
