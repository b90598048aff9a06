import Dynpm.Model.ClientRead
import Dynpm.Verification.Protocol.Frame

/-! # Reassembly of frames by a client

The handler is called once for each frame as long as the callbacks find one whole frame each.
The first callback that finds more or less ends the process.
-/

namespace Dynpm.ClientRead

open Library

variable {s : State} {chunk : List UInt8}

/-- Between two callbacks: nothing is left in the input buffer, and every frame received so far
has been handled. -/
structure Aligned (s : State) : Prop where
  running : s.exited = false
  drained : s.input = []
  whole : maxMessageSize ∣ s.received.length
  handled : s.handled = frames maxMessageSize s.received

theorem aligned_initial : Aligned initial where
  running := rfl
  drained := rfl
  whole := Nat.dvd_zero _
  handled := (frames_of_lt (by decide)).symm

/-- A whole frame is read at once, whatever the read buffer held. -/
theorem readLoop_frame (hchunk : chunk.length = maxMessageSize) (buffer : Frame) :
    readLoop chunk buffer.bytes 0 = (chunk, []) := by
  have hne : chunk ≠ [] := by
    rintro rfl
    exact absurd hchunk (by decide)
  have htake : chunk.take maxMessageSize = chunk := by
    rw [← hchunk, List.take_length]
  have hstore : store buffer.bytes 0 chunk = chunk := by
    simp [store, hchunk, buffer.length_eq]
  rw [readLoop, if_neg hne]
  simp only [htake, hstore, hchunk, Nat.zero_add, if_true]
  rw [← hchunk, List.drop_length]

theorem Aligned.onRead_frame (h : Aligned s) (malloc : ℕ → Frame)
    (hchunk : chunk.length = maxMessageSize) : Aligned (onRead malloc s chunk) := by
  have hread : onRead malloc s chunk = { s with
      mallocs := s.mallocs + 1
      handled := s.handled ++ [chunk]
      received := s.received ++ chunk } := by
    simp only [onRead, h.running, h.drained, List.nil_append, hchunk, ne_eq, not_true_eq_false,
      Bool.false_eq_true, if_false, readLoop_frame hchunk]
  have hframe : frames maxMessageSize chunk = [chunk] := by
    rw [← List.append_nil chunk, frames_block_append (by decide) hchunk,
      frames_of_lt (by decide), List.append_nil]
  rw [hread]
  refine ⟨h.running, h.drained, ?_, ?_⟩
  · rw [List.length_append, hchunk]
    exact Nat.dvd_add h.whole (Nat.dvd_refl _)
  · change s.handled ++ [chunk] = _
    rw [frames_append (by decide) _ _ h.whole, hframe, h.handled]

/-- Any other amount ends the process. -/
theorem Aligned.onRead_other (h : Aligned s) (malloc : ℕ → Frame)
    (hchunk : chunk.length ≠ maxMessageSize) : (onRead malloc s chunk).exited = true := by
  simp only [onRead, h.running, h.drained, List.nil_append, hchunk, ne_eq, not_false_eq_true,
    Bool.false_eq_true, if_false, if_true]

/-- A process that has ended stays so. -/
theorem exited_foldl (malloc : ℕ → Frame) (chunks : List (List UInt8)) (h : s.exited = true) :
    (chunks.foldl (onRead malloc) s).exited = true := by
  induction chunks with
  | nil => exact h
  | cons chunk chunks ih =>
      have hsame : onRead malloc s chunk = s := by rw [onRead, if_pos h]
      rw [List.foldl_cons, hsame]
      exact ih

theorem Aligned.reassembled_iff (h : Aligned s) (malloc : ℕ → Frame)
    (chunks : List (List UInt8)) :
    (chunks.foldl (onRead malloc) s).Reassembled ↔
      ∀ chunk ∈ chunks, chunk.length = maxMessageSize := by
  induction chunks generalizing s with
  | nil => exact ⟨fun _ => by simp, fun _ => ⟨h.running, h.handled⟩⟩
  | cons chunk chunks ih =>
      rw [List.foldl_cons, List.forall_mem_cons]
      by_cases hchunk : chunk.length = maxMessageSize
      · rw [ih (h.onRead_frame malloc hchunk)]
        exact ⟨fun hrest => ⟨hchunk, hrest⟩, fun hall => hall.2⟩
      · have hexited := exited_foldl malloc chunks (h.onRead_other malloc hchunk)
        constructor
        · rintro ⟨hrunning, _⟩
          exact absurd (hrunning.symm.trans hexited) (by decide)
        · intro hall
          exact absurd hall.1 hchunk

/-- Whatever the stream and the way it is cut, the handler is called once for each complete frame
and the process goes on if and only if each callback finds exactly one frame. -/
theorem client_reassembly_iff (malloc : ℕ → Frame) (chunks : List (List UInt8)) :
    (run malloc chunks).Reassembled ↔ ∀ chunk ∈ chunks, chunk.length = maxMessageSize :=
  aligned_initial.reassembled_iff malloc chunks

/-- Two frames that arrive together. -/
def coalescedFrames : List (List UInt8) := [List.replicate 8192 7]

/-- The process is terminated by two frames that are available at once. -/
theorem coalescedFrames_terminate :
    (run (fun _ => zeroFrame) coalescedFrames).exited = true ∧
      ¬ (run (fun _ => zeroFrame) coalescedFrames).Reassembled := by
  have hexited : (run (fun _ => zeroFrame) coalescedFrames).exited = true := by
    have hlength : (List.replicate 8192 (7 : UInt8)).length ≠ maxMessageSize := by
      rw [List.length_replicate]
      decide
    rw [run, coalescedFrames, List.foldl_cons, List.foldl_nil]
    exact aligned_initial.onRead_other _ hlength
  refine ⟨hexited, ?_⟩
  rintro ⟨hrunning, _⟩
  exact absurd (hrunning.symm.trans hexited) (by decide)

end Dynpm.ClientRead
