import Dynpm.Model.Protocol

/-! # Text in a frame

A text that is printed into a frame is what the string functions find there, whatever the
frame held before.
-/

namespace Dynpm

open Library Library.Stdio

namespace Frame

/-- A write inside the frame succeeds. -/
theorem write_ok (frame : Frame) (offset : ℕ) (data : List UInt8)
    (h : offset + data.length ≤ maxMessageSize) :
    ∃ out, frame.write offset data = .ok out ∧ out.bytes = store frame.bytes offset data := by
  rw [write, dif_pos h]
  exact ⟨_, rfl, rfl⟩

theorem read_ok {frame : Frame} {offset count : ℕ} (h : offset + count ≤ maxMessageSize) :
    frame.read offset count = .ok (load frame.bytes offset count) := by
  rw [read, if_pos h]

/-- The frame begins with the given string and its NUL. -/
def Holds (frame : Frame) (string : List UInt8) : Prop :=
  (∀ b ∈ string, b ≠ 0) ∧ ∃ rest, frame.bytes = string ++ 0 :: rest

theorem Holds.nul_mem {frame : Frame} {string : List UInt8} (h : frame.Holds string) :
    0 ∈ frame.bytes := by
  obtain ⟨_, rest, hbytes⟩ := h
  simp [hbytes]

theorem Holds.cstring_eq {frame : Frame} {string : List UInt8} (h : frame.Holds string) :
    cstring frame.bytes = string := by
  obtain ⟨hzero, rest, hbytes⟩ := h
  rw [hbytes, cstring_of_forall_ne hzero]

theorem Holds.text_eq {frame : Frame} {string : List UInt8} (h : frame.Holds string) :
    frame.text = .ok string := by
  rw [text, if_pos h.nul_mem, h.cstring_eq]

/-- Printing a string that fits. -/
theorem puts_ok (frame : Frame) {string : List UInt8} (hzero : ∀ b ∈ string, b ≠ 0)
    (hlen : string.length < maxMessageSize) :
    ∃ out, frame.puts string = .ok out ∧ out.Holds string := by
  obtain ⟨out, hout, hbytes⟩ := frame.write_ok 0 (string ++ [0])
    (by rw [List.length_append, List.length_singleton]; omega)
  refine ⟨out, hout, hzero, frame.bytes.drop (string.length + 1), ?_⟩
  simp [hbytes, store]

/-- A string that has been printed is the text of the frame. -/
theorem holds_of_puts {frame out : Frame} {string : List UInt8} (hzero : ∀ b ∈ string, b ≠ 0)
    (h : frame.puts string = .ok out) : out.Holds string := by
  by_cases hlen : string.length < maxMessageSize
  · obtain ⟨out', hout', hholds⟩ := frame.puts_ok hzero hlen
    exact Except.ok.inj (hout'.symm.trans h) ▸ hholds
  · rw [puts, write, dif_neg (by simpa [Nat.lt_succ_iff] using hlen)] at h
    exact absurd h (by simp)

/-- Appending to the string at the beginning of the frame. -/
theorem Holds.strcat_ok {frame : Frame} {front string : List UInt8} (h : frame.Holds front)
    (hzero : ∀ b ∈ string, b ≠ 0) (hlen : (front ++ string).length < maxMessageSize) :
    ∃ out, frame.strcat string = .ok out ∧ out.Holds (front ++ string) := by
  obtain ⟨out, hout, hbytes⟩ := frame.write_ok front.length (string ++ [0])
    (by simp only [List.length_append, List.length_singleton] at hlen ⊢; omega)
  refine ⟨out, ?_, ?_, frame.bytes.drop (front.length + (string ++ [0]).length), ?_⟩
  · rw [strcat, h.text_eq]
    exact hout
  · intro b hb
    rcases List.mem_append.mp hb with hb | hb
    · exact h.1 b hb
    · exact hzero b hb
  · obtain ⟨_, rest, hrest⟩ := h
    have htake : frame.bytes.take front.length = front := by
      rw [hrest, List.take_left']
      rfl
    rw [hbytes, store, htake]
    simp

/-- A string that has been appended stands behind the text of the frame. -/
theorem Holds.holds_of_strcat {frame out : Frame} {front string : List UInt8}
    (h : frame.Holds front) (hzero : ∀ b ∈ string, b ≠ 0)
    (hstrcat : frame.strcat string = .ok out) : out.Holds (front ++ string) := by
  by_cases hlen : (front ++ string).length < maxMessageSize
  · obtain ⟨out', hout', hholds⟩ := h.strcat_ok hzero hlen
    exact Except.ok.inj (hout'.symm.trans hstrcat) ▸ hholds
  · have hfault : ¬ front.length + (string ++ [0]).length ≤ maxMessageSize := by
      simp only [List.length_append, List.length_singleton] at hlen ⊢
      omega
    rw [strcat, h.text_eq] at hstrcat
    simp only [bind, Except.bind, write, dif_neg hfault] at hstrcat
    exact absurd hstrcat (by simp)

/-- The frame that `strtok` leaves. -/
theorem terminate_bytes (frame : Frame) (result : Strtok) :
    (frame.terminate result.overwritten).bytes = result.left frame.bytes := by
  rw [Strtok.left]
  cases result.overwritten with
  | none => rfl
  | some position => rfl

/-- A scan of a line of fields, seen from any of its fields on. -/
theorem Holds.sscanf_append {frame : Frame} {front args : List Arg} {tail : List UInt8}
    (h : frame.Holds (line (front ++ args) ++ tail)) (hne : front ≠ []) {format : String}
    {rest : List Directive} (hformat : parseFormat format.toList = lineDirectives front ++ rest)
    (capacities : List ℕ) :
    frame.sscanf format capacities =
      scan (lineDirectives front ++ rest) capacities
        (line front ++ (blankFields args ++ tail)) := by
  rw [sscanf, h.text_eq, hformat, line_append hne, List.append_assoc]
  rfl

/-- A scan of a line of fields, or of the first fields of a longer line. -/
theorem Holds.sscanf_line {frame : Frame} {front args : List Arg} {tail : List UInt8}
    (h : frame.Holds (line (front ++ args) ++ tail)) (hne : front ≠ []) (htail : Separated tail)
    {capacities : List ℕ} (hfits : Fits front capacities) {format : String}
    {rest : List Directive} (hformat : parseFormat format.toList = lineDirectives front ++ rest)
    (hrest : ∀ capacities text, scan rest capacities text = .ok []) :
    frame.sscanf format capacities = .ok front := by
  rw [h.sscanf_append hne hformat]
  exact scan_line hfits hrest (separated_blankFields args htail)

end Frame

/-- A frame of zero bytes. -/
def zeroFrame : Frame := ⟨List.replicate maxMessageSize 0, List.length_replicate⟩

/-- Memory that `malloc` has returned filled with zeros. -/
def zeroGarbage : Garbage := ⟨fun _ => 0, fun _ => []⟩

theorem sprintf_line {format : String} {args : List Arg} (tail : List UInt8)
    (h : parseFormat format.toList = lineDirectives args ++ tail.map .byte) :
    sprintf format args = line args ++ tail := by
  rw [sprintf, h, print_line]

end Dynpm
