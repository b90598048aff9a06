import Dynpm.Library.Memory
import Dynpm.Library.Strtok
import Dynpm.Model.Common

/-! # Message frames

The buffers of `DYNPM_MAX_MESSAGE_SIZE` bytes that hold one serialised message, and the
operations of the C library that the serialisers and deserialisers apply to them. An access
outside the frame is a fault.
-/

namespace Dynpm

open Library Library.Stdio

/-- A buffer for one message. -/
structure Frame where
  bytes : List UInt8
  length_eq : bytes.length = maxMessageSize
  deriving DecidableEq

namespace Frame

/-- `memcpy` into the frame. -/
def write (frame : Frame) (offset : ℕ) (data : List UInt8) : Except Fault Frame :=
  if h : offset + data.length ≤ maxMessageSize then
    .ok ⟨store frame.bytes offset data, by
      rw [length_store _ _ _ (by rw [frame.length_eq]; exact h), frame.length_eq]⟩
  else .error .outOfBounds

/-- `memcpy` out of the frame. -/
def read (frame : Frame) (offset count : ℕ) : Except Fault (List UInt8) :=
  if offset + count ≤ maxMessageSize then .ok (load frame.bytes offset count)
  else .error .outOfBounds

/-- The C string at the beginning of the frame, where there is a NUL to end it. -/
def text (frame : Frame) : Except Fault (List UInt8) :=
  if 0 ∈ frame.bytes then .ok (cstring frame.bytes) else .error .outOfBounds

/-- Storing a C string at the beginning of the frame, as `sprintf` does with its result. -/
def puts (frame : Frame) (string : List UInt8) : Except Fault Frame :=
  frame.write 0 (string ++ [0])

/-- `strcat` to the string at the beginning of the frame. -/
def strcat (frame : Frame) (string : List UInt8) : Except Fault Frame := do
  let text ← frame.text
  frame.write text.length (string ++ [0])

/-- `sscanf` on the string at the beginning of the frame. -/
def sscanf (frame : Frame) (format : String) (capacities : List ℕ) :
    Except Fault (List Arg) := do
  let text ← frame.text
  scan (parseFormat format.toList) capacities text

/-- The frame with a NUL at the given position, if there is one. -/
def terminate (frame : Frame) : Option ℕ → Frame
  | none => frame
  | some position => ⟨frame.bytes.set position 0, by rw [List.length_set, frame.length_eq]⟩

/-- `strtok` on the frame from the saved cursor: the token, the frame with its delimiter
overwritten, and the new cursor. -/
def strtok (frame : Frame) (delimiters : List UInt8) (cursor : ℕ) :
    Except Fault (Option (List UInt8) × Frame × ℕ) := do
  let result ← Library.strtok delimiters frame.bytes cursor
  return (result.token, frame.terminate result.overwritten, result.cursor)

end Frame

/-- What `sprintf` prints. -/
def sprintf (format : String) (args : List Arg) : List UInt8 :=
  print (parseFormat format.toList) args

/-- What freshly allocated memory holds at the target of each conversion of a scan. -/
structure Garbage where
  int : ℕ → UInt32
  str : ℕ → List UInt8

/-- The target of the conversion at `position`, which keeps what it held if the scan ended
before. -/
def Garbage.intAt (malloc : Garbage) (values : List Arg) (position : ℕ) : UInt32 :=
  match values[position]? with
  | some (.int v) => v
  | _ => malloc.int position

/-- The buffer of the `%s` conversion at `position`. -/
def Garbage.strAt (malloc : Garbage) (values : List Arg) (position : ℕ) : List UInt8 :=
  match values[position]? with
  | some (.str s) => s
  | _ => malloc.str position

end Dynpm
