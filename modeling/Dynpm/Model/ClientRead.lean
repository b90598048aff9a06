import Dynpm.Library.Framing
import Dynpm.Model.Frame

/-! # The read callback of a client

Model of `_client_on_read` in `src/network/client.c`. The callback only accepts an input buffer
that holds exactly one frame, and terminates the process otherwise.
-/

namespace Dynpm.ClientRead

open Library

/-- The read path of one connection. `input` is what the input buffer still holds, `mallocs` the
number of read buffers allocated, `handled` lists the buffers given to the handler of the
connection, and `received` is the stream so far. -/
structure State where
  input : List UInt8
  mallocs : ℕ
  handled : List (List UInt8)
  exited : Bool
  received : List UInt8

/-- The loop of `_client_on_read`: the read buffer and the bytes left in the input buffer. The
loop is left when the message is complete or no byte is available any more. -/
def readLoop (available readBuffer : List UInt8) (messageBytesRead : ℕ) :
    List UInt8 × List UInt8 :=
  if available = [] then (readBuffer, [])
  else
    let chunk := available.take maxMessageSize
    let readBuffer := store readBuffer messageBytesRead chunk
    let messageBytesRead := messageBytesRead + chunk.length
    if messageBytesRead = maxMessageSize then (readBuffer, available.drop maxMessageSize)
    else readLoop (available.drop maxMessageSize) readBuffer messageBytesRead
termination_by available.length
decreasing_by
  have := List.length_pos_iff.mpr ‹¬available = []›
  simp only [maxMessageSize, List.length_drop]
  omega

/-- `_client_on_read` after the given bytes have arrived. `exit(-1)` ends the process, so that
nothing happens any more. -/
def onRead (malloc : ℕ → Frame) (s : State) (arrived : List UInt8) : State :=
  if s.exited then s
  else
    let input := s.input ++ arrived
    let received := s.received ++ arrived
    if input.length ≠ maxMessageSize then { s with input, received, exited := true }
    else
      let (readBuffer, rest) := readLoop input (malloc s.mallocs).bytes 0
      { s with
        input := rest
        mallocs := s.mallocs + 1
        handled := s.handled ++ [readBuffer]
        received }

/-- Before the first callback. -/
def initial : State := ⟨[], 0, [], false, []⟩

/-- The state after a sequence of callbacks, each with the bytes that arrived before it. -/
def run (malloc : ℕ → Frame) (chunks : List (List UInt8)) : State :=
  chunks.foldl (onRead malloc) initial

/-- The handler has been called once for each complete frame, in order, and the process has not
been terminated. -/
def State.Reassembled (s : State) : Prop :=
  s.exited = false ∧ s.handled = frames maxMessageSize s.received

end Dynpm.ClientRead
