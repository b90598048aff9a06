import Dynpm.Model.Protocol

/-! # Decoders in two threads

The workers of the server decode registrations of process managers at the same time. `strtok` is
one step on the cursor that the process saves between two calls, and everything that a decoder
does between two of its calls concerns memory of its own.
-/

namespace Dynpm.Protocol

open Library Library.Stdio

/-- The two workers. -/
inductive Thread where
  | first
  | second
  deriving DecidableEq, Repr

def Thread.other : Thread → Thread
  | .first => .second
  | .second => .first

/-- How far a decoder is. It reads the first line, and then the applications that this line
announces. -/
inductive Progress where
  | started
  | reading (values : List Arg) (applications : List Application)
  | faulted (fault : Fault)
  deriving DecidableEq

/-- The frames of the two threads, the position that `strtok` has saved with the frame that it
points into, and the progress of the threads. -/
structure Decoders where
  frame : Thread → Frame
  saved : Option (Thread × ℕ)
  progress : Thread → Progress

namespace Decoders

/-- `strtok(char_buff, "\r\n")` begins with the frame of the calling thread. -/
def strtokFirst (decoders : Decoders) (thread : Thread) :
    Except Fault (Option (List UInt8) × Decoders) := do
  let (line, buffer, cursor) ← (decoders.frame thread).strtok [13, 10] 0
  return (line, { decoders with
    frame := Function.update decoders.frame thread buffer
    saved := some (thread, cursor) })

/-- `strtok(NULL, "\r\n")` goes on from the saved position, in whichever frame it is. -/
def strtokNext (decoders : Decoders) : Except Fault (Option (List UInt8) × Decoders) :=
  match decoders.saved with
  | none => .error .nullPointer
  | some (owner, cursor) => do
      let (line, buffer, cursor) ← (decoders.frame owner).strtok [13, 10] cursor
      return (line, { decoders with
        frame := Function.update decoders.frame owner buffer
        saved := some (owner, cursor) })

/-- The thread goes on to the given progress. -/
def setProgress (decoders : Decoders) (thread : Thread) (progress : Progress) : Decoders :=
  { decoders with progress := Function.update decoders.progress thread progress }

/-- The call of `strtok` and the `sscanf` on its line. A fault leaves the thread without a
message. -/
def advance (decoders : Decoders) (thread : Thread) (format : String) (capacities : List ℕ)
    (call : Except Fault (Option (List UInt8) × Decoders)) (next : List Arg → Progress) :
    Decoders :=
  match call with
  | .error fault => decoders.setProgress thread (.faulted fault)
  | .ok (line, decoders) =>
      match scanLine line format capacities with
      | .error fault => decoders.setProgress thread (.faulted fault)
      | .ok values => decoders.setProgress thread (next values)

/-- One call of `strtok` by the given thread. A thread that has read all applications makes no
further call. -/
def step (malloc : Thread → ℕ → Garbage) (decoders : Decoders) (thread : Thread) : Decoders :=
  match decoders.progress thread with
  | .started =>
      decoders.advance thread "%d %d %d %s %d %d" [256] (decoders.strtokFirst thread)
        fun values => .reading values []
  | .reading values applications =>
      if applications.length < ((malloc thread 0).intAt values 5).toNat then
        decoders.advance thread "%d %d %d %s" [512] decoders.strtokNext fun line =>
          .reading values (applications ++ [{
            applicationIndex := (malloc thread (applications.length + 1)).intAt line 0
            malleabilityMode := (malloc thread (applications.length + 1)).intAt line 1
            nodeCount := (malloc thread (applications.length + 1)).intAt line 2
            nodes := (malloc thread (applications.length + 1)).strAt line 3 }])
      else decoders
  | .faulted _ => decoders

/-- The threads make their calls in the given order. -/
def run (malloc : Thread → ℕ → Garbage) (decoders : Decoders) (schedule : List Thread) : Decoders :=
  schedule.foldl (step malloc) decoders

/-- Two threads that have received a frame each. The position saved by an earlier call may be
anywhere. -/
def start (frame : Thread → Frame) (saved : Option (Thread × ℕ)) : Decoders :=
  ⟨frame, saved, fun _ => .started⟩

end Decoders

/-- The message of a thread that has read all its applications. -/
def Progress.message? (malloc : ℕ → Garbage) : Progress → Option RegisterProcessManagerMsg
  | .started | .faulted _ => none
  | .reading values applications =>
      if applications.length = ((malloc 0).intAt values 5).toNat then
        some {
          pid := (malloc 0).intAt values 2
          hostname := (malloc 0).strAt values 3
          jobIndex := (malloc 0).intAt values 4
          applicationCount := (malloc 0).intAt values 5
          applications }
      else none

end Dynpm.Protocol
