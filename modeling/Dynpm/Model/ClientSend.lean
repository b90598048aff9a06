import Dynpm.Model.Client
import Dynpm.Model.Send

/-! # Sending by the index of a connection

Model of `dynpm_send_buffer_to_server` and `dynpm_send_message_to_server` of
`src/network/client.c`, which run beside the functions that connect and disconnect. The entry of
the table is tested under `server_connections_mutex` and read once more after the mutex has been
released. A connect that succeeds enqueues its registration on the new connection object before it
releases the mutex.
-/

namespace Dynpm.ClientSend

open Library Dynpm.Protocol Dynpm.Send

/-- What a call sends. `writeBuffer` and `app` are what the memory of `write_buffer` and of the
counter in the serialiser hold. -/
inductive Outgoing where
  | buffer (frame : Frame)
  | message (header : Header) (msg : Message) (writeBuffer : Frame) (app : Int32)

/-- The frame to enqueue, or nothing for a message whose type is not sent to servers. -/
def Outgoing.frame : Outgoing → Option (Except Fault Frame)
  | .buffer frame => some (.ok frame)
  | .message header msg writeBuffer app => serializeToServer app header msg writeBuffer

/-- What `dynpm_connect_to_server` registers with: its argument `source`, and what `getpid` and
`gethostname` return. -/
structure Registration where
  source : UInt32
  regmsg : RegisterConnectionMsg
  writeBuffer : Frame

/-- The message with its header of the type `REGISTER_CONNECTION`. -/
def Registration.outgoing (registration : Registration) : Outgoing :=
  .message ⟨registration.source, 1⟩ (.registerConnection registration.regmsg)
    registration.writeBuffer 0

/-- Where a thread is in a send. -/
inductive Sender where
  | idle
  /-- Has seen the connection object `checked` in the entry and released the mutex. -/
  | checked (outgoing : Outgoing) (index : Fin maxServerConnections) (checked : ℕ)
  /-- Has read the entry again and found the object `connection`. -/
  | holding (outgoing : Outgoing) (checked connection : ℕ)
  /-- Has read the entry again and goes on with a null pointer. -/
  | null

/-- How a send has ended: it has returned -1, or it has seen the object `checked` and enqueued
the frame on the object `connection`. Or a connect has enqueued its registration on the new object
`connection`. -/
inductive Result where
  | refused
  | enqueued (checked connection : ℕ) (frame : Frame)
  | registered (connection : ℕ) (frame : Frame)

/-- The client, the message queues of the connection objects, the sending threads, and the
results of the sends and of the connects so far. -/
structure State where
  client : Client.State
  queue : ℕ → List Frame
  sender : ℕ → Sender
  results : List Result

inductive Action where
  | connect (registration : Registration) (outcome : Client.ConnectOutcome)
  | disconnect (serverIndex : Fin maxServerConnections)
  | remoteClose (connection : ℕ)
  | threadExit (connection : ℕ)
  | check (t : ℕ) (outgoing : Outgoing) (index : Fin maxServerConnections)
  | read (t : ℕ)
  | enqueue (t : ℕ)

/-- `dynpm_connect_to_server`, unless the serialiser of its registration faults. -/
def connectToServer (s : State) (registration : Registration) (outcome : Client.ConnectOutcome) :
    Option State :=
  match Client.connectToServer s.client outcome with
  | (client, .connected index) =>
      match client.serverConnections index, registration.outgoing.frame with
      | some connection, some (.ok frame) =>
          some { s with
            client
            queue := Function.update s.queue connection (s.queue connection ++ [frame])
            results := s.results ++ [.registered connection frame] }
      | _, _ => none
  | (client, _) => some { s with client }

/-- The other steps of the client leave the queues alone. -/
def clientStep (s : State) (action : Client.Action) : Option State :=
  (Client.system.step s.client action).map fun client => { s with client }

/-- A send returns -1. -/
def State.refuse (s : State) : State := { s with results := s.results ++ [.refused] }

/-- The section under `server_connections_mutex`. -/
def checkEntry (s : State) (t : ℕ) (outgoing : Outgoing) (index : Fin maxServerConnections) :
    State :=
  match s.client.serverConnections index with
  | none => s.refuse
  | some c => { s with sender := Function.update s.sender t (.checked outgoing index c) }

/-- The second read of the entry. -/
def readEntry (s : State) (t : ℕ) (outgoing : Outgoing) (index : Fin maxServerConnections)
    (checked : ℕ) : State :=
  match s.client.serverConnections index with
  | none => { s with sender := Function.update s.sender t .null }
  | some c => { s with sender := Function.update s.sender t (.holding outgoing checked c) }

/-- `_dynpm_internal_send_buffer_to_server` or `_dynpm_internal_send_message_to_server`, unless
the serialiser faults. -/
def enqueueFrame (s : State) (t : ℕ) (outgoing : Outgoing) (checked connection : ℕ) :
    Option State :=
  let s := { s with sender := Function.update s.sender t .idle }
  match outgoing.frame with
  | none => some s.refuse
  | some (.ok frame) =>
      some { s with
        queue := Function.update s.queue connection (s.queue connection ++ [frame])
        results := s.results ++ [.enqueued checked connection frame] }
  | some (.error _) => none

/-- The steps of the client and of the senders. The test needs `server_connections_mutex`, and no
thread goes on after an abort. -/
def step (s : State) : Action → Option State
  | .connect registration outcome =>
      if s.client.mutexHeld || s.client.aborted then none
      else connectToServer s registration outcome
  | .disconnect serverIndex => clientStep s (.disconnect serverIndex)
  | .remoteClose connection => clientStep s (.remoteClose connection)
  | .threadExit connection => clientStep s (.threadExit connection)
  | .check t outgoing index =>
      match s.sender t with
      | .idle =>
          if !s.client.clientInitialized then some s.refuse
          else if s.client.mutexHeld || s.client.aborted then none
          else some (checkEntry s t outgoing index)
      | _ => none
  | .read t =>
      match s.sender t with
      | .checked outgoing index checked =>
          if s.client.aborted then none else some (readEntry s t outgoing index checked)
      | _ => none
  | .enqueue t =>
      match s.sender t with
      | .holding outgoing checked connection =>
          if s.client.aborted then none else enqueueFrame s t outgoing checked connection
      | _ => none

/-- A client after `dynpm_client_init`, and threads that have not called anything. -/
def initial : State := ⟨Client.clientInit Client.State.static, fun _ => [], fun _ => .idle, []⟩

def system : System State Action where
  initial s := s = initial
  step := step

/-- The frame of a result that has been enqueued on the object `c`. -/
def Result.frameOn (c : ℕ) : Result → Option Frame
  | .refused => none
  | .enqueued _ connection frame => if connection = c then some frame else none
  | .registered connection frame => if connection = c then some frame else none

/-- No send has gone on with a null pointer, each has enqueued on the object that it had seen,
and the queue of each object holds the frame of its registration and one frame for each send that
has enqueued on it. -/
structure State.Safe (s : State) : Prop where
  no_null : ∀ t, s.sender t ≠ .null
  own : ∀ checked connection frame, .enqueued checked connection frame ∈ s.results →
    connection = checked
  queues : ∀ c, s.queue c = s.results.filterMap (Result.frameOn c)

end Dynpm.ClientSend
