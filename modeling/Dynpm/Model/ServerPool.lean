import Dynpm.Model.Send
import Dynpm.Model.Server
import Dynpm.Model.WorkQueue

/-! # The event threads and the workers of a server

The callbacks of the client connections put work units into the queue of the thread pool, and the
workers run them: `_client_connection_setup` for a new connection, and
`_dynpm_top_server_handler` of `src/network/server.c` for a message. A unit carries a pointer to
its connection, which `_server_on_error` may have released by the time the unit is run.
-/

namespace Dynpm.ServerPool

open Library Dynpm.Protocol Dynpm.Send

inductive Job where
  | setup
  | message (frame : Frame)
  deriving DecidableEq

/-- A work unit; `serial` tells units of the same content apart. -/
structure WorkUnit where
  serial : ℕ
  connection : ℕ
  job : Job
  deriving DecidableEq

/-- The server with its work queue. `dispatching` lists the connections whose event thread has
been started. -/
structure State (workers : ℕ) where
  queue : WorkQueue.State workers WorkUnit
  server : Server.State
  dispatching : List ℕ

/-- `_dynpm_top_server_handler`. The handler of the user, which is called for all other types, is
not part of the library. -/
def topServerHandler (malloc : Garbage) (server : Server.State) (c : ℕ) (frame : Frame) :
    Except Fault Server.State := do
  let header ← deserializeHeader malloc frame
  match messageTypeOf header with
  | some .registerConnection =>
      let regmsg ← deserializeRegisterConnectionMsg malloc frame
      return Server.registerClientConnection server c regmsg
  | some .deregisterConnection =>
      let _ ← deserializeDeregisterConnectionMsg malloc frame
      Server.deregisterClientConnection server c
  | _ => return server

variable {workers : ℕ}

/-- The function of a unit. The setup starts the event thread of the connection. -/
def runUnit (malloc : Garbage) (s : State workers) (unit : WorkUnit) :
    Except Fault (State workers) :=
  match unit.job with
  | .setup =>
      .ok { s with
        server := Server.clientConnectionSetup s.server unit.connection
        dispatching := unit.connection :: s.dispatching }
  | .message frame => do
      let server ← topServerHandler malloc s.server unit.connection frame
      return { s with server }

/-- The steps of the event threads and of the workers. `wake` is the worker that the signal of
`dynpm_work_queue_add` wakes up, and `malloc` what the memory of the handler holds. -/
inductive Action (workers : ℕ) where
  | accept (wake : Option (Fin workers))
  | read (c : ℕ) (frame : Frame) (wake : Option (Fin workers))
  | eof (c : ℕ)
  | lock (w : Fin workers)
  | spuriousWakeUp (w : Fin workers)
  | call (w : Fin workers)
  | return (w : Fin workers) (malloc : Garbage)

/-- `dynpm_work_queue_add` for a new unit. -/
def addUnit (s : State workers) (c : ℕ) (job : Job) (wake : Option (Fin workers)) :
    Option (State workers) :=
  (WorkQueue.step s.queue (.add ⟨s.queue.added.length, c, job⟩ wake)).map fun queue =>
    { s with queue }

/-- The function of a unit takes effect when it returns; a function that faults does not
return. -/
def returnUnit (s : State workers) (w : Fin workers) (malloc : Garbage) :
    Option (State workers) :=
  match s.queue.worker w with
  | .running unit =>
      match runUnit malloc s unit with
      | .ok t => (WorkQueue.step s.queue (.return w)).map fun queue => { t with queue }
      | .error _ => none
  | _ => none

/-- `_server_on_error`, which does not return if it faults. -/
def onError (s : State workers) (c : ℕ) : Option (State workers) :=
  match Server.call s.server (.eof c) with
  | some (.ok server) => some { s with server }
  | _ => none

def step (s : State workers) : Action workers → Option (State workers)
  | .accept wake =>
      addUnit { s with server := Server.clientConnectionEventHandler s.server }
        s.server.connections.length .setup wake
  | .read c frame wake =>
      if c ∈ s.dispatching ∧ s.server.Live c then addUnit s c (.message frame) wake else none
  | .eof c => if c ∈ s.dispatching then onError s c else none
  | .lock w => (WorkQueue.step s.queue (.lock w)).map fun queue => { s with queue }
  | .spuriousWakeUp w =>
      (WorkQueue.step s.queue (.spuriousWakeUp w)).map fun queue => { s with queue }
  | .call w => (WorkQueue.step s.queue (.call w)).map fun queue => { s with queue }
  | .return w malloc => returnUnit s w malloc

/-- A server that has just initialised its work queue. -/
def system (threadCount : ℤ) :
    System (State threadCount.toNat) (Action threadCount.toNat) where
  initial s := WorkQueue.workQueueInit threadCount = some s.queue ∧
    (∃ memory, s.server = Server.initial memory) ∧ s.dispatching = []
  step := step

end Dynpm.ServerPool
