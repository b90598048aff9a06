import Dynpm.Model.MessageQueue
import Dynpm.Model.ServerPool
import Dynpm.Model.ServerRead

/-! # From the clients to the handler of a server

The way of a message: a thread of client `c` enqueues its frame (`_dynpm_enqueue_send_buffer`),
the event thread of the client hands the frame over to `bufferevent_write`, the bytes arrive at the
server in order and in pieces of any size, `_server_on_read` puts frames together and adds them to
the work queue, and a worker calls `_dynpm_top_server_handler`. All clients share the count of
`_server_on_read` and the work queue.
-/

namespace Dynpm.Delivery

open Library

/-- The message queue of each client towards the server, the bytes of each client that have been
handed over and have not been read yet, the read callback, and the server. Client `c` is the one
whose connection at the server is `c`. -/
structure State (workers : ℕ) where
  queue : ℕ → MessageQueue.State Frame
  wire : ℕ → List UInt8
  reader : ServerRead.State ℕ
  pool : ServerPool.State workers

variable {workers : ℕ}

/-- The message of a unit for the connection `c`. -/
def frameOf (c : ℕ) (unit : ServerPool.WorkUnit) : Option Frame :=
  match unit.job with
  | .setup => none
  | .message frame => if unit.connection = c then some frame else none

/-- The frames of `c` that have been given to `dynpm_work_queue_add`. -/
def State.addedFrames (s : State workers) (c : ℕ) : List Frame :=
  s.pool.queue.added.filterMap (frameOf c)

/-- The messages of `c` with which `_dynpm_top_server_handler` has been called. -/
def State.handled (s : State workers) (c : ℕ) : List Frame :=
  (s.pool.queue.started.map Prod.snd).filterMap (frameOf c)

/-- The next message of `c` for which `_server_on_read` calls `dynpm_work_queue_add`. -/
def State.nextFrame (s : State workers) (c : ℕ) : Option Frame :=
  match (s.reader.messagesOf c)[(s.addedFrames c).length]? with
  | none => none
  | some bytes => if h : bytes.length = maxMessageSize then some ⟨bytes, h⟩ else none

/-- What a step of the client hands over to `bufferevent_write`. -/
def written (before after : MessageQueue.State Frame) : List UInt8 :=
  (after.handed.drop before.handed.length).flatMap Frame.bytes

/-- The steps of the clients and of the server. `read` is a callback that finds `count` bytes,
`add` its call of `dynpm_work_queue_add` for the next message, and `server` stands for all other
steps of the server. -/
inductive Action (workers : ℕ) where
  | client (c : ℕ) (action : MessageQueue.Action Frame)
  | read (c count : ℕ)
  | add (c : ℕ) (wake : Option (Fin workers))
  | server (action : ServerPool.Action workers)

def clientStep (s : State workers) (c : ℕ) (action : MessageQueue.Action Frame) :
    Option (State workers) :=
  (MessageQueue.step (s.queue c) action).map fun queue =>
    { s with
      queue := Function.update s.queue c queue
      wire := Function.update s.wire c (s.wire c ++ written (s.queue c) queue) }

/-- `_server_on_read`, up to the calls of `dynpm_work_queue_add`. -/
def onRead (malloc : ℕ → ℕ → UInt8) (s : State workers) (c count : ℕ) : State workers :=
  { s with
    wire := Function.update s.wire c ((s.wire c).drop count)
    reader := ServerRead.onRead malloc s.reader (c, (s.wire c).take count) }

/-- The callbacks of a connection are run by one thread, so that neither the next read nor the end
of file is handled before all messages of a read have been added. -/
def step (malloc : ℕ → ℕ → UInt8) (s : State workers) : Action workers → Option (State workers)
  | .client c action => clientStep s c action
  | .read c count =>
      if c ∈ s.pool.dispatching ∧ s.pool.server.Live c ∧ s.nextFrame c = none ∧ 0 < count ∧
          count ≤ (s.wire c).length then
        some (onRead malloc s c count)
      else none
  | .add c wake =>
      match s.nextFrame c with
      | none => none
      | some frame =>
          (ServerPool.step s.pool (.read c frame wake)).map fun pool => { s with pool }
  | .server (.read _ _ _) => none
  | .server (.eof c) =>
      if s.nextFrame c = none then
        (ServerPool.step s.pool (.eof c)).map fun pool => { s with pool }
      else none
  | .server action => (ServerPool.step s.pool action).map fun pool => { s with pool }

/-- Clients that have sent nothing, and a server that has just initialised its work queue. -/
def system (malloc : ℕ → ℕ → UInt8) (threadCount : ℤ) :
    System (State threadCount.toNat) (Action threadCount.toNat) where
  initial s := (s.queue = fun _ => MessageQueue.initial) ∧ (s.wire = fun _ => []) ∧
    s.reader = ServerRead.initial ∧ (ServerPool.system threadCount).initial s.pool
  step := step malloc

end Dynpm.Delivery
