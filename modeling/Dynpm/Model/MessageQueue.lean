import Dynpm.Library.Transition
import Dynpm.Library.LinkedList
import Mathlib.Logic.Function.Basic

/-! # The outgoing message queue of a connection

Model of the queue that `messages_head` of a connection points to. Senders run
`_dynpm_enqueue_send_buffer` under `messages_mutex`
(`_dynpm_internal_send_buffer_to_server`, `_dynpm_internal_send_message_to_server`,
`dynpm_send_buffer_to_client_connection`, `dynpm_send_message_to_client_connection`).
The event thread drains the queue under the mutex of the connection (`_client_on_write`,
`_server_on_write`, `_client_to_server_send_progress`, `_server_to_client_send_progress`).
The locks that the send-progress callbacks hold around this are not taken by a sender while
it enqueues, so they are left out.
-/

namespace Dynpm.MessageQueue

open Library

variable {β : Type}

/-- Program points of a thread that enqueues a buffer. -/
inductive SenderPc (β : Type) where
  | idle
  /-- Holds `messages_mutex`. -/
  | locked (buffer : β)
  /-- The new node is filled in; `tail` is the last node found, if the queue was not empty. -/
  | walked (buffer : β) (newMessage : ℕ) (tail : Option ℕ)
  | linked

/-- Program points of a callback that drains the queue. -/
inductive DrainerPc where
  | idle
  /-- Holds the mutex of the connection. -/
  | locked
  /-- Has handed the head buffer to `bufferevent_write`. -/
  | handedOver
  | drained
  deriving DecidableEq

/-- The nodes of the queue, its two mutexes with their owners, and the threads. `handed` lists
the buffers handed to `bufferevent_write`, `enqueued` those of the completed enqueues. -/
structure State (β : Type) where
  heap : Heap β
  messagesHead : Option ℕ
  messagesMutex : Option ℕ
  connectionMutex : Option ℕ
  sender : ℕ → SenderPc β
  drainer : ℕ → DrainerPc
  handed : List β
  enqueued : List β

/-- The atomic steps of sender `t` and of drainer `d`. -/
inductive Action (β : Type) where
  | sendLock (t : ℕ) (buffer : β)
  | sendWalk (t : ℕ)
  | sendLink (t : ℕ)
  | sendUnlock (t : ℕ)
  | drainLock (d : ℕ)
  | drainHandOver (d : ℕ)
  | drainAdvance (d : ℕ)
  | drainUnlock (d : ℕ)

def State.setSender (s : State β) (t : ℕ) (pc : SenderPc β) : State β :=
  { s with sender := Function.update s.sender t pc }

def State.setDrainer (s : State β) (d : ℕ) (pc : DrainerPc) : State β :=
  { s with drainer := Function.update s.drainer d pc }

/-- `_dynpm_enqueue_send_buffer` up to the end of its walk: the node is allocated and filled,
`messages_head` is read, and its pointers are followed to the tail. -/
def enqueueWalk (s : State β) (t : ℕ) (buffer : β) : State β :=
  let heap := s.heap.alloc buffer
  let tail := s.messagesHead.map (heap.lastCell heap.length)
  State.setSender { s with heap := heap } t (.walked buffer s.heap.length tail)

/-- The assignment that links the new node, behind the tail that was found or as the head. -/
def enqueueLink (s : State β) (t : ℕ) (buffer : β) (newMessage : ℕ) :
    Option ℕ → State β
  | some tail =>
      State.setSender { s with
        heap := s.heap.setNext tail newMessage
        enqueued := s.enqueued ++ [buffer] } t .linked
  | none =>
      State.setSender { s with
        messagesHead := some newMessage
        enqueued := s.enqueued ++ [buffer] } t .linked

/-- The test of `messages_head` and the hand-over of its buffer to `bufferevent_write`. -/
def handOver (s : State β) (d : ℕ) : State β :=
  match s.messagesHead.bind fun a => s.heap[a]? with
  | some cell => State.setDrainer { s with handed := s.handed ++ [cell.value] } d .handedOver
  | none => s.setDrainer d .drained

/-- The assignment `messages_head = messages_head->next`. -/
def advance (s : State β) (d : ℕ) : State β :=
  State.setDrainer { s with
    messagesHead := (s.messagesHead.bind fun a => s.heap[a]?).bind Cell.next } d .drained

/-- The effect of an action in the states that admit it. -/
def step (s : State β) : Action β → Option (State β)
  | .sendLock t buffer =>
      match s.sender t, s.messagesMutex with
      | .idle, none => some (State.setSender { s with messagesMutex := some t } t (.locked buffer))
      | _, _ => none
  | .sendWalk t =>
      match s.sender t with
      | .locked buffer => some (enqueueWalk s t buffer)
      | _ => none
  | .sendLink t =>
      match s.sender t with
      | .walked buffer newMessage tail => some (enqueueLink s t buffer newMessage tail)
      | _ => none
  | .sendUnlock t =>
      match s.sender t with
      | .linked => some (State.setSender { s with messagesMutex := none } t .idle)
      | _ => none
  | .drainLock d =>
      match s.drainer d, s.connectionMutex with
      | .idle, none => some (State.setDrainer { s with connectionMutex := some d } d .locked)
      | _, _ => none
  | .drainHandOver d =>
      match s.drainer d with
      | .locked => some (handOver s d)
      | _ => none
  | .drainAdvance d =>
      match s.drainer d with
      | .handedOver => some (advance s d)
      | _ => none
  | .drainUnlock d =>
      match s.drainer d with
      | .drained => some (State.setDrainer { s with connectionMutex := none } d .idle)
      | _ => none

/-- A fresh connection: an empty queue and free mutexes. -/
def initial : State β where
  heap := []
  messagesHead := none
  messagesMutex := none
  connectionMutex := none
  sender _ := .idle
  drainer _ := .idle
  handed := []
  enqueued := []

/-- Any number of senders and drainers of one connection, in every interleaving. -/
def system (β : Type) : System (State β) (Action β) where
  initial s := s = initial
  step := step

/-- Whether the head buffer has been handed over while its node is still the head. -/
def State.headHanded (s : State β) : Bool :=
  match s.connectionMutex with
  | some d => s.drainer d = .handedOver
  | none => false

/-- The buffers still queued: those of the nodes reachable from `messages_head`, without the
head when its buffer has already been handed over. -/
def State.queued (s : State β) : List β :=
  let linked := s.heap.values s.heap.length s.messagesHead
  if s.headHanded then linked.tail else linked

/-- No buffer is lost or duplicated: what was handed over, followed by what is still queued,
is what was enqueued. -/
def State.Exact (s : State β) : Prop :=
  s.handed ++ s.queued = s.enqueued

end Dynpm.MessageQueue
