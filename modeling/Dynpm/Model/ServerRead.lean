import Dynpm.Library.Memory
import Dynpm.Library.Framing
import Dynpm.Model.Common

/-! # The read callback of the server

Model of `_server_on_read` in `src/network/server.c`. The number of bytes read of the current
message is a function-level static, shared by the callbacks of all connections; the buffer
that receives these bytes is local to one callback.
-/

namespace Dynpm.ServerRead

open Library

/-- One callback: the connection and the bytes available in its input buffer. -/
abbrev Callback (κ : Type) := κ × List UInt8

/-- What the callbacks share and what they have done. `messageBytesRead` is the static count,
`mallocs` the number of read buffers allocated, `workUnits` the messages given to
`dynpm_work_queue_add`, `stores` the offset and length of every write to a read buffer, and
`received` the callbacks so far. -/
structure State (κ : Type) where
  messageBytesRead : ℕ
  mallocs : ℕ
  workUnits : List (κ × List UInt8)
  stores : List (ℕ × ℕ)
  received : List (Callback κ)

/-- The read buffer of the given allocation, with whatever `malloc` left in it. -/
def mallocBuffer (malloc : ℕ → ℕ → UInt8) (k : ℕ) : List UInt8 :=
  (List.range maxMessageSize).map (malloc k)

variable {κ : Type}

/-- `bufferevent_read` has stored `count` bytes at the static offset. It asks for 4096 bytes,
which is the size of a frame. -/
def State.readBytes (s : State κ) (count : ℕ) : State κ :=
  { s with
    messageBytesRead := s.messageBytesRead + count
    stores := s.stores ++ [(s.messageBytesRead, count)] }

/-- The message in the read buffer becomes a work unit, and a new buffer is allocated. -/
def State.enqueueMessage (s : State κ) (connection : κ) (readBuffer : List UInt8) : State κ :=
  { s with
    messageBytesRead := 0
    mallocs := s.mallocs + 1
    workUnits := s.workUnits ++ [(connection, readBuffer.take maxMessageSize)] }

/-- The loop of `_server_on_read`. It ends when no byte is available any more; what the read
buffer then holds is freed. -/
def onReadLoop (malloc : ℕ → ℕ → UInt8) (connection : κ) (available readBuffer : List UInt8)
    (s : State κ) : State κ :=
  if available = [] then s
  else
    let chunk := available.take maxMessageSize
    let buffer := store readBuffer s.messageBytesRead chunk
    let s' := s.readBytes chunk.length
    if s'.messageBytesRead < maxMessageSize then
      onReadLoop malloc connection (available.drop maxMessageSize) buffer s'
    else
      onReadLoop malloc connection (available.drop maxMessageSize)
        (mallocBuffer malloc s'.mallocs) (s'.enqueueMessage connection buffer)
termination_by available.length
decreasing_by
  all_goals
    have := List.length_pos_iff.mpr ‹¬available = []›
    simp only [maxMessageSize, List.length_drop]
    omega

/-- `_server_on_read` for one callback. -/
def onRead (malloc : ℕ → ℕ → UInt8) (s : State κ) (callback : Callback κ) : State κ :=
  onReadLoop malloc callback.1 callback.2 (mallocBuffer malloc s.mallocs)
    { s with mallocs := s.mallocs + 1, received := s.received ++ [callback] }

/-- Before the first callback. -/
def initial : State κ := ⟨0, 0, [], [], []⟩

/-- The state after a sequence of callbacks, whatever their connections. -/
def run (malloc : ℕ → ℕ → UInt8) (callbacks : List (Callback κ)) : State κ :=
  callbacks.foldl (onRead malloc) initial

variable [DecidableEq κ]

/-- The messages enqueued for `connection`. -/
def State.messagesOf (s : State κ) (connection : κ) : List (List UInt8) :=
  (s.workUnits.filter fun unit => unit.1 = connection).map Prod.snd

/-- The bytes received from `connection`. -/
def streamOf (connection : κ) (callbacks : List (Callback κ)) : List UInt8 :=
  (callbacks.filter fun callback => callback.1 = connection).flatMap Prod.snd

/-- Every complete frame received so far has become a message of its connection, in order, and
no byte has been stored outside a read buffer. -/
def State.Reassembled (s : State κ) : Prop :=
  (∀ connection, s.messagesOf connection = frames maxMessageSize (streamOf connection s.received)) ∧
    ∀ access ∈ s.stores, access.1 + access.2 ≤ maxMessageSize

end Dynpm.ServerRead
