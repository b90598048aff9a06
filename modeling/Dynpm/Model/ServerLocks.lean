import Dynpm.Library.Mutex
import Dynpm.Model.Common

/-! # The mutexes of the server callbacks

Model of the operations of `_server_on_read`, `_server_on_write`, `_server_on_error`,
`_server_to_client_send_progress` and `_register_client_connection` in `src/network/server.c` on
`registration_mutex` and on the mutexes of the client connections. The operations depend on the
arguments of a callback, on what `bufferevent_read` returns and on which allocations succeed.
-/

namespace Dynpm.ServerLocks

open Library

/-- `registration_mutex` and the field `mutex` of each connection. -/
inductive Mutex (κ : Type) where
  | registration
  | connection (c : κ)
  deriving DecidableEq

/-! ## The event masks of libevent -/

def bevEventReading : BitVec 16 := 0x01
def bevEventEof : BitVec 16 := 0x10

variable {κ : Type}

/-- The loop of `_server_on_read` and what follows it. `sizes` are the values that
`bufferevent_read` returns, and the allocation `k` of the callback is that of the read buffer in
use. -/
def serverOnReadLoop (c : κ) (malloc : ℕ → Bool) : List ℕ → ℕ → ℕ → List (MutexOp (Mutex κ))
  | [], _, _ => [.unlock (.connection c)]
  | currentBytesRead :: sizes, messageBytesRead, k =>
      if currentBytesRead = 0 then [.unlock (.connection c)]
      -- `bufferevent_read` stores the bytes through a pointer that nobody has compared with `NULL`
      else if malloc k = false then [.exit]
      else if messageBytesRead + currentBytesRead < maxMessageSize then
        serverOnReadLoop c malloc sizes (messageBytesRead + currentBytesRead) k
      -- `return` inside the loop, for the work unit and then for the message data
      else if malloc (k + 1) = false then []
      else if malloc (k + 2) = false then []
      else serverOnReadLoop c malloc sizes 0 (k + 3)

/-- `_server_on_read`. The static count of the bytes of the current message is an argument. -/
def serverOnRead (c : κ) (malloc : ℕ → Bool) (sizes : List ℕ) (messageBytesRead : ℕ) :
    List (MutexOp (Mutex κ)) :=
  .lock (.connection c) :: serverOnReadLoop c malloc sizes messageBytesRead 0

/-- `_server_on_write`, which calls `exit` without a connection. -/
def serverOnWrite : Option κ → List (MutexOp (Mutex κ))
  | none => [.exit]
  | some c => [.lock (.connection c), .unlock (.connection c)]

/-- `_server_on_error` for the events `what`. -/
def serverOnError (c : κ) (what : BitVec 16) : List (MutexOp (Mutex κ)) :=
  if what &&& bevEventEof ≠ 0 then
    if what &&& bevEventReading ≠ 0 then
      -- before the descriptor is closed, and again before the connection is freed
      [.lock .registration, .unlock (.connection c), .unlock (.connection c),
        .unlock .registration]
    else [.lock .registration, .unlock .registration]
  else [.lock .registration, .unlock .registration]

/-- `_server_to_client_send_progress`. -/
def serverToClientSendProgress : Option κ → List (MutexOp (Mutex κ))
  | none => [.lock .registration, .unlock .registration]
  | some c => [.lock .registration, .lock (.connection c), .unlock (.connection c),
      .unlock .registration]

/-- `_register_client_connection`. -/
def registerClientConnection (c : κ) : List (MutexOp (Mutex κ)) :=
  [.lock (.connection c), .unlock (.connection c)]

/-- A call of one of the functions, with all that its operations depend on. -/
inductive Callback (κ : Type) where
  | serverOnRead (c : κ) (malloc : ℕ → Bool) (sizes : List ℕ) (messageBytesRead : ℕ)
  | serverOnWrite (c : Option κ)
  | serverOnError (c : κ) (what : BitVec 16)
  | serverToClientSendProgress (c : Option κ)
  | registerClientConnection (c : κ)

/-- What a call does to the mutexes. -/
def Callback.locks : Callback κ → List (MutexOp (Mutex κ))
  | .serverOnRead c malloc sizes messageBytesRead =>
      ServerLocks.serverOnRead c malloc sizes messageBytesRead
  | .serverOnWrite c => ServerLocks.serverOnWrite c
  | .serverOnError c what => ServerLocks.serverOnError c what
  | .serverToClientSendProgress c => ServerLocks.serverToClientSendProgress c
  | .registerClientConnection c => ServerLocks.registerClientConnection c

end Dynpm.ServerLocks
