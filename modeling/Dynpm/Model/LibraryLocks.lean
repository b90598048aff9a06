import Dynpm.Library.LockOrder
import Dynpm.Model.Client
import Dynpm.Model.Send
import Dynpm.Model.ServerLocks

/-! # The mutexes of the whole library

What every function of `src/network/server.c`, `src/network/client.c`, `src/network/queue.c` and
`src/network/tbon.c` does to the mutexes of the library. A thread runs the functions one after
another: the event thread of a connection its callbacks, a worker the functions of its work units,
and a thread of the user whatever the user calls. Where the library calls code of the user with a
mutex locked, the operations of this code are a parameter.
-/

namespace Dynpm.LibraryLocks

open Library

/-- All mutexes: `registration_mutex`, `server_connections_mutex`, the two mutexes of a client
connection, the two of a connection to a server, and those of the work queue and of a vertex. -/
inductive Mutex where
  | registration
  | serverConnections
  | connection (c : ℕ)
  | messages (c : ℕ)
  | serverConnection (k : ℕ)
  | serverMessages (k : ℕ)
  | workQueue
  | vertex (v : ℕ)
  deriving DecidableEq

/-- A mutex of the server callbacks. -/
def Mutex.ofServer : ServerLocks.Mutex ℕ → Mutex
  | .registration => .registration
  | .connection c => .connection c

abbrev Ops := List (MutexOp Mutex)

/-- What is done with one mutex locked. -/
def locked (m : Mutex) (ops : Ops) : Ops := .lock m :: ops ++ [.unlock m]

/-- A condition variable is waited for, with its mutex locked. -/
def condWait (m : Mutex) : Ops := [.unlock m, .lock m]

/-! ## `queue.c` -/

/-- `dynpm_work_queue_add`. -/
def workQueueAdd : Ops := locked .workQueue []

/-- `dynpm_work_queue_finalize`. -/
def workQueueFinalize : Ops := locked .workQueue []

/-- `queue_thread` up to the call of a work unit, after the given number of waits. -/
def queueThreadTake (waits : ℕ) : Ops :=
  locked .workQueue (List.replicate waits (condWait .workQueue)).flatten

/-! ## `server.c` -/

/-- The operations of a callback that locks no mutex but those of the server. -/
def ofServer (ops : List (MutexOp (ServerLocks.Mutex ℕ))) : Ops :=
  ops.map fun
    | .lock m => .lock (.ofServer m)
    | .unlock m => .unlock (.ofServer m)
    | .exit => .exit

/-- The loop of `_server_on_read` with the calls of `dynpm_work_queue_add`. -/
def serverOnReadLoop (c : ℕ) (malloc : ℕ → Bool) : List ℕ → ℕ → ℕ → Ops
  | [], _, _ => [.unlock (.connection c)]
  | currentBytesRead :: sizes, messageBytesRead, k =>
      if currentBytesRead = 0 then [.unlock (.connection c)]
      else if malloc k = false then [.exit]
      else if messageBytesRead + currentBytesRead < maxMessageSize then
        serverOnReadLoop c malloc sizes (messageBytesRead + currentBytesRead) k
      else if malloc (k + 1) = false then []
      else if malloc (k + 2) = false then []
      else workQueueAdd ++ serverOnReadLoop c malloc sizes 0 (k + 3)

/-- `_server_on_read`. -/
def serverOnRead (c : ℕ) (malloc : ℕ → Bool) (sizes : List ℕ) (messageBytesRead : ℕ) : Ops :=
  .lock (.connection c) :: serverOnReadLoop c malloc sizes messageBytesRead 0

/-- `dynpm_disconnect_from_server`, whose assertion may abort the process. -/
def disconnectFromServer (assertion : Bool) : Ops :=
  if assertion then locked .serverConnections [] else [.lock .serverConnections, .exit]

/-- `_server_on_error`. The connections to servers that have been made for the client are
disconnected one after another; `children` tells how the assertions end. -/
def serverOnError (c : ℕ) (what : BitVec 16) (children : List Bool) : Ops :=
  if what &&& ServerLocks.bevEventEof ≠ 0 then
    if what &&& ServerLocks.bevEventReading ≠ 0 then
      locked .registration
        (.unlock (.connection c) :: (children.map disconnectFromServer).flatten ++
          [.unlock (.connection c)])
    else locked .registration []
  else locked .registration []

/-- `_client_connection_setup`. -/
def clientConnectionSetup : Ops := locked .registration []

/-- `_client_connection_event_handler`, which ends the process when a call fails. -/
def clientConnectionEventHandler (c : ℕ) (accepted : Bool) : Ops :=
  if accepted then locked (.connection c) workQueueAdd else [.lock (.connection c), .exit]

/-- `_deregister_client_connection`. -/
def deregisterClientConnection : Ops := locked .registration []

/-- `dynpm_send_buffer_to_client_connection`. -/
def sendBufferToClientConnection (c : ℕ) : Ops := locked (.messages c) []

/-- `dynpm_send_message_to_client_connection`. Both cases of a type that is not sent leave
`messages_mutex` locked. -/
def sendMessageToClientConnection (c : Option ℕ) (call : Send.Call) : Ops :=
  match c with
  | none => []
  | some c =>
      match Send.clientCase call.header call.msg call.buffer with
      | .refused => [.lock (.messages c)]
      | .unknown => [.lock (.messages c), .unlock (.connection c)]
      | .serialized (.ok _) => locked (.messages c) []
      | .serialized (.error _) => [.lock (.messages c), .exit]

/-- What the user does between `dynpm_lock_client_connections` and
`dynpm_unlock_client_connections`. -/
def clientConnectionsLocked (user : Ops) : Ops := locked .registration user

/-! ## `client.c` -/

/-- `dynpm_client_init`. -/
def clientInit (initialized : Bool) : Ops :=
  if initialized then [] else locked .serverConnections []

/-- `_client_on_read`, which only accepts a whole message and calls the handler of the user. -/
def clientOnRead (k totalBytes : ℕ) (handler : Ops) : Ops :=
  if totalBytes ≠ maxMessageSize then [.exit] else locked (.serverConnection k) handler

/-- `_client_on_write`. -/
def clientOnWrite (k : ℕ) : Ops := locked (.serverConnection k) []

def bevEventConnected : BitVec 16 := 0x80

/-- `_client_on_error`. -/
def clientOnError (k : ℕ) (what : BitVec 16) (assertion : Bool) : Ops :=
  if what &&& ServerLocks.bevEventEof ≠ 0 then disconnectFromServer assertion
  else if what &&& bevEventConnected ≠ 0 then locked (.serverConnection k) []
  else []

/-- `_client_to_server_send_progress`. -/
def clientToServerSendProgress : Option ℕ → Ops
  | none => locked .serverConnections []
  | some k => locked .serverConnections (locked (.serverConnection k) [])

/-- How `dynpm_connect_to_server` begins: the client has not been initialised, the table has no
room, or the connection gets an entry. -/
inductive ConnectStart where
  | notInitialized
  | noRoom
  | entry (k : ℕ) (outcome : Client.ConnectOutcome)

/-- `dynpm_connect_to_server` where the connection has been established before the function would
wait for it. -/
def connectToServer : ConnectStart → Ops
  | .notInitialized => []
  | .noRoom => locked .serverConnections []
  | .entry k outcome =>
      match outcome with
      | .eventBaseFails | .dnsBaseFails | .bufferEventFails => [.lock .serverConnections]
      | .threadCreateFails | .threadNameFails => locked .serverConnections []
      | .registerFails | .succeeds =>
          locked .serverConnections
            (locked (.serverConnection k) [] ++ locked (.serverMessages k) [])

/-- `dynpm_send_buffer_to_server`. Nothing is sent without a connection at the index. -/
def sendBufferToServer (k : Option ℕ) : Ops :=
  match k with
  | none => locked .serverConnections []
  | some k => locked .serverConnections [] ++ locked (.serverMessages k) []

/-- `_dynpm_internal_send_message_to_server`, for the result of its switch. -/
def internalSendMessageToServer (k : ℕ) : Option (Except Fault Frame) → Ops
  | none | some (.ok _) => locked (.serverMessages k) []
  | some (.error _) => [.lock (.serverMessages k), .exit]

/-- `dynpm_send_message_to_server`. -/
def sendMessageToServer (k : Option ℕ) (app : Int32) (call : Send.Call) : Ops :=
  match k with
  | none => locked .serverConnections []
  | some k => locked .serverConnections [] ++
      internalSendMessageToServer k (Send.serializeToServer app call.header call.msg call.buffer)

/-! ## `tbon.c` -/

/-- `dynpm_initialize_tbon_vertex`. -/
def initializeTbonVertex (v : ℕ) : Ops := locked (.vertex v) []

/-- The three functions that wait on a vertex. -/
def tbonWaitTimeout (v : ℕ) (skips met : Bool) : Ops :=
  if skips then [] else locked (.vertex v) (if met then [] else condWait (.vertex v))

/-- `dynpm_send_message_to_tbon_children` for the connections at the indices of the children. It
returns after the first one that is not there. -/
def sendMessageToTbonChildren : List (Option ℕ) → Ops
  | [] => []
  | none :: _ => sendBufferToServer none
  | some k :: children => sendBufferToServer (some k) ++ sendMessageToTbonChildren children

/-! ## All functions -/

/-- A call of one of the functions, with all that its operations depend on, or code of the user
that is run without a mutex of the library. -/
inductive Call where
  | workQueueAdd
  | workQueueFinalize
  | queueThreadTake (waits : ℕ)
  | registerClientConnection (c : ℕ)
  | deregisterClientConnection
  | serverOnRead (c : ℕ) (malloc : ℕ → Bool) (sizes : List ℕ) (messageBytesRead : ℕ)
  | serverOnWrite (c : Option ℕ)
  | serverOnError (c : ℕ) (what : BitVec 16) (children : List Bool)
  | serverToClientSendProgress (c : Option ℕ)
  | clientConnectionSetup
  | clientConnectionEventHandler (c : ℕ) (accepted : Bool)
  | sendBufferToClientConnection (c : ℕ)
  | sendMessageToClientConnection (c : Option ℕ) (call : Send.Call)
  | clientConnectionsLocked (user : Ops)
  | clientInit (initialized : Bool)
  | clientOnRead (k totalBytes : ℕ) (handler : Ops)
  | clientOnWrite (k : ℕ)
  | clientOnError (k : ℕ) (what : BitVec 16) (assertion : Bool)
  | clientToServerSendProgress (k : Option ℕ)
  | connectToServer (start : ConnectStart)
  | disconnectFromServer (assertion : Bool)
  | sendBufferToServer (k : Option ℕ)
  | sendMessageToServer (k : Option ℕ) (app : Int32) (call : Send.Call)
  | initializeTbonVertex (v : ℕ)
  | tbonWaitTimeout (v : ℕ) (skips met : Bool)
  | sendMessageToTbonChildren (connections : List (Option ℕ))
  | user (ops : Ops)

/-- What a call does to the mutexes. -/
def Call.locks : Call → Ops
  | .workQueueAdd => LibraryLocks.workQueueAdd
  | .workQueueFinalize => LibraryLocks.workQueueFinalize
  | .queueThreadTake waits => LibraryLocks.queueThreadTake waits
  | .registerClientConnection c => ofServer (ServerLocks.registerClientConnection c)
  | .deregisterClientConnection => LibraryLocks.deregisterClientConnection
  | .serverOnRead c malloc sizes messageBytesRead =>
      LibraryLocks.serverOnRead c malloc sizes messageBytesRead
  | .serverOnWrite c => ofServer (ServerLocks.serverOnWrite c)
  | .serverOnError c what children => LibraryLocks.serverOnError c what children
  | .serverToClientSendProgress c => ofServer (ServerLocks.serverToClientSendProgress c)
  | .clientConnectionSetup => LibraryLocks.clientConnectionSetup
  | .clientConnectionEventHandler c accepted =>
      LibraryLocks.clientConnectionEventHandler c accepted
  | .sendBufferToClientConnection c => LibraryLocks.sendBufferToClientConnection c
  | .sendMessageToClientConnection c call => LibraryLocks.sendMessageToClientConnection c call
  | .clientConnectionsLocked ops => LibraryLocks.clientConnectionsLocked ops
  | .clientInit initialized => LibraryLocks.clientInit initialized
  | .clientOnRead k totalBytes handler => LibraryLocks.clientOnRead k totalBytes handler
  | .clientOnWrite k => LibraryLocks.clientOnWrite k
  | .clientOnError k what assertion => LibraryLocks.clientOnError k what assertion
  | .clientToServerSendProgress k => LibraryLocks.clientToServerSendProgress k
  | .connectToServer start => LibraryLocks.connectToServer start
  | .disconnectFromServer assertion => LibraryLocks.disconnectFromServer assertion
  | .sendBufferToServer k => LibraryLocks.sendBufferToServer k
  | .sendMessageToServer k app call => LibraryLocks.sendMessageToServer k app call
  | .initializeTbonVertex v => LibraryLocks.initializeTbonVertex v
  | .tbonWaitTimeout v skips met => LibraryLocks.tbonWaitTimeout v skips met
  | .sendMessageToTbonChildren connections => LibraryLocks.sendMessageToTbonChildren connections
  | .user ops => ops

/-- Any number of threads that call the functions of the library. -/
def system : System (Threads ℕ Mutex) (ThreadAction ℕ Call) := threadSystem Call.locks

end Dynpm.LibraryLocks
