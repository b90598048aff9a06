import Dynpm.Library.SlotTable
import Dynpm.Library.Transition
import Dynpm.Model.Common

/-! # The connection table of a client

Model of the part of `src/network/client.c` that connects to servers and disconnects from them.
Each function runs with `server_connections_mutex` locked from its beginning to its end, and is
one step. An exit that leaves this mutex locked blocks all later calls.
-/

namespace Dynpm.Client

open Library

/-- A connection object. `evbase` tells whether its event base has been created, `dispatching`
whether its event thread is in `event_base_dispatch`, and `loopExit` whether
`event_base_loopexit` has been called. -/
structure Connection where
  index : Fin maxServerConnections
  evbase : Bool
  dispatching : Bool
  loopExit : Bool

/-- The static variables of the client and the connection objects allocated so far, to which the
entries of the table point. -/
structure State where
  clientInitialized : Bool
  serverConnections : Fin maxServerConnections → Option ℕ
  serverConnectionCount : ℤ
  connections : List Connection
  mutexHeld : Bool
  aborted : Bool

/-- The static initial values. -/
def State.static : State := ⟨false, fun _ => none, -1, [], false, false⟩

/-- `dynpm_client_init`. -/
def clientInit (s : State) : State :=
  if s.clientInitialized then s
  else { s with
    clientInitialized := true
    serverConnections := fun _ => none
    serverConnectionCount := 0 }

/-- How far `dynpm_connect_to_server` gets behind the table entry: the call that fails, or none
of them. -/
inductive ConnectOutcome where
  | eventBaseFails
  | dnsBaseFails
  | bufferEventFails
  | threadCreateFails
  | threadNameFails
  /-- The source has an exit for it, but the registration is of a type that is sent. -/
  | registerFails
  | succeeds

/-- The result of `dynpm_connect_to_server`; all but the last return -1. -/
inductive ConnectResult where
  | notInitialized
  | noRoom
  | failed
  | connected (index : Fin maxServerConnections)
  deriving DecidableEq

namespace ConnectOutcome

def evbase : ConnectOutcome → Bool
  | .eventBaseFails => false
  | _ => true

/-- The event thread has been started. -/
def dispatching : ConnectOutcome → Bool
  | .eventBaseFails | .dnsBaseFails | .bufferEventFails | .threadCreateFails => false
  | .threadNameFails | .registerFails | .succeeds => true

/-- The exits that return without unlocking the mutex. -/
def keepsMutex : ConnectOutcome → Bool
  | .eventBaseFails | .dnsBaseFails | .bufferEventFails => true
  | .threadCreateFails | .threadNameFails | .registerFails | .succeeds => false

def result (index : Fin maxServerConnections) : ConnectOutcome → ConnectResult
  | .succeeds => .connected index
  | _ => .failed

end ConnectOutcome

/-- `dynpm_connect_to_server`. The count is incremented before an entry is looked for. -/
def connectToServer (s : State) (outcome : ConnectOutcome) : State × ConnectResult :=
  if !s.clientInitialized then (s, .notInitialized)
  else if s.serverConnectionCount > (maxServerConnections : ℤ) - 1 then (s, .noRoom)
  else
    let s := { s with serverConnectionCount := s.serverConnectionCount + 1 }
    match SlotTable.firstFree s.serverConnections with
    | none => (s, .noRoom)
    | some index =>
        ({ s with
          serverConnections := Function.update s.serverConnections index (some s.connections.length)
          connections := s.connections ++ [⟨index, outcome.evbase, outcome.dispatching, false⟩]
          mutexHeld := outcome.keepsMutex }, outcome.result index)

/-- `event_base_loopexit` on the event base of a connection, if it has one. -/
def requestExit (connection : Connection) : Connection :=
  if connection.evbase then { connection with loopExit := true } else connection

/-- `dynpm_disconnect_from_server`. The entry is cleared and the count decremented whether or not
there was a connection; the assertion on the count aborts the process with the mutex locked. -/
def disconnectFromServer (s : State) (serverIndex : Fin maxServerConnections) : State × ℤ :=
  let returnCode :=
    if s.clientInitialized && (s.serverConnections serverIndex).isSome then 0 else -1
  let connections :=
    match s.serverConnections serverIndex with
    | some connection => s.connections.modify connection requestExit
    | none => s.connections
  ({ s with
    serverConnections := Function.update s.serverConnections serverIndex none
    serverConnectionCount := s.serverConnectionCount - 1
    connections
    aborted := s.serverConnectionCount - 1 < 0 }, returnCode)

/-- The calls of the client and the events of its connections. -/
inductive Action where
  | connect (outcome : ConnectOutcome)
  | disconnect (serverIndex : Fin maxServerConnections)
  | remoteClose (connection : ℕ)
  | threadExit (connection : ℕ)

/-- `_client_on_error` with `BEV_EVENT_EOF`, which the event thread of the connection runs. -/
def clientOnEof (s : State) (connection : ℕ) : Option State := do
  let object ← s.connections[connection]?
  if object.dispatching then some (disconnectFromServer s object.index).1 else none

/-- The event thread leaves `event_base_dispatch` after it has been told to. -/
def leaveDispatch (s : State) (connection : ℕ) : Option State := do
  let object ← s.connections[connection]?
  if object.dispatching && object.loopExit then
    some { s with
      connections := s.connections.modify connection fun object =>
        { object with dispatching := false } }
  else none

/-- The client after `dynpm_client_init`. -/
def system : System State Action where
  initial s := s = clientInit State.static
  step s a :=
    if s.mutexHeld || s.aborted then none
    else
      match a with
      | .connect outcome => some (connectToServer s outcome).1
      | .disconnect serverIndex => some (disconnectFromServer s serverIndex).1
      | .remoteClose connection => clientOnEof s connection
      | .threadExit connection => leaveDispatch s connection

end Dynpm.Client
