import Dynpm.Library.Fault
import Dynpm.Library.Transition
import Dynpm.Model.Client
import Dynpm.Model.Protocol

/-! # The client connections of a server

Model of the part of `src/network/server.c` that keeps the connections of the clients: the list
`head`, the functions that change it, and `_server_on_error`, which releases a connection. A
server may itself be a client of other servers; such a connection names the client connection it
was made for as its `parent_connection`.

`_client_connection_event_handler` allocates a connection and assigns neither `pid` nor `host`, so
that they hold what the memory held until the registration of the client is processed, while the
connection is already in the list. A read through a pointer that nothing has assigned is a fault,
and so is its release.
-/

namespace Dynpm.Server

open Library Dynpm.Protocol

/-- What the memory of a new connection holds in the fields `pid` and `host`. -/
structure Allocation where
  pid : UInt32
  hostNull : Bool

/-- The pointer `host` of a connection. A wild pointer is one that nothing has assigned. -/
inductive HostField where
  | null
  | wild
  | string (host : List UInt8)

/-- The client connections allocated so far, each with the registration that has been assigned to
its fields, if any; what the memory of a connection holds when it is allocated; the list `head` of
those in use, those that have been released, and the client side with the field `parent_connection`
of its connection objects. `faulted` is set once a call has left the defined behaviour. -/
structure State where
  connections : List (Option RegisterConnectionMsg)
  memory : ℕ → Allocation
  head : List ℕ
  released : List ℕ
  client : Client.State
  parents : List (Option ℕ)
  faulted : Bool

/-- A client connection that has been allocated and not been released. -/
def State.Live (s : State) (c : ℕ) : Prop := c < s.connections.length ∧ c ∉ s.released

instance (s : State) (c : ℕ) : Decidable (s.Live c) :=
  inferInstanceAs (Decidable (c < s.connections.length ∧ c ∉ s.released))

/-- The connection object `k` has been made for the client connection `c`. -/
def State.IsChild (s : State) (k c : ℕ) : Prop := s.parents[k]? = some (some c)

instance (s : State) (k c : ℕ) : Decidable (s.IsChild k c) :=
  inferInstanceAs (Decidable (s.parents[k]? = some (some c)))

/-- An entry of the connection table holds a connection made for `c`. -/
def State.HasChild (s : State) (c : ℕ) : Prop :=
  ∃ i, ∃ k ∈ s.client.serverConnections i, s.IsChild k c

instance (s : State) (c : ℕ) : Decidable (s.HasChild c) :=
  inferInstanceAs (Decidable (∃ i, ∃ k ∈ s.client.serverConnections i, s.IsChild k c))

/-! ## The fields `pid` and `host` -/

/-- The registration that the fields of a connection hold. -/
def State.registration (s : State) (c : ℕ) : Option RegisterConnectionMsg :=
  s.connections[c]?.join

/-- The field `pid` of the connection `c`. -/
def State.pidField (s : State) (c : ℕ) : UInt32 :=
  match s.registration c with
  | some regmsg => regmsg.pid
  | none => (s.memory c).pid

/-- The field `host` of the connection `c`. -/
def State.hostField (s : State) (c : ℕ) : HostField :=
  match s.registration c with
  | some regmsg => .string regmsg.hostname
  | none => if (s.memory c).hostNull then .null else .wild

/-- An access through the pointer `host`, unless it is null. -/
def accessHost (s : State) (c : ℕ) : Except Fault Unit :=
  match s.hostField c with
  | .null | .string _ => .ok ()
  | .wild => .error .outOfBounds

/-- The host is printed with `%s`, which shows a null pointer as such. -/
def printHost (s : State) (c : ℕ) : Except Fault Unit := accessHost s c

/-- `if(in_connection->host) free(in_connection->host)`. -/
def freeHost (s : State) (c : ℕ) : Except Fault Unit := accessHost s c

/-- `dynpm_print_client_connections`. -/
def printClientConnections (s : State) : Except Fault Unit :=
  s.head.forM (printHost s)

/-- The loop of `_server_on_error` over the connection table, which prints the host of `c` for each
connection made for it. -/
def printForChildren (s : State) (c : ℕ) : Except Fault Unit :=
  (List.finRange maxServerConnections).forM fun index =>
    match s.client.serverConnections index with
    | none => .ok ()
    | some k => if s.IsChild k c then printHost s c else .ok ()

/-- The accesses of `_server_on_error` with `BEV_EVENT_EOF` and `BEV_EVENT_READING` to the field
`host`. The hosts of the whole list are printed if `c` is not in the list. -/
def serverOnErrorHosts (s : State) (c : ℕ) : Except Fault Unit := do
  if c ∈ s.head then
    printForChildren s c
    printHost s c
  else
    printHost s c
    printClientConnections s
  freeHost s c

/-! ## The functions -/

/-- `_client_connection_event_handler`: a new connection is accepted. -/
def clientConnectionEventHandler (s : State) : State :=
  { s with connections := s.connections ++ [none] }

/-- `_client_connection_setup`. -/
def clientConnectionSetup (s : State) (c : ℕ) : State :=
  { s with head := c :: s.head }

/-- `_register_client_connection`. -/
def registerClientConnection (s : State) (c : ℕ) (regmsg : RegisterConnectionMsg) : State :=
  { s with connections := s.connections.set c (some regmsg) }

/-- `_remove_client_connection_from_list`, which prints the list if the connection is not in it. -/
def removeClientConnectionFromList (s : State) (c : ℕ) : Except Fault State :=
  if c ∈ s.head then .ok { s with head := s.head.erase c }
  else do
    printClientConnections s
    return s

/-- `_deregister_client_connection`. -/
def deregisterClientConnection (s : State) (c : ℕ) : Except Fault State :=
  removeClientConnectionFromList s c

/-- `dynpm_connect_to_server` with the given `parent_connection`, which is stored together with
the new entry. -/
def connectToServer (s : State) (parent : Option ℕ) (outcome : Client.ConnectOutcome) : State :=
  let client := (Client.connectToServer s.client outcome).1
  { s with
    client
    parents :=
      if s.client.connections.length < client.connections.length then s.parents ++ [parent]
      else s.parents }

/-- `dynpm_disconnect_from_server`. -/
def disconnectFromServer (s : State) (index : Fin maxServerConnections) : State :=
  { s with client := (Client.disconnectFromServer s.client index).1 }

/-- One iteration of the loop in `_server_on_error`. Nothing is done after a failed assertion. -/
def disconnectChild (c : ℕ) (s : State) (index : Fin maxServerConnections) : State :=
  match s.client.serverConnections index with
  | none => s
  | some k =>
      if s.IsChild k c ∧ s.client.aborted = false then disconnectFromServer s index else s

/-- The loop over the connection table. -/
def disconnectChildren (s : State) (c : ℕ) : State :=
  (List.finRange maxServerConnections).foldl (disconnectChild c) s

/-- The connection `c` is freed, unless an assertion has failed before. -/
def release (s : State) (c : ℕ) : State :=
  if s.client.aborted then s else { s with released := s.released ++ [c] }

/-- `_server_on_error` with `BEV_EVENT_EOF` and `BEV_EVENT_READING`. The connections made for the
client are disconnected only if the client is in the list. Nothing that the callback does changes
what it reads through `host`, so these accesses stand first. -/
def serverOnError (s : State) (c : ℕ) : Except Fault State := do
  serverOnErrorHosts s c
  if c ∈ s.head then
    let t ← removeClientConnectionFromList (disconnectChildren s c) c
    return release t c
  else return release s c

/-- `dynpm_clear_client_connections`. The loop reads the field `le_next` of a connection that it has
just freed, so that it does not get past the first connection of the list. -/
def clearClientConnections (s : State) : Except Fault State :=
  match s.head with
  | [] => .ok s
  | _ :: _ => .error .outOfBounds

/-! ## Runs -/

/-- What happens at a server; `setup` stands for a new connection that is accepted and set up. -/
inductive Action where
  | setup
  | register (c : ℕ) (regmsg : RegisterConnectionMsg)
  | deregister (c : ℕ)
  | connect (parent : Option ℕ) (outcome : Client.ConnectOutcome)
  | disconnect (index : Fin maxServerConnections)
  | eof (c : ℕ)
  | clear

/-- `dynpm_connect_to_server` and `dynpm_disconnect_from_server` block while
`server_connections_mutex` is locked. -/
def blocked (s : State) : Bool := s.client.mutexHeld

/-- The call that an action makes, which may fault. Messages and events are those of live
connections, a new connection to a server is made for a live one or for none, and only occupied
entries are disconnected. Nothing happens after a failed assertion or a fault. -/
def call (s : State) (a : Action) : Option (Except Fault State) :=
  if s.client.aborted ∨ s.faulted then none
  else
    match a with
    | .setup =>
        some (.ok (clientConnectionSetup (clientConnectionEventHandler s) s.connections.length))
    | .register c regmsg =>
        if s.Live c then some (.ok (registerClientConnection s c regmsg)) else none
    | .deregister c => if s.Live c then some (deregisterClientConnection s c) else none
    | .connect parent outcome =>
        if (∀ c ∈ parent, s.Live c) ∧ blocked s = false then
          some (.ok (connectToServer s parent outcome))
        else none
    | .disconnect index =>
        if (s.client.serverConnections index).isSome ∧ blocked s = false then
          some (.ok (disconnectFromServer s index))
        else none
    | .eof c =>
        -- a wild `host` is printed before the first disconnect
        if s.Live c ∧ (blocked s = false ∨ c ∉ s.head ∨ ¬ s.HasChild c ∨
            serverOnErrorHosts s c ≠ .ok ()) then
          some (serverOnError s c)
        else none
    | .clear => some (clearClientConnections s)

/-- The state after a call. -/
def settle (s : State) : Except Fault State → State
  | .ok t => t
  | .error _ => { s with faulted := true }

def step (s : State) (a : Action) : Option State :=
  (call s a).map (settle s)

/-- A server without clients, after `dynpm_client_init`. -/
def initial (memory : ℕ → Allocation) : State :=
  ⟨[], memory, [], [], Client.clientInit Client.State.static, [], false⟩

def system : System State Action where
  initial s := ∃ memory, s = initial memory
  step := step

end Dynpm.Server
