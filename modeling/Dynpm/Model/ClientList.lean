import Dynpm.Library.SysQueue
import Dynpm.Model.Server

/-! # The list of the client connections

Model of the list `head` of `src/network/server.c` with the link fields of the connections. The
fields of a connection that is in no list hold anything: what its memory held when it was allocated,
or where it was linked before it was removed.
-/

namespace Dynpm.ClientList

open Library

/-- The server with its list. The field `head` of `rest` is not used and stays empty. -/
structure State where
  list : ListLinks ℕ
  rest : Server.State

/-- `LIST_FOREACH` with a comparison that ends it. It visits each connection at most once if it
ends. -/
def search (s : State) (c : ℕ) : Option (Option ℕ) :=
  findLinked s.list.next (fun connection => connection = c) s.rest.connections.length s.list.first

/-- `_is_client_connection_in_list`. -/
def isClientConnectionInList (s : State) (c : ℕ) : Option Bool :=
  (search s c).map Option.isSome

/-- `_client_connection_setup`. -/
def clientConnectionSetup (s : State) (c : ℕ) : State :=
  { s with list := s.list.insertHead c }

/-- `dynpm_print_client_connections`, which visits each connection at most once if it ends. -/
def printClientConnections (s : State) : Except Fault Unit :=
  (linkedObjects s.list.next s.rest.connections.length s.list.first).forM (Server.printHost s.rest)

/-- `_remove_client_connection_from_list`. A loop that does not end gives `none`. -/
def removeClientConnectionFromList (s : State) (c : ℕ) : Option (Except Fault State) :=
  match s.list.first with
  | none => some (.ok s)
  | some _ => do
      let found ← search s c
      if found.isSome then (s.list.remove c).map fun list => .ok { s with list }
      else some ((printClientConnections s).map fun _ => s)

/-- The accesses of `_server_on_error` to the field `host`. -/
def serverOnErrorHosts (s : State) (c : ℕ) (found : Bool) : Except Fault Unit := do
  if found then
    Server.printForChildren s.rest c
    Server.printHost s.rest c
  else
    Server.printHost s.rest c
    printClientConnections s
  Server.freeHost s.rest c

/-- What `_server_on_error` does with a connection that it has found in the list. It blocks in the
first `dynpm_disconnect_from_server` while `server_connections_mutex` is locked. -/
def disconnectAndRemove (s : State) (c : ℕ) : Option (Except Fault State) :=
  if Server.blocked s.rest ∧ s.rest.HasChild c then none
  else removeClientConnectionFromList { s with rest := Server.disconnectChildren s.rest c } c

/-- `_server_on_error` with `BEV_EVENT_EOF` and `BEV_EVENT_READING`, with the accesses to `host`
first. -/
def serverOnError (s : State) (c : ℕ) : Option (Except Fault State) := do
  let found ← search s c
  match serverOnErrorHosts s c found.isSome with
  | .error fault => return .error fault
  | .ok () =>
      let result ← if found.isSome then disconnectAndRemove s c else some (.ok s)
      return result.map fun t => { t with rest := Server.release t.rest c }

/-- The field `le_next` of a connection, which cannot be read once the connection is released. -/
def nextOf (s : State) (c : ℕ) : Except Fault (Option ℕ) :=
  if c ∈ s.rest.released then .error .outOfBounds else .ok (s.list.next c)

/-- The loop of `dynpm_clear_client_connections`, which removes and frees a connection before it
goes on to the next one. -/
def clearLoop : ℕ → State → Option ℕ → Except Fault State
  | _, s, none => .ok s
  | 0, _, some _ => .error .outOfBounds
  | fuel + 1, s, some c =>
      match s.list.remove c with
      | none => .error .outOfBounds
      | some list => do
          let s := ⟨list, { s.rest with released := s.rest.released ++ [c] }⟩
          let connection ← nextOf s c
          clearLoop fuel s connection

/-- `dynpm_clear_client_connections`. -/
def clearClientConnections (s : State) : Except Fault State :=
  clearLoop s.rest.connections.length s s.list.first

/-- The calls of the server. -/
def call (s : State) (a : Server.Action) : Option (Except Fault State) :=
  if s.rest.client.aborted ∨ s.rest.faulted then none
  else
    match a with
    | .setup =>
        some (.ok (clientConnectionSetup
          { s with rest := Server.clientConnectionEventHandler s.rest } s.rest.connections.length))
    | .register c regmsg =>
        if s.rest.Live c then
          some (.ok { s with rest := Server.registerClientConnection s.rest c regmsg })
        else none
    | .deregister c => if s.rest.Live c then removeClientConnectionFromList s c else none
    | .connect parent outcome =>
        if (∀ c ∈ parent, s.rest.Live c) ∧ Server.blocked s.rest = false then
          some (.ok { s with rest := Server.connectToServer s.rest parent outcome })
        else none
    | .disconnect index =>
        if (s.rest.client.serverConnections index).isSome ∧ Server.blocked s.rest = false then
          some (.ok { s with rest := Server.disconnectFromServer s.rest index })
        else none
    | .eof c => if s.rest.Live c then serverOnError s c else none
    | .clear => some (clearClientConnections s)

/-- The state after a call. -/
def settle (s : State) : Except Fault State → State
  | .ok t => t
  | .error _ => { s with rest := { s.rest with faulted := true } }

def step (s : State) (a : Server.Action) : Option State :=
  (call s a).map (settle s)

/-- `LIST_INIT`, where `next`, `prev` and `memory` are what the memory of the connections will
hold. -/
def initial (next : ℕ → Option ℕ) (prev : ℕ → Slot ℕ) (memory : ℕ → Server.Allocation) : State :=
  ⟨⟨none, next, prev⟩, Server.initial memory⟩

def system : System State Server.Action where
  initial s := ∃ next prev memory, s = initial next prev memory
  step := step

end Dynpm.ClientList
