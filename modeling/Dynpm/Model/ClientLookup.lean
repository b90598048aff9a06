import Dynpm.Model.Server

/-! # Identities of the client connections

Model of `dynpm_find_client_connection_in_list` of `src/network/server.c`, which reads the fields
`pid` and `host` of every connection that it comes across.
-/

namespace Dynpm.Server

open Library Dynpm.Protocol

/-- `_compare_id_host`, which calls `strcmp` only if the pids are equal. -/
def compareIdHost (s : State) (host : List UInt8) (pid : UInt32) (c : ℕ) : Except Fault Bool :=
  if s.pidField c = pid then
    match s.hostField c with
    | .null => .error .nullPointer
    | .wild => .error .outOfBounds
    | .string host' => .ok (host' = host)
  else .ok false

/-- The loop of `dynpm_find_client_connection_in_list` over the rest of the list. -/
def findInList (s : State) (host : List UInt8) (pid : UInt32) : List ℕ → Except Fault (Option ℕ)
  | [] => .ok none
  | c :: rest => do
      if ← compareIdHost s host pid c then return some c
      else findInList s host pid rest

/-- `dynpm_find_client_connection_in_list`: the connection that it finds, if it returns 1. -/
def findClientConnectionInList (s : State) (host : List UInt8) (pid : UInt32) :
    Except Fault (Option ℕ) :=
  findInList s host pid s.head

/-! ## Runs -/

/-- The server, and the registration of each connection that has been processed last. -/
structure Clients where
  server : State
  latest : ℕ → Option RegisterConnectionMsg

/-- What happens at the server, and the calls of the lookup. -/
inductive Event where
  | server (action : Action)
  | find (host : List UInt8) (pid : UInt32)

/-- The registration that an action processes is the last one of its connection. -/
def record (latest : ℕ → Option RegisterConnectionMsg) :
    Action → ℕ → Option RegisterConnectionMsg
  | .register c regmsg => Function.update latest c (some regmsg)
  | .setup | .deregister _ | .connect _ _ | .disconnect _ | .eof _ | .clear => latest

def clientsStep (s : Clients) : Event → Option Clients
  | .server action => (step s.server action).map fun t => ⟨t, record s.latest action⟩
  | .find _ _ => if s.server.client.aborted ∨ s.server.faulted then none else some s

def clientsInitial (memory : ℕ → Allocation) : Clients := ⟨initial memory, fun _ => none⟩

/-- A server whose clients come and go while they are looked up. -/
def clientsSystem : System Clients Event where
  initial s := ∃ memory, s = clientsInitial memory
  step := clientsStep

end Dynpm.Server
