import Dynpm.Library.Fault

/-! # Listening on a port of a range

Model of `dynpm_server_init_port_range` and `_dynpm_server_init_common` in `src/network/server.c`.
The ports are `int` values; `htons` keeps their low 16 bits, and binding a socket to port 0 lets
the system choose a port.
-/

namespace Dynpm.PortRange

open Library

/-- A port that a socket can be bound to. -/
structure Port where
  number : ℕ
  positive : 0 < number
  bounded : number < 2 ^ 16

/-- What `bind` does. A socket that asks for port 0 gets an ephemeral one. -/
inductive BindOutcome where
  | success (ephemeral : Port)
  | addrInUse
  | otherError

/-- The value that `bind` returns. -/
def BindOutcome.errorCode : BindOutcome → ℤ
  | .success _ => 0
  | .addrInUse | .otherError => -1

/-- The port that the socket is bound to with `sin_port` set to `htons(try_port)`. -/
def boundPort (tryPort : ℤ) (ephemeral : Port) : ℕ :=
  if (tryPort % 2 ^ 16).toNat = 0 then ephemeral.number else (tryPort % 2 ^ 16).toNat

/-- The port of the socket after a call of `bind`, if it has one. -/
def BindOutcome.bound (tryPort : ℤ) : BindOutcome → Option ℕ
  | .success ephemeral => some (boundPort tryPort ephemeral)
  | .addrInUse | .otherError => none

/-- What the calls of the function return. `bind` is given by the port that is tried. -/
structure Environment where
  socket : ℤ
  bind : ℤ → BindOutcome
  workQueueInit : ℤ
  pthreadCreate : ℤ
  pthreadSetname : ℤ

/-- The variables of the search, the attempts made so far and the port of the socket. -/
structure Search where
  tryPort : ℤ
  errorCode : ℤ
  attempts : List (ℤ × BindOutcome)
  bound : Option ℕ

/-- One call of `bind`. -/
def Search.attempt (s : Search) (outcome : BindOutcome) : Search :=
  { s with
    errorCode := outcome.errorCode
    attempts := s.attempts ++ [(s.tryPort, outcome)]
    bound := outcome.bound s.tryPort }

/-- The loop of `dynpm_server_init_port_range`. -/
def searchLoop (bind : ℤ → BindOutcome) (maxPort : ℤ) (s : Search) : Except Fault Search :=
  if s.tryPort ≤ maxPort then
    match bind s.tryPort with
    | .addrInUse => do
        let _ ← CInt.add s.tryPort 1
        searchLoop bind maxPort { s.attempt .addrInUse with tryPort := s.tryPort + 1 }
    | outcome => .ok (s.attempt outcome)
  else .ok s
termination_by (maxPort + 1 - s.tryPort).toNat
decreasing_by omega

/-- `_dynpm_server_init_common`, which starts the server. -/
def serverInitCommon (env : Environment) : ℤ :=
  if env.workQueueInit ≠ 0 then -1
  else if env.pthreadCreate ≠ 0 then -1
  else if env.pthreadSetname ≠ 0 then -1
  else 0

/-- What a call of `dynpm_server_init_port_range` has done: whether it has come to
`_dynpm_server_init_common`, the value stored in `*port`, the port of the socket and the attempts to
bind it. -/
structure Call where
  returned : ℤ
  started : Bool
  port : Option ℤ
  bound : Option ℕ
  attempts : List (ℤ × BindOutcome)

/-- `dynpm_server_init_port_range`. Nothing assigns `error_code` before the loop. -/
def serverInitPortRange (env : Environment) (errorCode minPort maxPort : ℤ) : Except Fault Call :=
  if env.socket < 0 then .ok ⟨-1, false, none, none, []⟩
  else do
    let s ← searchLoop env.bind maxPort ⟨minPort, errorCode, [], none⟩
    if s.errorCode ≠ 0 then return ⟨-1, false, none, s.bound, s.attempts⟩
    else return ⟨serverInitCommon env, true, some s.tryPort, s.bound, s.attempts⟩

end Dynpm.PortRange
