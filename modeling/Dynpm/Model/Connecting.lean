import Dynpm.Library.Transition

/-! # The start of a client connection

Model of the two threads that take part in `dynpm_connect_to_server` of `src/network/client.c`
once the event thread of the connection has been created: the connecting thread, which holds
`server_connections_mutex` all the time, and the event thread, which runs one callback at a time.
-/

namespace Dynpm.Connecting

open Library

inductive Thread where
  | connector
  | event
  deriving DecidableEq

/-- Where the connecting thread is in `dynpm_connect_to_server`. -/
inductive Connector where
  /-- About to lock the mutex of the connection. -/
  | atMutex
  /-- Holds the mutex of the connection, about to test `connected`. -/
  | locked
  /-- In `pthread_cond_wait`, not signalled. -/
  | waiting
  /-- Signalled or woken up, about to lock the mutex of the connection again. -/
  | woken
  /-- Behind the test and the wait, with the mutex of the connection. -/
  | resumed
  /-- Has unlocked the mutex of the connection and sends the registration. -/
  | registering
  /-- Has unlocked `server_connections_mutex`. -/
  | done
  deriving DecidableEq

/-- Whether the wait for the connection is over. -/
def Connector.passed : Connector → Bool
  | .atMutex | .locked | .waiting => false
  | .woken | .resumed | .registering | .done => true

/-- Where the event thread is in its callback. -/
inductive Event where
  | idle
  /-- `_client_to_server_send_progress`, about to lock `server_connections_mutex`. -/
  | progressAtServerMutex
  /-- `_client_to_server_send_progress`, about to lock the mutex of the connection. -/
  | progressAtMutex
  /-- `_client_to_server_send_progress` with both mutexes. -/
  | progressLocked
  /-- `_client_on_error` with `BEV_EVENT_CONNECTED`, about to lock the mutex of the connection. -/
  | connectedAtMutex
  | connectedLocked
  deriving DecidableEq

/-- The two threads, the owners of the mutexes, the field `connected`, and whether
`BEV_EVENT_ERROR` has been processed. -/
structure State where
  connector : Connector
  event : Event
  serverConnectionsMutex : Option Thread
  mutex : Option Thread
  connected : Bool
  errorProcessed : Bool
  deriving DecidableEq

inductive Action where
  | connectorLock
  | connectorTest
  | spuriousWakeUp
  | connectorRelock
  | connectorUnlock
  | connectorFinish
  | fireProgress
  | progressLockServer
  | progressLock
  | progressUnlock
  | fireConnected
  | connectedLock
  | connectedSignal
  | fireError
  deriving DecidableEq

/-- `pthread_cond_signal` on `initialized_cond`. -/
def Connector.signalled : Connector → Connector
  | .waiting => .woken
  | connector => connector

/-- `if(!connected) pthread_cond_wait`: the wait releases the mutex of the connection. -/
def testConnected (s : State) : State :=
  if s.connected then { s with connector := .resumed }
  else { s with connector := .waiting, mutex := none }

def step (s : State) : Action → Option State
  | .connectorLock =>
      if s.connector = .atMutex ∧ s.mutex = none then
        some { s with connector := .locked, mutex := some .connector }
      else none
  | .connectorTest => if s.connector = .locked then some (testConnected s) else none
  | .spuriousWakeUp =>
      if s.connector = .waiting then some { s with connector := .woken } else none
  | .connectorRelock =>
      if s.connector = .woken ∧ s.mutex = none then
        some { s with connector := .resumed, mutex := some .connector }
      else none
  | .connectorUnlock =>
      if s.connector = .resumed then some { s with connector := .registering, mutex := none }
      else none
  | .connectorFinish =>
      if s.connector = .registering then
        some { s with connector := .done, serverConnectionsMutex := none }
      else none
  | .fireProgress =>
      if s.event = .idle then some { s with event := .progressAtServerMutex } else none
  | .progressLockServer =>
      if s.event = .progressAtServerMutex ∧ s.serverConnectionsMutex = none then
        some { s with event := .progressAtMutex, serverConnectionsMutex := some .event }
      else none
  | .progressLock =>
      if s.event = .progressAtMutex ∧ s.mutex = none then
        some { s with event := .progressLocked, mutex := some .event }
      else none
  | .progressUnlock =>
      if s.event = .progressLocked then
        some { s with event := .idle, mutex := none, serverConnectionsMutex := none }
      else none
  | .fireConnected =>
      if s.event = .idle then some { s with event := .connectedAtMutex } else none
  | .connectedLock =>
      if s.event = .connectedAtMutex ∧ s.mutex = none then
        some { s with event := .connectedLocked, mutex := some .event }
      else none
  | .connectedSignal =>
      if s.event = .connectedLocked then
        some { s with
          connector := s.connector.signalled
          event := .idle
          mutex := none
          connected := true }
      else none
  | .fireError => if s.event = .idle then some { s with errorProcessed := true } else none

/-- The event thread has just been created. -/
def initial : State := ⟨.atMutex, .idle, some .connector, none, false, false⟩

def system : System State Action where
  initial s := s = initial
  step := step

/-- The connecting thread waits without a pending signal, while the event thread is blocked on
the mutex that the connecting thread holds or has already processed `BEV_EVENT_ERROR`. -/
def State.Deadlocked (s : State) : Prop :=
  s.connector = .waiting ∧
    ((s.event = .progressAtServerMutex ∧ s.serverConnectionsMutex ≠ none) ∨
      s.errorProcessed = true)

instance (s : State) : Decidable s.Deadlocked :=
  inferInstanceAs (Decidable (s.connector = .waiting ∧
    ((s.event = .progressAtServerMutex ∧ s.serverConnectionsMutex ≠ none) ∨
      s.errorProcessed = true)))

end Dynpm.Connecting
