import Dynpm.Library.Transition
import Dynpm.Model.Protocol

/-! # Sending messages

Model of the functions that serialise a message by the type in its header:
`_dynpm_internal_send_message_to_server` of `src/network/client.c` and
`dynpm_send_message_to_client_connection` of `src/network/server.c`.
-/

namespace Dynpm.Send

open Library Dynpm.Protocol

/-- `dynpm_message_type`. -/
inductive MessageType where
  | invalidMessage
  | registerConnection
  | deregisterConnection
  | registerProcessManager
  | registerProcessManagerAck
  | deregisterProcessManager
  | offerResources
  | createTbon
  | readyTbon
  | readyTbonAck
  | allocationRequest
  | reallocationStart
  | reallocationStartAck
  | reallocationComplete
  | dynamicPmLaunch
  | readyDynamicPm
  | dynamicIoOut
  | dynamicIoOutAck
  | processesDone
  | processesDoneAck
  | pollProcessData
  | reportProcessData
  deriving DecidableEq, Repr

/-- The types in the order of their codes, which start at 0. -/
def MessageType.all : List MessageType :=
  [.invalidMessage, .registerConnection, .deregisterConnection, .registerProcessManager,
    .registerProcessManagerAck, .deregisterProcessManager, .offerResources, .createTbon,
    .readyTbon, .readyTbonAck, .allocationRequest, .reallocationStart, .reallocationStartAck,
    .reallocationComplete, .dynamicPmLaunch, .readyDynamicPm, .dynamicIoOut, .dynamicIoOutAck,
    .processesDone, .processesDoneAck, .pollProcessData, .reportProcessData]

/-- The type of a header, if its code is one of the enumeration. -/
def messageTypeOf (header : Header) : Option MessageType :=
  MessageType.all[header.messageType.toNat]?

/-- What the argument `msg` of a send function points to. -/
inductive Message where
  | registerConnection (msg : RegisterConnectionMsg)
  | deregisterConnection (msg : DeregisterConnectionMsg)
  | registerProcessManager (msg : RegisterProcessManagerMsg)
  | resourceOffer (msg : ResourceOfferMsg)
  | createTbon (msg : CreateTbonMsg)
  | readyTbon (msg : ReadyTbonMsg)
  | allocationRequest (msg : AllocationRequestMsg)
  | reallocationStart (msg : ReallocationStartMsg)
  | dynamicPmLaunch (msg : DynamicPmLaunchMsg)
  | readyDynamicPm (msg : ReadyDynamicPmMsg)
  | dynamicIoOut (msg : DynamicIoOutMsg)
  | processesDone (msg : ProcessesDoneMsg)
  | reportProcessData (msg : ReportProcessDataMsg)

/-! ## Towards a server -/

/-- The switch of `_dynpm_internal_send_message_to_server`: the frame, or nothing for a type that
is not sent to servers. `app` is the uninitialised counter of the serialiser for the
registration of a process manager. A message that is not of the type in the header is read
beyond its fields. -/
def serializeToServer (app : Int32) (header : Header) (msg : Message) (buffer : Frame) :
    Option (Except Fault Frame) :=
  match messageTypeOf header, msg with
  | some .registerConnection, .registerConnection msg =>
      some (serializeRegisterConnectionMsg header msg buffer)
  | some .deregisterConnection, .deregisterConnection msg =>
      some (serializeDeregisterConnectionMsg header msg buffer)
  | some .createTbon, .createTbon msg => some (serializeCreateTbonMsg header msg buffer)
  | some .offerResources, .resourceOffer msg => some (serializeResourceOfferMsg header msg buffer)
  | some .dynamicPmLaunch, .dynamicPmLaunch msg =>
      some (serializeDynamicPmLaunchMsg header msg buffer)
  | some .registerProcessManager, .registerProcessManager msg =>
      some (serializeRegisterProcessManagerMsg app header msg buffer)
  | some .allocationRequest, .allocationRequest msg =>
      some (serializeAllocationRequestMsg header msg buffer)
  | some .registerConnection, _ | some .deregisterConnection, _ | some .createTbon, _
  | some .offerResources, _ | some .dynamicPmLaunch, _ | some .registerProcessManager, _
  | some .allocationRequest, _ => some (.error .outOfBounds)
  | _, _ => none

/-! ## Towards a client -/

/-- The cases of the switch of `dynpm_send_message_to_client_connection`. -/
inductive ClientCase where
  /-- A type that is refused explicitly. -/
  | refused
  /-- A type that falls into the default case. -/
  | unknown
  | serialized (frame : Except Fault Frame)

def clientCase (header : Header) (msg : Message) (buffer : Frame) : ClientCase :=
  match messageTypeOf header, msg with
  | some .registerConnection, _ | some .deregisterConnection, _ => .refused
  | some .offerResources, .resourceOffer msg =>
      .serialized (serializeResourceOfferMsg header msg buffer)
  | some .readyTbon, .readyTbon msg => .serialized (serializeReadyTbonMsg header msg buffer)
  | some .readyDynamicPm, .readyDynamicPm msg =>
      .serialized (serializeReadyDynamicPmMsg header msg buffer)
  | some .dynamicIoOut, .dynamicIoOut msg =>
      .serialized (serializeDynamicIoOutMsg header msg buffer)
  | some .processesDone, .processesDone msg =>
      .serialized (serializeProcessesDoneMsg header msg buffer)
  | some .reportProcessData, .reportProcessData msg =>
      .serialized (serializeReportProcessDataMsg header msg buffer)
  | some .reallocationStart, .reallocationStart msg =>
      .serialized (serializeReallocationStartMsg header msg buffer)
  | some .offerResources, _ | some .readyTbon, _ | some .readyDynamicPm, _
  | some .dynamicIoOut, _ | some .processesDone, _ | some .reportProcessData, _
  | some .reallocationStart, _ => .serialized (.error .outOfBounds)
  | _, _ => .unknown

/-- What the sends to a client use of its connection. `mutex` names the owner of the mutex of
the connection, and `returned` lists what the calls have returned. -/
structure ClientConnection where
  messagesMutexHeld : Bool
  mutex : Option ℕ
  messages : List Frame
  returned : List ℤ

/-- A call of `dynpm_send_message_to_client_connection`. `buffer` is the frame that `malloc`
returns. -/
structure Call where
  header : Header
  msg : Message
  buffer : Frame

/-- `dynpm_send_message_to_client_connection`, unless it blocks on `messages_mutex` or faults in
the serialiser. The refused types leave without unlocking `messages_mutex`; the default case
unlocks the mutex of the connection instead. -/
def sendMessageToClientConnection (s : ClientConnection) (call : Call) :
    Option ClientConnection :=
  if s.messagesMutexHeld then none
  else
    match clientCase call.header call.msg call.buffer with
    | .refused => some { s with messagesMutexHeld := true, returned := s.returned ++ [-1] }
    | .unknown =>
        some { s with
          messagesMutexHeld := true
          mutex := none
          returned := s.returned ++ [-1] }
    | .serialized (.ok frame) =>
        some { s with messages := s.messages ++ [frame], returned := s.returned ++ [0] }
    | .serialized (.error _) => none

/-- Sequences of sends on one connection, without draining. -/
def clientSends : System ClientConnection Call where
  initial s := s.messagesMutexHeld = false
  step := sendMessageToClientConnection

end Dynpm.Send
