import Dynpm.Model.Frame

/-! # Messages and their codecs

Model of `src/network/protocol.c`. Each serialiser prints into the frame it is given, and each
deserialiser scans the frame into memory that `malloc` returned, so that a field the scan does
not reach keeps what this memory held.
-/

namespace Dynpm.Protocol

open Library Library.Stdio

/-! ## Header -/

structure Header where
  sourceType : UInt32
  messageType : UInt32
  deriving DecidableEq, Repr

def headerText (header : Header) : List UInt8 :=
  sprintf "%d %d" [.int header.sourceType, .int header.messageType]

def serializeHeader (header : Header) (buffer : Frame) : Except Fault Frame :=
  buffer.puts (headerText header)

def deserializeHeader (malloc : Garbage) (buffer : Frame) : Except Fault Header := do
  let values ← buffer.sscanf "%d %d" []
  return { sourceType := malloc.intAt values 0, messageType := malloc.intAt values 1 }

/-! ## Messages of text -/

structure RegisterConnectionMsg where
  pid : UInt32
  hostname : List UInt8
  deriving DecidableEq, Repr

def registerConnectionText (header : Header) (msg : RegisterConnectionMsg) : List UInt8 :=
  sprintf "%d %d %d %s"
    [.int header.sourceType, .int header.messageType, .int msg.pid, .str msg.hostname]

def serializeRegisterConnectionMsg (header : Header) (msg : RegisterConnectionMsg)
    (buffer : Frame) : Except Fault Frame :=
  buffer.puts (registerConnectionText header msg)

def deserializeRegisterConnectionMsg (malloc : Garbage) (buffer : Frame) :
    Except Fault RegisterConnectionMsg := do
  let values ← buffer.sscanf "%d %d %d %s" [256]
  return { pid := malloc.intAt values 2, hostname := malloc.strAt values 3 }

structure DeregisterConnectionMsg where
  pid : UInt32
  hostname : List UInt8
  errorCode : Int32
  deriving DecidableEq

def deregisterConnectionText (header : Header) (msg : DeregisterConnectionMsg) : List UInt8 :=
  sprintf "%d %d %d %s %d"
    [.int header.sourceType, .int header.messageType, .int msg.pid, .str msg.hostname,
      .int msg.errorCode.toUInt32]

def serializeDeregisterConnectionMsg (header : Header) (msg : DeregisterConnectionMsg)
    (buffer : Frame) : Except Fault Frame :=
  buffer.puts (deregisterConnectionText header msg)

def deserializeDeregisterConnectionMsg (malloc : Garbage) (buffer : Frame) :
    Except Fault DeregisterConnectionMsg := do
  let values ← buffer.sscanf "%d %d %d %s %d" [256]
  return {
    pid := malloc.intAt values 2
    hostname := malloc.strAt values 3
    errorCode := (malloc.intAt values 4).toInt32 }

/-- `creation_time` and `end_time` are the 64 bits of a `time_t`. -/
structure ResourceOfferMsg where
  applicationIndex : UInt32
  partitionIndex : UInt32
  nodeCount : UInt32
  creationTime : UInt64
  endTime : UInt64
  deriving DecidableEq

/-- `%d` prints the low half of a `time_t`. -/
def resourceOfferText (header : Header) (msg : ResourceOfferMsg) : List UInt8 :=
  sprintf "%d %d %d %d %d %d %d"
    [.int header.sourceType, .int header.messageType, .int msg.applicationIndex,
      .int msg.partitionIndex, .int msg.nodeCount, .int msg.creationTime.toUInt32,
      .int msg.endTime.toUInt32]

def serializeResourceOfferMsg (header : Header) (msg : ResourceOfferMsg) (buffer : Frame) :
    Except Fault Frame :=
  buffer.puts (resourceOfferText header msg)

/-- The `time_t` with the given halves. -/
def timeOfHalves (low high : UInt32) : UInt64 :=
  UInt64.ofNat (2 ^ 32 * high.toNat + low.toNat)

/-- `%d` stores the low half of a `time_t`. The high halves of the two times, words 7 and 8 of
the memory, keep what they held. -/
def deserializeResourceOfferMsg (malloc : Garbage) (buffer : Frame) :
    Except Fault ResourceOfferMsg := do
  let values ← buffer.sscanf "%d %d %d %d %d %d %d" []
  return {
    applicationIndex := malloc.intAt values 2
    partitionIndex := malloc.intAt values 3
    nodeCount := malloc.intAt values 4
    creationTime := timeOfHalves (malloc.intAt values 5) (malloc.int 7)
    endTime := timeOfHalves (malloc.intAt values 6) (malloc.int 8) }

structure CreateTbonMsg where
  id : UInt32
  degree : UInt32
  total : UInt32
  nodes : List UInt8
  deriving DecidableEq, Repr

def createTbonText (header : Header) (msg : CreateTbonMsg) : List UInt8 :=
  sprintf "%d %d %d %d %d %s"
    [.int header.sourceType, .int header.messageType, .int msg.id, .int msg.degree,
      .int msg.total, .str msg.nodes]

def serializeCreateTbonMsg (header : Header) (msg : CreateTbonMsg) (buffer : Frame) :
    Except Fault Frame :=
  buffer.puts (createTbonText header msg)

def deserializeCreateTbonMsg (malloc : Garbage) (buffer : Frame) :
    Except Fault CreateTbonMsg := do
  let values ← buffer.sscanf "%d %d %d %d %d %s" [256]
  return {
    id := malloc.intAt values 2
    degree := malloc.intAt values 3
    total := malloc.intAt values 4
    nodes := malloc.strAt values 5 }

/-- `dynpm_ready_msg_t`, to which the three messages of this layout are cast. -/
structure ReadyMsg where
  id : UInt32
  subtreeReadyCount : UInt32
  errorCode : UInt32
  deriving DecidableEq, Repr

abbrev ReadyTbonMsg := ReadyMsg
abbrev ReadyDynamicPmMsg := ReadyMsg
abbrev ProcessesDoneMsg := ReadyMsg

def readyText (header : Header) (msg : ReadyMsg) : List UInt8 :=
  sprintf "%d %d %d %d %d"
    [.int header.sourceType, .int header.messageType, .int msg.id, .int msg.subtreeReadyCount,
      .int msg.errorCode]

def serializeReadyMsg (header : Header) (msg : ReadyMsg) (buffer : Frame) : Except Fault Frame :=
  buffer.puts (readyText header msg)

def serializeReadyTbonMsg (header : Header) (msg : ReadyTbonMsg) (buffer : Frame) :
    Except Fault Frame :=
  serializeReadyMsg header msg buffer

def serializeReadyDynamicPmMsg (header : Header) (msg : ReadyDynamicPmMsg) (buffer : Frame) :
    Except Fault Frame :=
  serializeReadyMsg header msg buffer

def serializeProcessesDoneMsg (header : Header) (msg : ProcessesDoneMsg) (buffer : Frame) :
    Except Fault Frame :=
  serializeReadyMsg header msg buffer

def deserializeReadyMsg (malloc : Garbage) (buffer : Frame) : Except Fault ReadyMsg := do
  let values ← buffer.sscanf "%d %d %d %d %d" []
  return {
    id := malloc.intAt values 2
    subtreeReadyCount := malloc.intAt values 3
    errorCode := malloc.intAt values 4 }

def deserializeReadyTbonMsg (malloc : Garbage) (buffer : Frame) : Except Fault ReadyTbonMsg :=
  deserializeReadyMsg malloc buffer

def deserializeReadyDynamicPmMsg (malloc : Garbage) (buffer : Frame) :
    Except Fault ReadyDynamicPmMsg :=
  deserializeReadyMsg malloc buffer

def deserializeProcessesDoneMsg (malloc : Garbage) (buffer : Frame) :
    Except Fault ProcessesDoneMsg :=
  deserializeReadyMsg malloc buffer

structure DeregisterProcessManagerMsg where
  pid : UInt32
  hostname : List UInt8
  errorCode : Int32
  deriving DecidableEq

def deregisterProcessManagerText (header : Header) (msg : DeregisterProcessManagerMsg) :
    List UInt8 :=
  sprintf "%d %d %d %s %d \n"
    [.int header.sourceType, .int header.messageType, .int msg.pid, .str msg.hostname,
      .int msg.errorCode.toUInt32]

def serializeDeregisterProcessManagerMsg (header : Header) (msg : DeregisterProcessManagerMsg)
    (buffer : Frame) : Except Fault Frame :=
  buffer.puts (deregisterProcessManagerText header msg)

def deserializeDeregisterProcessManagerMsg (malloc : Garbage) (buffer : Frame) :
    Except Fault DeregisterProcessManagerMsg := do
  let values ← buffer.sscanf "%d %d %d %s %d" [256]
  return {
    pid := malloc.intAt values 2
    hostname := malloc.strAt values 3
    errorCode := (malloc.intAt values 4).toInt32 }

structure AllocationRequestMsg where
  applicationIndex : UInt32
  partitionIndex : UInt32
  type : UInt32
  nodeCount : UInt32
  deriving DecidableEq, Repr

def allocationRequestText (header : Header) (msg : AllocationRequestMsg) : List UInt8 :=
  sprintf "%d %d %d %d %d %d \n"
    [.int header.sourceType, .int header.messageType, .int msg.applicationIndex,
      .int msg.partitionIndex, .int msg.type, .int msg.nodeCount]

def serializeAllocationRequestMsg (header : Header) (msg : AllocationRequestMsg)
    (buffer : Frame) : Except Fault Frame :=
  buffer.puts (allocationRequestText header msg)

def deserializeAllocationRequestMsg (malloc : Garbage) (buffer : Frame) :
    Except Fault AllocationRequestMsg := do
  let values ← buffer.sscanf "%d %d %d %d %d %d " []
  return {
    applicationIndex := malloc.intAt values 2
    partitionIndex := malloc.intAt values 3
    type := malloc.intAt values 4
    nodeCount := malloc.intAt values 5 }

structure ReallocationStartMsg where
  applicationIndex : UInt32
  partitionIndex : UInt32
  type : UInt32
  currentNodeCount : UInt32
  currentNodes : List UInt8
  deltaNodeCount : UInt32
  deltaNodes : List UInt8
  updatedNodeCount : UInt32
  updatedNodes : List UInt8
  deriving DecidableEq, Repr

def reallocationStartText (header : Header) (msg : ReallocationStartMsg) : List UInt8 :=
  sprintf "%d %d %d %d %d %d %s %d %s %d %s\n"
    [.int header.sourceType, .int header.messageType, .int msg.applicationIndex,
      .int msg.partitionIndex, .int msg.type, .int msg.currentNodeCount, .str msg.currentNodes,
      .int msg.deltaNodeCount, .str msg.deltaNodes, .int msg.updatedNodeCount,
      .str msg.updatedNodes]

def serializeReallocationStartMsg (header : Header) (msg : ReallocationStartMsg)
    (buffer : Frame) : Except Fault Frame :=
  buffer.puts (reallocationStartText header msg)

def deserializeReallocationStartMsg (malloc : Garbage) (buffer : Frame) :
    Except Fault ReallocationStartMsg := do
  let values ← buffer.sscanf "%d %d %d %d %d %d %s %d %s %d %s" [1024, 1024, 1024]
  return {
    applicationIndex := malloc.intAt values 2
    partitionIndex := malloc.intAt values 3
    type := malloc.intAt values 4
    currentNodeCount := malloc.intAt values 5
    currentNodes := malloc.strAt values 6
    deltaNodeCount := malloc.intAt values 7
    deltaNodes := malloc.strAt values 8
    updatedNodeCount := malloc.intAt values 9
    updatedNodes := malloc.strAt values 10 }

structure ReallocationCompleteMsg where
  applicationIndex : UInt32
  partitionIndex : UInt32
  type : UInt32
  nodeCount : UInt32
  nodes : List UInt8
  statusCode : UInt32
  deriving DecidableEq, Repr

def reallocationCompleteText (header : Header) (msg : ReallocationCompleteMsg) : List UInt8 :=
  sprintf "%d %d %d %d %d %d %s %d\n"
    [.int header.sourceType, .int header.messageType, .int msg.applicationIndex,
      .int msg.partitionIndex, .int msg.type, .int msg.nodeCount, .str msg.nodes,
      .int msg.statusCode]

def serializeReallocationCompleteMsg (header : Header) (msg : ReallocationCompleteMsg)
    (buffer : Frame) : Except Fault Frame :=
  buffer.puts (reallocationCompleteText header msg)

def deserializeReallocationCompleteMsg (malloc : Garbage) (buffer : Frame) :
    Except Fault ReallocationCompleteMsg := do
  let values ← buffer.sscanf "%d %d %d %d %d %d %s %d" [256]
  return {
    applicationIndex := malloc.intAt values 2
    partitionIndex := malloc.intAt values 3
    type := malloc.intAt values 4
    nodeCount := malloc.intAt values 5
    nodes := malloc.strAt values 6
    statusCode := malloc.intAt values 7 }

/-! ## Register process manager -/

structure Application where
  applicationIndex : UInt32
  malleabilityMode : UInt32
  nodeCount : UInt32
  nodes : List UInt8
  deriving DecidableEq, Repr

structure RegisterProcessManagerMsg where
  pid : UInt32
  hostname : List UInt8
  jobIndex : UInt32
  applicationCount : UInt32
  applications : List Application
  deriving DecidableEq, Repr

def registerProcessManagerText (header : Header) (msg : RegisterProcessManagerMsg) : List UInt8 :=
  sprintf "%d %d %d %s %d %d \n"
    [.int header.sourceType, .int header.messageType, .int msg.pid, .str msg.hostname,
      .int msg.jobIndex, .int msg.applicationCount]

def applicationText (application : Application) : List UInt8 :=
  sprintf "%d %d %d %s \n"
    [.int application.applicationIndex, .int application.malleabilityMode,
      .int application.nodeCount, .str application.nodes]

/-- One iteration of the loop over the applications: the line is printed to a temporary buffer
of 256 bytes and appended to the text. -/
def appendApplication (applications : List Application) (buffer : Frame) (app : ℕ) :
    Except Fault Frame :=
  match applications[app]? with
  | none => .error .outOfBounds
  | some application =>
      let temp := applicationText application
      if temp.length < 256 then buffer.strcat temp else .error .outOfBounds

/-- The loop counter is not initialised: it starts at the value `app` that its memory happens to
hold, which the comparison with the count converts to an unsigned number. -/
def serializeRegisterProcessManagerMsg (app : Int32) (header : Header)
    (msg : RegisterProcessManagerMsg) (buffer : Frame) : Except Fault Frame := do
  let buffer ← buffer.puts (registerProcessManagerText header msg)
  let first := app.toUInt32.toNat
  (List.range' first (msg.applicationCount.toNat - first)).foldlM
    (appendApplication msg.applications) buffer

/-- `sscanf` on a line returned by `strtok`. -/
def scanLine (line : Option (List UInt8)) (format : String) (capacities : List ℕ) :
    Except Fault (List Arg) :=
  match line with
  | none => .error .nullPointer
  | some text => scan (parseFormat format.toList) capacities text

/-- The loop over the applications that are still to be read, from the index `app` on. The
memory of the application at this index is the allocation `app + 1`. -/
def deserializeApplications (malloc : ℕ → Garbage) :
    ℕ → ℕ → Frame → ℕ → Except Fault (List Application × Frame)
  | 0, _, buffer, _ => .ok ([], buffer)
  | remaining + 1, app, buffer, cursor => do
      let (line, buffer, cursor) ← buffer.strtok [13, 10] cursor
      let values ← scanLine line "%d %d %d %s" [512]
      let application := {
        applicationIndex := (malloc (app + 1)).intAt values 0
        malleabilityMode := (malloc (app + 1)).intAt values 1
        nodeCount := (malloc (app + 1)).intAt values 2
        nodes := (malloc (app + 1)).strAt values 3 }
      let (applications, buffer) ← deserializeApplications malloc remaining (app + 1) buffer cursor
      return (application :: applications, buffer)

/-- The message and the frame, in which `strtok` has overwritten the ends of the lines. -/
def deserializeRegisterProcessManagerMsg (malloc : ℕ → Garbage) (buffer : Frame) :
    Except Fault (RegisterProcessManagerMsg × Frame) := do
  let (line, buffer, cursor) ← buffer.strtok [13, 10] 0
  let values ← scanLine line "%d %d %d %s %d %d" [256]
  let applicationCount := (malloc 0).intAt values 5
  let (applications, buffer) ←
    deserializeApplications malloc applicationCount.toNat 0 buffer cursor
  return ({
    pid := (malloc 0).intAt values 2
    hostname := (malloc 0).strAt values 3
    jobIndex := (malloc 0).intAt values 4
    applicationCount
    applications }, buffer)

/-! ## Messages with a binary payload -/

/-- The payload starts behind the text, at a fixed offset. -/
def payloadOffset : ℕ := 256

/-- `assert(strlen(char_buff) < 256)`. -/
def assertText (buffer : Frame) : Except Fault Unit := do
  let text ← buffer.text
  if text.length < payloadOffset then return () else throw .assertion

/-- The end of the three serialisers: the length of the text is checked, and a payload that is
not empty is copied behind it. -/
def storePayload (payload : Option (List UInt8)) (payloadBytes : UInt32) (buffer : Frame) :
    Except Fault Frame := do
  assertText buffer
  if 0 < payloadBytes then
    match payload with
    | none => throw .nullPointer
    | some data =>
        if payloadBytes.toNat ≤ data.length then
          buffer.write payloadOffset (data.take payloadBytes.toNat)
        else throw .outOfBounds
  else return buffer

/-- The end of the three deserialisers. -/
def loadPayload (payloadBytes : UInt32) (buffer : Frame) :
    Except Fault (Option (List UInt8)) := do
  assertText buffer
  if 0 < payloadBytes then
    let payload ← buffer.read payloadOffset payloadBytes.toNat
    return some payload
  else return none

structure DynamicPmLaunchMsg where
  id : UInt32
  type : UInt32
  payloadBytes : UInt32
  payload : Option (List UInt8)
  deriving DecidableEq, Repr

def dynamicPmLaunchText (header : Header) (msg : DynamicPmLaunchMsg) : List UInt8 :=
  sprintf "%d %d %d %d %d \n"
    [.int header.sourceType, .int header.messageType, .int msg.id, .int msg.type,
      .int msg.payloadBytes]

def serializeDynamicPmLaunchMsg (header : Header) (msg : DynamicPmLaunchMsg) (buffer : Frame) :
    Except Fault Frame := do
  let buffer ← buffer.puts (dynamicPmLaunchText header msg)
  storePayload msg.payload msg.payloadBytes buffer

def deserializeDynamicPmLaunchMsg (malloc : Garbage) (buffer : Frame) :
    Except Fault DynamicPmLaunchMsg := do
  let values ← buffer.sscanf "%d %d %d %d %d" []
  let payloadBytes := malloc.intAt values 4
  let payload ← loadPayload payloadBytes buffer
  return { id := malloc.intAt values 2, type := malloc.intAt values 3, payloadBytes, payload }

structure DynamicIoOutMsg where
  id : UInt32
  host : List UInt8
  payloadBytes : UInt32
  payload : Option (List UInt8)
  deriving DecidableEq, Repr

def dynamicIoOutText (header : Header) (msg : DynamicIoOutMsg) : List UInt8 :=
  sprintf "%d %d %d %s %d \n"
    [.int header.sourceType, .int header.messageType, .int msg.id, .str msg.host,
      .int msg.payloadBytes]

def serializeDynamicIoOutMsg (header : Header) (msg : DynamicIoOutMsg) (buffer : Frame) :
    Except Fault Frame := do
  let buffer ← buffer.puts (dynamicIoOutText header msg)
  storePayload msg.payload msg.payloadBytes buffer

def deserializeDynamicIoOutMsg (malloc : Garbage) (buffer : Frame) :
    Except Fault DynamicIoOutMsg := do
  let values ← buffer.sscanf "%d %d %d %s %d " [256]
  let payloadBytes := malloc.intAt values 4
  let payload ← loadPayload payloadBytes buffer
  return { id := malloc.intAt values 2, host := malloc.strAt values 3, payloadBytes, payload }

structure ReportProcessDataMsg where
  id : UInt32
  jobIndex : UInt32
  applicationIndex : UInt32
  malleabilityMode : UInt32
  payloadBytes : UInt32
  payload : Option (List UInt8)
  deriving DecidableEq, Repr

def reportProcessDataText (header : Header) (msg : ReportProcessDataMsg) : List UInt8 :=
  sprintf "%d %d %d %d %d %d %d\n"
    [.int header.sourceType, .int header.messageType, .int msg.id, .int msg.jobIndex,
      .int msg.applicationIndex, .int msg.malleabilityMode, .int msg.payloadBytes]

def serializeReportProcessDataMsg (header : Header) (msg : ReportProcessDataMsg)
    (buffer : Frame) : Except Fault Frame := do
  let buffer ← buffer.puts (reportProcessDataText header msg)
  storePayload msg.payload msg.payloadBytes buffer

def deserializeReportProcessDataMsg (malloc : Garbage) (buffer : Frame) :
    Except Fault ReportProcessDataMsg := do
  let values ← buffer.sscanf "%d %d %d %d %d %d %d" []
  let payloadBytes := malloc.intAt values 6
  let payload ← loadPayload payloadBytes buffer
  return {
    id := malloc.intAt values 2
    jobIndex := malloc.intAt values 3
    applicationIndex := malloc.intAt values 4
    malleabilityMode := malloc.intAt values 5
    payloadBytes
    payload }

end Dynpm.Protocol
