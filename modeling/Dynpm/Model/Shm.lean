import Dynpm.Library.Transition
import Dynpm.Library.Memory
import Mathlib.Data.UInt
import Mathlib.Logic.Function.Basic

/-! # The shared-memory channel between a manager and its processes

Model of `src/shm/shm.c`. Each 64-byte control-line copy and each payload copy is one step;
the local work around a copy belongs to the step of that copy.
-/

namespace Dynpm.Shm

open Library

/-! ## Control lines -/

/-- The 64 shared bytes of `dynpm_shm_manager_control_t`, without their padding. -/
structure ManagerControl where
  readCount : UInt32
  writeCount : UInt32
  managerPid : UInt32
  jobIndex : UInt32
  applicationIndex : UInt32
  shmMappedBytes : UInt32
  processCount : UInt32
  nodeStatus : UInt32
  payloadMax : UInt32
  payloadBytes : UInt32
  deriving DecidableEq, Repr, Inhabited

/-- The 64 shared bytes of `dynpm_shm_process_control_t`, without their padding. -/
structure ProcessControl where
  readCount : UInt32
  writeCount : UInt32
  processPid : UInt32
  jobIndex : UInt32
  applicationIndex : UInt32
  shmMappedBytes : UInt32
  malleabilityMode : UInt32
  processStatus : UInt32
  payloadMax : UInt32
  payloadBytes : UInt32
  deriving DecidableEq, Repr, Inhabited

/-- The manager's segment: its control line and the payload area behind it. -/
structure ManagerSegment where
  control : ManagerControl
  payload : List UInt8
  deriving DecidableEq, Repr

/-- Arguments of `dynpm_shm_manager_init` for `n` processes, with the manager's own pid. -/
structure InitArgs (n : ℕ) where
  jobIndex : Int32
  applicationIndex : Int32
  managerShmPages : Int32
  processShmPages : Int32
  pidList : Fin n → Int32
  managerPid : UInt32

/-- The control line published by `_init_manager_shm`. -/
def initManagerShm {n : ℕ} (args : InitArgs n) : ManagerControl where
  readCount := 0
  writeCount := 0
  managerPid := args.managerPid
  jobIndex := args.jobIndex.toUInt32
  applicationIndex := args.applicationIndex.toUInt32
  shmMappedBytes := (args.managerShmPages * 4096).toUInt32
  processCount := UInt32.ofNat n
  nodeStatus := 0
  payloadMax := (args.managerShmPages * 4096 - 64).toUInt32
  payloadBytes := 0

/-- The control line published by `_init_process_shm` for the process at `index`. -/
def initProcessShm {n : ℕ} (args : InitArgs n) (index : Fin n) : ProcessControl where
  readCount := 0
  writeCount := 0
  processPid := (args.pidList index).toUInt32
  jobIndex := args.jobIndex.toUInt32
  applicationIndex := args.applicationIndex.toUInt32
  shmMappedBytes := (args.processShmPages * 4096).toUInt32
  malleabilityMode := 0
  processStatus := 0
  payloadMax := (args.processShmPages * 4096 - 64).toUInt32
  payloadBytes := 0

/-! ## The manager -/

/-- Arguments of `dynpm_shm_manager_write`. A pointer that is not null refers to at least
`payloadBytes` bytes. -/
structure WriteArgs where
  payload : Option (List UInt8)
  payloadBytes : Int32
  readable : ∀ bytes ∈ payload, payloadBytes.toInt ≤ bytes.length

/-- A payload together with its announced length. -/
abbrev Payload := List UInt8 × UInt32

/-- The payload a successful `dynpm_shm_manager_write` transmits. -/
def WriteArgs.transmitted (args : WriteArgs) : Payload :=
  ((args.payload.getD []).take args.payloadBytes.toInt.toNat, args.payloadBytes.toUInt32)

/-- A completed `dynpm_shm_manager_write`: its payload, its return code, and the manager
segment and private write count at entry and at return. -/
structure WriteCall where
  payload : Payload
  code : ℤ
  before : ManagerSegment × UInt32
  after : ManagerSegment × UInt32

/-- What `dynpm_shm_manager_get_malleability_mode` returns through its result and its two
out-parameters. -/
structure ModeResult where
  code : ℤ
  mode : UInt32
  status : UInt32
  deriving DecidableEq, Repr

/-- Program points of the manager between two copies. -/
inductive ManagerPc where
  | idle
  /-- In `_all_processes_read_ready`, before the copy of line `i`. -/
  | readReady (args : WriteArgs) (entry : ManagerSegment × UInt32) (i ready : ℕ)
  /-- In `dynpm_shm_manager_write`, after the payload copy. -/
  | writeControl (args : WriteArgs) (entry : ManagerSegment × UInt32)
  /-- In `_sync_processes_meta`, before the copy of line `i`. -/
  | syncMeta (i metaUpdates : ℕ)

/-! ## The processes -/

/-- Program points of a process between two copies. -/
inductive ProcessPc where
  | detached
  /-- In `dynpm_shm_process_attach`, before the copy of its own line. -/
  | attaching
  /-- `dynpm_shm_process_attach` has returned an error. -/
  | failed
  | idle
  /-- In `dynpm_shm_process_read`, before the payload copy. -/
  | readPayload
  /-- In `dynpm_shm_process_read`, before the read count is published. -/
  | publishRead (buffer : List UInt8)
  deriving DecidableEq, Repr

/-- The private state of one process. `obtained` lists the payloads its reads returned;
`missed` tells whether a read has taken the branch for a missed message. -/
structure Process where
  pc : ProcessPc
  managerControl : ManagerControl
  processControl : ProcessControl
  obtained : List Payload
  missed : Bool

/-! ## The whole system -/

/-- The manager's private copies, the shared segments, and the private state of every
process. `calls` lists the completed writes of the manager in order. -/
structure State (n : ℕ) where
  pc : ManagerPc
  managerControl : ManagerControl
  processControl : Fin n → ProcessControl
  segment : ManagerSegment
  processBase : Fin n → ProcessControl
  process : Fin n → Process
  calls : List WriteCall
  modeResult : Option ModeResult

/-- The payloads for which `dynpm_shm_manager_write` returned zero, in order. -/
def State.written {n : ℕ} (s : State n) : List Payload :=
  (s.calls.filter fun call => call.code = 0).map WriteCall.payload

/-- What a failed or a successful write has to compare: the segment and the write count. -/
def State.published {n : ℕ} (s : State n) : ManagerSegment × UInt32 :=
  (s.segment, s.managerControl.writeCount)

/-- `dynpm_shm_manager_write` returns `code` for `args`, having entered at `entry`. -/
def State.returnWrite {n : ℕ} (s : State n) (args : WriteArgs)
    (entry : ManagerSegment × UInt32) (code : ℤ) : State n :=
  { s with
    pc := .idle
    calls := s.calls ++ [⟨args.transmitted, code, entry, s.published⟩] }

/-- The entry of `dynpm_shm_manager_write`, up to the first copy. The signed size is compared
with the unsigned `payload_max` after conversion. -/
def managerWrite {n : ℕ} (args : WriteArgs) (s : State n) : State n :=
  match args.payload with
  | none => s.returnWrite args s.published (-1)
  | some _ =>
      if 0 < args.payloadBytes ∧ args.payloadBytes.toUInt32 < s.managerControl.payloadMax then
        { s with pc := .readReady args s.published 0 0 }
      else s.returnWrite args s.published (-3)

/-- One round of the loop in `_all_processes_read_ready`: copy line `i` and compare it. -/
def allProcessesReadReady {n : ℕ} (args : WriteArgs) (entry : ManagerSegment × UInt32)
    (i : Fin n) (ready : ℕ) (s : State n) : State n :=
  let line := s.processBase i
  { s with
    processControl := Function.update s.processControl i line
    pc := .readReady args entry (i + 1)
      (if line.readCount = s.managerControl.writeCount then ready + 1 else ready) }

/-- The payload copy of `dynpm_shm_manager_write`. -/
def writePayload {n : ℕ} (args : WriteArgs) (entry : ManagerSegment × UInt32)
    (s : State n) : State n :=
  { s with
    segment := { s.segment with payload := store s.segment.payload 0 args.transmitted.1 }
    pc := .writeControl args entry }

/-- `dynpm_shm_manager_write` publishes its control line and returns. -/
def writeControl {n : ℕ} (args : WriteArgs) (entry : ManagerSegment × UInt32)
    (s : State n) : State n :=
  let control := { s.managerControl with
    payloadBytes := args.payloadBytes.toUInt32
    writeCount := s.managerControl.writeCount + 1 }
  State.returnWrite { s with
    managerControl := control
    segment := { s.segment with control := control } } args entry 0

/-- One round of the loop in `_sync_processes_meta`: copy line `i` and compare it. -/
def syncProcessesMeta {n : ℕ} (i : Fin n) (metaUpdates : ℕ) (s : State n) : State n :=
  let line := s.processBase i
  { s with
    processControl := Function.update s.processControl i line
    pc := .syncMeta (i + 1)
      (if line.writeCount = s.managerControl.readCount - 1 ∧ line.payloadBytes = 0
        then metaUpdates + 1 else metaUpdates) }

/-- The comparison of the reported modes at the end of
`dynpm_shm_manager_get_malleability_mode`. -/
def reportedMode (firstMode : UInt32) (modes : List UInt32) : ModeResult :=
  if modes.all (· = firstMode) then ⟨0, firstMode, 0⟩ else ⟨-1, 0, -2⟩

/-- The rest of `dynpm_shm_manager_get_malleability_mode` after the sync: the read count is
published when every process has an update, and the copied modes are compared. Without a
first process the code reads outside its table, and the model has no step. -/
def getMalleabilityMode {n : ℕ} (metaUpdates : ℕ) (s : State n) : Option (State n) :=
  if metaUpdates = n ∨ metaUpdates = 0 then
    if h : 0 < n then
      let control := { s.managerControl with readCount := s.managerControl.readCount + 1 }
      let s' := if 0 < metaUpdates then
          { s with managerControl := control, segment := { s.segment with control := control } }
        else s
      let modes := List.ofFn fun i => (s.processControl i).malleabilityMode
      some { s' with
        pc := .idle
        modeResult := some (reportedMode (s.processControl ⟨0, h⟩).malleabilityMode modes) }
    else none
  else some { s with pc := .idle, modeResult := some ⟨-1, 0, -1⟩ }

/-- The manager's next copy. -/
def managerStep {n : ℕ} (s : State n) : Option (State n) :=
  match s.pc with
  | .idle => none
  | .readReady args entry i ready =>
      if h : i < n then some (allProcessesReadReady args entry ⟨i, h⟩ ready s)
      else if ready = n then some (writePayload args entry s)
      else some (s.returnWrite args entry (-2))
  | .writeControl args entry => some (writeControl args entry s)
  | .syncMeta i metaUpdates =>
      if h : i < n then some (syncProcessesMeta ⟨i, h⟩ metaUpdates s)
      else getMalleabilityMode metaUpdates s

/-- `dynpm_shm_process_attach` up to its copy of the manager's line; `mapped` tells whether
the manager's segment could be mapped. -/
def processAttach (segment : ManagerSegment) (mapped : Bool) (p : Process) : Process :=
  if mapped then { p with pc := .attaching, managerControl := segment.control }
  else { p with pc := .failed }

/-- The rest of `dynpm_shm_process_attach`: the process copies its own line. -/
def attachOwn (line : ProcessControl) (mapped : Bool) (p : Process) : Process :=
  if mapped then { p with pc := .idle, processControl := line } else { p with pc := .failed }

/-- `dynpm_shm_process_read` up to the payload copy: the manager's line is copied and the
counts are compared. -/
def processRead (segment : ManagerSegment) (p : Process) : Process :=
  let p' := { p with managerControl := segment.control }
  if p.processControl.readCount = segment.control.writeCount then p'
  else if p.processControl.readCount = segment.control.writeCount - 1 then
    { p' with pc := .readPayload }
  else { p' with missed := true }

/-- The payload copy of `dynpm_shm_process_read`. -/
def readPayload (segment : ManagerSegment) (p : Process) : Process :=
  { p with pc := .publishRead (load segment.payload 0 p.managerControl.payloadBytes.toNat) }

/-- The line that `dynpm_shm_process_read` publishes. -/
def readLine (p : Process) : ProcessControl :=
  { p.processControl with readCount := p.processControl.readCount + 1 }

/-- `dynpm_shm_process_read` returns the payload in `buffer`. -/
def publishRead (buffer : List UInt8) (p : Process) : Process :=
  { p with
    pc := .idle
    processControl := readLine p
    obtained := p.obtained ++ [(buffer, p.managerControl.payloadBytes)] }

/-- The line that `dynpm_shm_process_set_malleability_mode` publishes. -/
def modeLine (mode : UInt32) (p : Process) : ProcessControl :=
  { p.processControl with
    malleabilityMode := mode
    writeCount := p.processControl.writeCount + 1
    payloadBytes := 0 }

/-- What can happen next: a call of the manager or of a process, or the next copy of a call
that is under way. -/
inductive Action (n : ℕ) where
  | managerWrite (args : WriteArgs)
  | managerGetMalleabilityMode
  | manager
  | processAttach (i : Fin n) (mapped : Bool)
  | attachOwn (i : Fin n) (mapped : Bool)
  | processRead (i : Fin n)
  | readPayload (i : Fin n)
  | publishRead (i : Fin n)
  | processSetMalleabilityMode (i : Fin n) (mode : UInt32)

/-- Process `i` moves to `p` without touching its shared line. -/
def State.setProcess {n : ℕ} (s : State n) (i : Fin n) (p : Process) : State n :=
  { s with process := Function.update s.process i p }

/-- Process `i` moves to `p` and publishes its private line. -/
def State.publishLine {n : ℕ} (s : State n) (i : Fin n) (p : Process) : State n :=
  { s.setProcess i p with processBase := Function.update s.processBase i p.processControl }

/-- The effect of an action in the states that admit it. A process calls the operations on an
attached segment only after its attach has returned zero. -/
def step {n : ℕ} (s : State n) : Action n → Option (State n)
  | .managerWrite args =>
      match s.pc with
      | .idle => some (managerWrite args s)
      | _ => none
  | .managerGetMalleabilityMode =>
      match s.pc with
      | .idle => some { s with pc := .syncMeta 0 0 }
      | _ => none
  | .manager => managerStep s
  | .processAttach i mapped =>
      if (s.process i).pc = .detached then
        some (s.setProcess i (processAttach s.segment mapped (s.process i)))
      else none
  | .attachOwn i mapped =>
      if (s.process i).pc = .attaching then
        some (s.setProcess i (attachOwn (s.processBase i) mapped (s.process i)))
      else none
  | .processRead i =>
      if (s.process i).pc = .idle then
        some (s.setProcess i (processRead s.segment (s.process i)))
      else none
  | .readPayload i =>
      if (s.process i).pc = .readPayload then
        some (s.setProcess i (readPayload s.segment (s.process i)))
      else none
  | .publishRead i =>
      match (s.process i).pc with
      | .publishRead buffer => some (s.publishLine i (publishRead buffer (s.process i)))
      | _ => none
  | .processSetMalleabilityMode i mode =>
      if (s.process i).pc = .idle then
        some (s.publishLine i
          { s.process i with processControl := modeLine mode (s.process i) })
      else none

/-- The state in which a successful `dynpm_shm_manager_init` returns. The payload area and the
private memory of the processes that have not attached hold arbitrary contents. -/
def managerInit {n : ℕ} (args : InitArgs n) (area : List UInt8)
    (memory : Fin n → ManagerControl × ProcessControl) : State n where
  pc := .idle
  managerControl := initManagerShm args
  processControl := initProcessShm args
  segment := ⟨initManagerShm args, area⟩
  processBase := initProcessShm args
  process i := ⟨.detached, (memory i).1, (memory i).2, [], false⟩
  calls := []
  modeResult := none

/-- Manager and `n` processes, in every interleaving of their copies. -/
def system (n : ℕ) : System (State n) (Action n) where
  initial s := ∃ args area memory, s = managerInit args area memory
  step := step

end Dynpm.Shm
