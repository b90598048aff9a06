import Dynpm.Model.Shm
import Dynpm.Model.Frame

/-! # Life cycle of the shared-memory segments

Model of the functions of `src/shm/shm.c` that set up and tear down the channel: what they do
to the two module-level pointers of their OS process and to the names of the segments. `malloc`
always succeeds.
-/

namespace Dynpm.Lifecycle

open Library Library.Stdio
open Shm (ManagerControl ProcessControl InitArgs initManagerShm initProcessShm)

/-! ## Names -/

abbrev Name := List UInt8

/-- A segment, as far as the life cycle reads it: the ten words of its control line. -/
abbrev Segment := List UInt32

/-- The named segments. -/
abbrev Namespace := Name → Option Segment

def managerShmPath (jobIndex applicationIndex : UInt32) : Name :=
  sprintf "/dynpm_%d_%d" [.int jobIndex, .int applicationIndex]

def processShmPath (jobIndex applicationIndex pid : UInt32) : Name :=
  sprintf "/dynpm_%d_%d_%d" [.int jobIndex, .int applicationIndex, .int pid]

def managerLine (control : ManagerControl) : Segment :=
  [control.readCount, control.writeCount, control.managerPid, control.jobIndex,
    control.applicationIndex, control.shmMappedBytes, control.processCount, control.nodeStatus,
    control.payloadMax, control.payloadBytes]

def processLine (control : ProcessControl) : Segment :=
  [control.readCount, control.writeCount, control.processPid, control.jobIndex,
    control.applicationIndex, control.shmMappedBytes, control.malleabilityMode,
    control.processStatus, control.payloadMax, control.payloadBytes]

/-- The first 64 bytes of a segment, copied over a manager's control block. -/
def copyManagerLine (segment : Segment) : ManagerControl :=
  ⟨segment.getD 0 0, segment.getD 1 0, segment.getD 2 0, segment.getD 3 0, segment.getD 4 0,
    segment.getD 5 0, segment.getD 6 0, segment.getD 7 0, segment.getD 8 0, segment.getD 9 0⟩

/-- The first 64 bytes of a segment, copied over a process's control block. -/
def copyProcessLine (segment : Segment) : ProcessControl :=
  ⟨segment.getD 0 0, segment.getD 1 0, segment.getD 2 0, segment.getD 3 0, segment.getD 4 0,
    segment.getD 5 0, segment.getD 6 0, segment.getD 7 0, segment.getD 8 0, segment.getD 9 0⟩

/-- `mmap` of what `shm_open` has returned: there is no mapping without a descriptor. The
descriptor is kept in an unsigned field, so that the callers' test for a negative one never
succeeds and a failed `shm_open` shows here. -/
def mmap (opened : Option Segment) (succeeds : Bool) : Option Segment :=
  if succeeds then opened else none

/-! ## The pointers of one OS process -/

/-- An allocated block with its address. -/
structure Block (α : Type) where
  address : ℕ
  contents : α
  deriving DecidableEq

/-- The static variables of the module in one OS process, where `none` is `NULL`; `heap` is the
next address that `malloc` returns, and `memory` what the new blocks hold. -/
structure Module where
  heap : ℕ
  memory : ManagerControl × ProcessControl
  managerControl : Option (Block ManagerControl)
  processControl : Option (Block (List ProcessControl))

/-- A process that has not called the library yet. -/
def Module.unused (memory : ManagerControl × ProcessControl) : Module := ⟨0, memory, none, none⟩

/-- Arguments of `dynpm_shm_process_attach`, the process's pid, and what its system calls meet:
the named segments, and whether each `mmap` of an open descriptor succeeds. -/
structure AttachCall where
  jobIndex : UInt32
  applicationIndex : UInt32
  pid : UInt32
  names : Namespace
  mapManager : Bool
  mapProcess : Bool

/-- What the two mappings of an attach give. -/
def AttachCall.managerSegment (call : AttachCall) : Option Segment :=
  mmap (call.names (managerShmPath call.jobIndex call.applicationIndex)) call.mapManager

def AttachCall.processSegment (call : AttachCall) : Option Segment :=
  mmap (call.names (processShmPath call.jobIndex call.applicationIndex call.pid)) call.mapProcess

/-- `dynpm_shm_process_attach`: its return code and the pointers at its return. -/
def processAttach (call : AttachCall) (m : Module) : Except Fault (ℤ × Module) :=
  if m.managerControl.isSome then .error .assertion
  else
    match call.managerSegment with
    | none =>
        .ok (-5, { m with
          heap := m.heap + 1
          managerControl := some ⟨m.heap, m.memory.1⟩ })
    | some segment =>
        if m.processControl.isSome then .error .assertion
        else
          let attaching := { m with
            heap := m.heap + 3
            managerControl := some ⟨m.heap, copyManagerLine segment⟩
            processControl := some ⟨m.heap + 1, [m.memory.2]⟩ }
          match call.processSegment with
          | none => .ok (-1, attaching)
          | some segment =>
              .ok (0, { attaching with
                processControl := some ⟨m.heap + 1, [copyProcessLine segment]⟩ })

/-- The common body of the two teardown functions: the name that is unlinked, and the pointers
at the return. -/
def unlinkManager (m : Module) : Except Fault (Name × Module) :=
  match m.managerControl with
  | none => .error .nullPointer
  | some control =>
      .ok (managerShmPath control.contents.jobIndex control.contents.applicationIndex,
        { m with managerControl := none })

/-- `dynpm_shm_manager_finalize`. -/
def managerFinalize (m : Module) : Except Fault (Name × Module) := unlinkManager m

/-- `dynpm_shm_process_detach`. -/
def processDetach (m : Module) : Except Fault (Name × Module) := unlinkManager m

/-- `shm_unlink`. -/
def unlink (names : Namespace) (name : Name) : Namespace := Function.update names name none

/-! ## Initialisation -/

/-- Whether `shm_open`, `ftruncate` and `mmap` succeed for one segment. -/
structure Outcome where
  opened : Bool
  truncated : Bool
  mapped : Bool
  deriving DecidableEq

/-- All three calls succeed. -/
def Outcome.success : Outcome := ⟨true, true, true⟩

/-- The system calls of `_init_manager_shm` and `_init_process_shm` for one segment: the return
code and the names. A name that did not exist is created; without a descriptor `ftruncate`
fails. -/
def initSegment (name : Name) (line : Segment) (outcome : Outcome) (names : Namespace) :
    ℤ × Namespace :=
  if outcome.opened then
    let created := Function.update names name (some ((names name).getD []))
    if outcome.truncated then
      if outcome.mapped then (0, Function.update names name (some line)) else (-2, created)
    else (-1, created)
  else (-1, names)

/-- Arguments of `dynpm_shm_manager_init` for `n` processes, with what its system calls meet. -/
structure InitCall (n : ℕ) where
  args : InitArgs n
  names : Namespace
  manager : Outcome
  process : Fin n → Outcome

def InitCall.managerPath {n : ℕ} (call : InitCall n) : Name :=
  managerShmPath call.args.jobIndex.toUInt32 call.args.applicationIndex.toUInt32

def InitCall.processPath {n : ℕ} (call : InitCall n) (i : Fin n) : Name :=
  processShmPath call.args.jobIndex.toUInt32 call.args.applicationIndex.toUInt32
    (call.args.pidList i).toUInt32

/-- `_init_manager_shm`. -/
def initManager {n : ℕ} (call : InitCall n) : ℤ × Namespace :=
  initSegment call.managerPath (managerLine (initManagerShm call.args)) call.manager call.names

/-- `_init_process_shm` for the process at `i`, its code added to the ones before. -/
def initProcess {n : ℕ} (call : InitCall n) (result : ℤ × Namespace) (i : Fin n) :
    ℤ × Namespace :=
  let (code, names) :=
    initSegment (call.processPath i) (processLine (initProcessShm call.args i)) (call.process i)
      result.2
  (result.1 + code, names)

/-- `dynpm_shm_manager_init`: its return code, the names and the pointers at its return. The
processes are initialised whether or not the manager's segment was. -/
def managerInit {n : ℕ} (call : InitCall n) (m : Module) : Except Fault (ℤ × Namespace × Module) :=
  if m.managerControl.isSome then .error .assertion
  else
    let result := (List.finRange n).foldl (initProcess call) (initManager call)
    .ok (result.1, result.2, { m with
      heap := m.heap + n + 4
      managerControl := some ⟨m.heap, initManagerShm call.args⟩
      processControl := some ⟨m.heap + 1, List.ofFn (initProcessShm call.args)⟩ })

/-! ## Repeated calls in one OS process -/

/-- The pointers of an OS process, whether its last call to set up the channel has returned
zero and was not undone since, and whether an assertion has failed or a pointer was `NULL`. -/
structure Life where
  module : Module
  attached : Bool
  aborted : Bool

def Life.unused (memory : ManagerControl × ProcessControl) : Life :=
  ⟨Module.unused memory, false, false⟩

/-- The process sets up the channel. -/
def Life.enter (life : Life) (result : Except Fault (ℤ × Module)) : Life :=
  match result with
  | .ok (code, m) => { life with module := m, attached := decide (code = 0) }
  | .error _ => { life with aborted := true }

/-- The process tears down the channel. -/
def Life.leave (life : Life) (result : Except Fault (Name × Module)) : Life :=
  match result with
  | .ok (_, m) => { life with module := m, attached := false }
  | .error _ => { life with aborted := true }

inductive LifeCall (ε : Type) where
  | enter (call : ε)
  | leave

/-- One OS process that sets up the channel only when it is not attached and tears it down only
when it is. -/
def lifecycle {ε : Type} (enter : ε → Module → Except Fault (ℤ × Module))
    (leave : Module → Except Fault (Name × Module)) : System Life (LifeCall ε) where
  initial life := ∃ memory, life = Life.unused memory
  step life
    | .enter call =>
        if life.attached ∨ life.aborted then none
        else some (life.enter (enter call life.module))
    | .leave =>
        if life.attached ∧ ¬ life.aborted then some (life.leave (leave life.module)) else none

/-- A process that attaches and detaches. -/
def processLife : System Life (LifeCall AttachCall) := lifecycle processAttach processDetach

/-- `dynpm_shm_manager_init` without the names it leaves. -/
def initPointers (call : Σ n, InitCall n) (m : Module) : Except Fault (ℤ × Module) :=
  (managerInit call.2 m).map fun (code, _, m) => (code, m)

/-- A manager that initialises and finalises, with any number of processes each time. -/
def managerLife : System Life (LifeCall (Σ n, InitCall n)) :=
  lifecycle initPointers managerFinalize

/-! ## A whole job -/

/-- The named segments, the manager, and the listed processes by their pids. `tried` tells which
processes have called `dynpm_shm_process_attach`, `detached` whether one has detached. -/
structure Job where
  names : Namespace
  manager : Module
  process : Int32 → Life
  tried : Int32 → Bool
  detached : Bool

inductive JobAction (n : ℕ) where
  | attach (i : Fin n)
  | detach (i : Fin n)
  | finalize

/-- The call by which the process at `i` attaches to the job; the namespace decides what
`shm_open` returns, and nothing else fails. -/
def Job.attachCall {n : ℕ} (args : InitArgs n) (job : Job) (i : Fin n) : AttachCall where
  jobIndex := args.jobIndex.toUInt32
  applicationIndex := args.applicationIndex.toUInt32
  pid := (args.pidList i).toUInt32
  names := job.names
  mapManager := true
  mapProcess := true

def Job.attach {n : ℕ} (args : InitArgs n) (job : Job) (i : Fin n) : Job :=
  let pid := args.pidList i
  { job with
    process := Function.update job.process pid
      ((job.process pid).enter (processAttach (job.attachCall args i) (job.process pid).module))
    tried := Function.update job.tried pid true }

/-- A process detaches; the name that its `dynpm_shm_process_detach` unlinks disappears. -/
def Job.detach (job : Job) (pid : Int32) : Job :=
  let result := processDetach (job.process pid).module
  { job with
    names := match result with
      | .ok (name, _) => unlink job.names name
      | .error _ => job.names
    process := Function.update job.process pid ((job.process pid).leave result)
    detached := true }

/-- The manager has not finalised the job. -/
def Job.Up (job : Job) : Prop := job.manager.managerControl.isSome

instance (job : Job) : Decidable job.Up := inferInstanceAs (Decidable (_ = true))

def Job.step {n : ℕ} (args : InitArgs n) (job : Job) : JobAction n → Option Job
  | .attach i => if (job.process (args.pidList i)).aborted then none else some (job.attach args i)
  | .detach i =>
      if (job.process (args.pidList i)).attached ∧ ¬ (job.process (args.pidList i)).aborted then
        some (job.detach (args.pidList i))
      else none
  | .finalize =>
      match managerFinalize job.manager with
      | .ok (name, m) => some { job with names := unlink job.names name, manager := m }
      | .error _ => none

/-- The call by which the manager sets up the job; nothing fails in it. -/
def jobInit {n : ℕ} (args : InitArgs n) (before : Namespace) : InitCall n :=
  ⟨args, before, .success, fun _ => .success⟩

/-- A job whose manager has returned from `dynpm_shm_manager_init` with success, in every
interleaving of the calls that follow. -/
def job {n : ℕ} (args : InitArgs n) (before : Namespace) : System Job (JobAction n) where
  initial j := ∃ memory names m, managerInit (jobInit args before) (Module.unused memory) =
    .ok (0, names, m) ∧ ∃ memories : Int32 → ManagerControl × ProcessControl,
      j = ⟨names, m, fun pid => Life.unused (memories pid), fun _ => false, false⟩
  step := Job.step args

end Dynpm.Lifecycle
