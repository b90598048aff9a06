import Dynpm.Verification.Shm.Frame
import Dynpm.Verification.Shm.Lifecycle

/-! # Names of the segments

Six calls of `sprintf` print the names, from signed arguments and from the unsigned fields of a
control line. They agree, and a name tells what it belongs to.
-/

namespace Dynpm.Lifecycle

open Library Library.Stdio
open Shm (ManagerControl ProcessControl InitArgs initManagerShm)

variable {n : ℕ}

/-! ## Names and what they belong to -/

/-- The segment of a manager or of a process. -/
inductive SegmentKey where
  | manager (jobIndex applicationIndex : Int32)
  | process (jobIndex applicationIndex pid : Int32)
  deriving DecidableEq

namespace SegmentKey

/-- The job that the segment belongs to. -/
def job : SegmentKey → Int32 × Int32
  | .manager jobIndex applicationIndex => (jobIndex, applicationIndex)
  | .process jobIndex applicationIndex _ => (jobIndex, applicationIndex)

def numbers : SegmentKey → List Int32
  | .manager jobIndex applicationIndex => [jobIndex, applicationIndex]
  | .process jobIndex applicationIndex pid => [jobIndex, applicationIndex, pid]

/-- The parts of a name. -/
def fields (key : SegmentKey) : List (List UInt8) :=
  ("/dynpm".toList.map fun c => UInt8.ofNat c.toNat) ::
    key.numbers.map fun number => decimalInt number.toInt

/-- The parts with underscores between them. -/
def name (key : SegmentKey) : Name := [95].intercalate key.fields

theorem not_mem_fields {key : SegmentKey} {field : List UInt8} (h : field ∈ key.fields) :
    95 ∉ field := by
  rcases List.mem_cons.mp h with rfl | hnumber
  · decide
  · obtain ⟨number, -, rfl⟩ := List.mem_map.mp hnumber
    intro hmem
    rcases mem_decimalInt hmem with hsign | hdigit
    · exact absurd hsign (by decide)
    · exact absurd hdigit (by decide)

/-- A name is taken apart at its underscores. -/
theorem splitOn_name (key : SegmentKey) : key.name.splitOn 95 = key.fields :=
  List.splitOn_intercalate 95 (fun _ => not_mem_fields) (List.cons_ne_nil _ _)

theorem numbers_injective : Function.Injective numbers := by
  intro key key' h
  cases key with
  | manager jobIndex applicationIndex =>
      cases key' with
      | manager => simpa [numbers] using h
      | process => simp [numbers] at h
  | process jobIndex applicationIndex pid =>
      cases key' with
      | manager => simp [numbers] at h
      | process => simpa [numbers] using h

theorem name_injective : Function.Injective name := by
  intro key key' h
  have hfields : key.fields = key'.fields := by
    rw [← splitOn_name, h, splitOn_name]
  have hnumber : Function.Injective fun number : Int32 => decimalInt number.toInt :=
    decimalInt_injective.comp fun _ _ => Int32.toInt_inj.mp
  exact numbers_injective (hnumber.list_map (List.cons.inj hfields).2)

end SegmentKey

/-- The manager's name, whichever way its numbers are kept. -/
theorem managerShmPath_eq_name (jobIndex applicationIndex : Int32) :
    managerShmPath jobIndex.toUInt32 applicationIndex.toUInt32 =
      (SegmentKey.manager jobIndex applicationIndex).name := by
  have hformat : parseFormat "/dynpm_%d_%d".toList =
      "/dynpm_".toList.map (fun c => .byte (UInt8.ofNat c.toNat)) ++ [.int, .byte 95, .int] := by
    decide
  rw [managerShmPath, sprintf, hformat]
  simp [print, printInt_toUInt32, SegmentKey.name, SegmentKey.fields, SegmentKey.numbers,
    List.intercalate]

theorem processShmPath_eq_name (jobIndex applicationIndex pid : Int32) :
    processShmPath jobIndex.toUInt32 applicationIndex.toUInt32 pid.toUInt32 =
      (SegmentKey.process jobIndex applicationIndex pid).name := by
  rw [processShmPath_eq, managerShmPath_eq_name, printInt_toUInt32]
  simp [SegmentKey.name, SegmentKey.fields, SegmentKey.numbers, List.intercalate]

example : (SegmentKey.process (-1) 2 30).name = "/dynpm_-1_2_30".toList.map (fun c =>
    UInt8.ofNat c.toNat) := by
  decide

/-! ## The six places -/

def managerKey (args : InitArgs n) : SegmentKey := .manager args.jobIndex args.applicationIndex

def processKey (args : InitArgs n) (pid : Int32) : SegmentKey :=
  .process args.jobIndex args.applicationIndex pid

/-- The process attaches to the given job. -/
def AttachCall.For (call : AttachCall) (args : InitArgs n) : Prop :=
  call.jobIndex = args.jobIndex.toUInt32 ∧ call.applicationIndex = args.applicationIndex.toUInt32

/-- The names that the functions compute for one job: `dynpm_shm_manager_init`,
`dynpm_shm_process_attach` with its unsigned pid, and the two teardown functions. The latter read
the control block left by the initialisation, the line of the manager in any state that the channel
reaches, or a copy that a process has made of it. -/
structure NamesAgree (args : InitArgs n) : Prop where
  init : ∀ call : InitCall n, call.args = args → call.managerPath = (managerKey args).name ∧
    ∀ i, call.processPath i = (processKey args (args.pidList i)).name
  attach : ∀ call : AttachCall, call.For args →
    call.managerSegment = mmap (call.names (managerKey args).name) call.mapManager ∧
    ∀ pid : Int32, call.pid = pid.toUInt32 →
      call.processSegment = mmap (call.names (processKey args pid).name) call.mapProcess
  initialised : ∀ (call : InitCall n) m code names m', call.args = args →
    managerInit call m = .ok (code, names, m') →
    managerFinalize m' = .ok ((managerKey args).name, { m' with managerControl := none })
  finalize : ∀ area memory actions s,
    (Shm.system n).run (Shm.managerInit args area memory) actions = some s →
    ∀ m : Module, m.managerControl.map Block.contents = some s.managerControl →
      managerFinalize m = .ok ((managerKey args).name, { m with managerControl := none })
  detach : ∀ area memory actions s,
    (Shm.system n).run (Shm.managerInit args area memory) actions = some s →
    ∀ i, (s.process i).pc.Mapped →
    ∀ m : Module, m.managerControl.map Block.contents = some (s.process i).managerControl →
      processDetach m = .ok ((managerKey args).name, { m with managerControl := none })
  attached : ∀ area memory actions s,
    (Shm.system n).run (Shm.managerInit args area memory) actions = some s →
    ∀ (call : AttachCall) (m m' : Module), call.For args →
      call.names (managerKey args).name = some (managerLine s.segment.control) →
      processAttach call m = .ok (0, m') →
      processDetach m' = .ok ((managerKey args).name, { m' with managerControl := none })

/-- Where the control block has the constant fields of the job's line, its name is unlinked. -/
theorem unlinkManager_constant {args : InitArgs n} {control : ManagerControl} {m : Module}
    (hcontents : m.managerControl.map Block.contents = some control)
    (hconstant : control.constant = (initManagerShm args).constant) :
    unlinkManager m = .ok ((managerKey args).name, { m with managerControl := none }) := by
  obtain ⟨block, hblock, rfl⟩ := Option.map_eq_some_iff.mp hcontents
  have hjob := congrArg ManagerControl.jobIndex hconstant
  have happlication := congrArg ManagerControl.applicationIndex hconstant
  have hname : managerShmPath block.contents.jobIndex block.contents.applicationIndex =
      (managerKey args).name := by
    rw [managerKey, ← managerShmPath_eq_name]
    exact congrArg₂ managerShmPath hjob happlication
  simp only [unlinkManager, hblock, hname]

theorem managerSegment_eq {args : InitArgs n} {call : AttachCall} (h : call.For args) :
    call.managerSegment = mmap (call.names (managerKey args).name) call.mapManager := by
  rw [AttachCall.managerSegment, h.1, h.2, managerShmPath_eq_name]
  rfl

theorem processSegment_eq {args : InitArgs n} {call : AttachCall} (h : call.For args) {pid : Int32}
    (hpid : call.pid = pid.toUInt32) :
    call.processSegment = mmap (call.names (processKey args pid).name) call.mapProcess := by
  rw [AttachCall.processSegment, h.1, h.2, hpid, processShmPath_eq_name]
  rfl

theorem namesAgree (args : InitArgs n) : NamesAgree args where
  init := by
    rintro call rfl
    exact ⟨managerShmPath_eq_name _ _, fun i => processShmPath_eq_name _ _ _⟩
  attach := by
    intro call hfor
    exact ⟨managerSegment_eq hfor, fun pid hpid => processSegment_eq hfor hpid⟩
  initialised := by
    rintro call m code names m' rfl hinit
    rw [managerInit] at hinit
    split at hinit
    · cases hinit
    · simp only [Except.ok.injEq, Prod.mk.injEq] at hinit
      obtain ⟨-, -, rfl⟩ := hinit
      exact unlinkManager_constant rfl rfl
  finalize := by
    intro area memory actions s hrun m hcontents
    have hline := (Shm.lineInv_managerInit args area memory).run hrun
    exact unlinkManager_constant hcontents hline.manager
  detach := by
    intro area memory actions s hrun i hmapped m hcontents
    have hline := (Shm.lineInv_managerInit args area memory).run hrun
    exact unlinkManager_constant hcontents (hline.process i hmapped)
  attached := by
    intro area memory actions s hrun call m m' hfor hnames hattach
    have hline := (Shm.lineInv_managerInit args area memory).run hrun
    obtain ⟨-, -, ⟨hne, -⟩ | ⟨-, -, -, segment, hsegment, hcontents⟩⟩ :=
      processAttach_cases hattach
    · exact absurd rfl hne
    · rw [managerSegment_eq hfor, hnames, mmap] at hsegment
      obtain ⟨-, rfl⟩ : call.mapManager = true ∧ managerLine s.segment.control = segment := by
        simpa using hsegment
      exact unlinkManager_constant hcontents hline.segment

/-! ## Other jobs -/

/-- Whatever one job does, and whatever fails in it, the segments of all other jobs are neither
opened nor unlinked. -/
structure Separate (args : InitArgs n) : Prop where
  init : ∀ (call : InitCall n) m code names m', call.args = args →
    managerInit call m = .ok (code, names, m') →
    ∀ key : SegmentKey, key.job ≠ (managerKey args).job → names key.name = call.names key.name
  attach : ∀ (call : AttachCall) m, call.For args →
    ∀ key : SegmentKey, key.job ≠ (managerKey args).job → ∀ segment,
      processAttach { call with names := Function.update call.names key.name segment } m =
        processAttach call m
  teardown : ∀ (names : Namespace) (key : SegmentKey), key.job ≠ (managerKey args).job →
    unlink names (managerKey args).name key.name = names key.name
  run : ∀ before j actions t, (job args before).initial j →
    (job args before).run j actions = some t →
    ∀ key : SegmentKey, key.job ≠ (managerKey args).job → t.names key.name = before key.name

section

variable {args : InitArgs n} {key : SegmentKey}

theorem name_ne_managerKey (h : key.job ≠ (managerKey args).job) :
    key.name ≠ (managerKey args).name := by
  intro hname
  obtain rfl := SegmentKey.name_injective hname
  exact h rfl

theorem name_ne_processKey (h : key.job ≠ (managerKey args).job) (pid : Int32) :
    key.name ≠ (processKey args pid).name := by
  intro hname
  obtain rfl := SegmentKey.name_injective hname
  exact h rfl

/-- An attach meets the named segments only through its two mappings. -/
theorem processAttach_congr {call call' : AttachCall} (m : Module)
    (hmanager : call.managerSegment = call'.managerSegment)
    (hprocess : call.processSegment = call'.processSegment) :
    processAttach call m = processAttach call' m := by
  simp only [processAttach, hmanager, hprocess]

end

theorem separate (args : InitArgs n) : Separate args where
  init := by
    rintro call m code names m' rfl hinit key hkey
    obtain ⟨hmanager, hprocess⟩ := (namesAgree call.args).init call rfl
    rw [managerInit] at hinit
    split at hinit
    · cases hinit
    · simp only [Except.ok.injEq, Prod.mk.injEq] at hinit
      obtain ⟨-, rfl, -⟩ := hinit
      rw [foldl_initProcess_other call _ _ fun i _ => hprocess i ▸ name_ne_processKey hkey _]
      exact initSegment_other (hmanager ▸ name_ne_managerKey hkey) _ _ _
  attach := by
    intro call m hfor key hkey segment
    have hfor' : AttachCall.For
        { call with names := Function.update call.names key.name segment } args := hfor
    have hpid : call.pid = call.pid.toInt32.toUInt32 := rfl
    apply processAttach_congr
    · rw [managerSegment_eq hfor, managerSegment_eq hfor']
      dsimp only
      rw [Function.update_of_ne (name_ne_managerKey hkey).symm]
    · rw [processSegment_eq hfor hpid, processSegment_eq hfor' hpid]
      dsimp only
      rw [Function.update_of_ne (name_ne_processKey hkey _).symm]
  teardown := by
    intro names key hkey
    exact Function.update_of_ne (name_ne_managerKey hkey) _ _
  run := by
    intro before j actions t hinitial hrun key hkey
    obtain ⟨hstarted, hinv, -⟩ := jobInv_of_initial hinitial
    obtain ⟨hmanager, hprocess⟩ := (namesAgree args).init (jobInit args before) rfl
    have ht : JobInv args before j.names t :=
      System.invariant_of_run (fun _ _ _ hs hstep => hs.step hstarted hstep) hinv hrun
    rw [ht.elsewhere _ (hmanager ▸ name_ne_managerKey hkey)]
    exact hstarted.other _ (hmanager ▸ name_ne_managerKey hkey)
      fun i => hprocess i ▸ name_ne_processKey hkey _

/-- Every function computes the same names for a job, no two segments share a name, and so no job
touches another one's segments. -/
theorem segment_names_agree_and_differ (args : InitArgs n) :
    NamesAgree args ∧ Function.Injective SegmentKey.name ∧ Separate args :=
  ⟨namesAgree args, SegmentKey.name_injective, separate args⟩

end Dynpm.Lifecycle
