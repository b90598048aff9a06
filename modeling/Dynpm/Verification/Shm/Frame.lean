import Dynpm.Verification.Shm.Broadcast

/-! # What the steps of the channel leave alone

Completed writes stay as they are, and so do the fields of the manager's line that
`dynpm_shm_manager_init` sets. A process copies the line as a whole.
-/

namespace Dynpm.Shm

open Library

variable {n : ℕ}

/-! ## Steps -/

/-- The fields of the manager's line that are set once. -/
def ManagerControl.constant (control : ManagerControl) : ManagerControl :=
  { control with readCount := 0, writeCount := 0, payloadBytes := 0 }

/-- The arguments of the write that is under way. -/
def ManagerPc.writing : ManagerPc → Option WriteArgs
  | .idle => none
  | .readReady args _ _ _ => some args
  | .writeControl args _ => some args
  | .syncMeta _ _ => none

/-- The process has copied the manager's line. -/
def ProcessPc.Mapped (pc : ProcessPc) : Prop := pc ≠ .detached ∧ pc ≠ .failed

/-- A process copies the manager's line or keeps the copy that it has. -/
def CopiesLine (line : ManagerControl) (p q : Process) : Prop :=
  q.managerControl = line ∨ q.managerControl = p.managerControl ∧ (q.pc.Mapped → p.pc.Mapped)

theorem copiesLine_self (line : ManagerControl) (p : Process) : CopiesLine line p p :=
  Or.inr ⟨rfl, id⟩

/-- What every step leaves alone. A write that was not under way has passed the test of its
size. -/
structure StepFrame (s t : State n) : Prop where
  calls : s.calls <+: t.calls
  constant : t.managerControl.constant = s.managerControl.constant
  writing : ∀ args ∈ t.pc.writing, args ∈ s.pc.writing ∨
    0 < args.payloadBytes ∧ args.payloadBytes.toUInt32 < s.managerControl.payloadMax
  copies : ∀ i, CopiesLine s.segment.control (s.process i) (t.process i)

/-- A step that moves no process and begins no write. -/
theorem stepFrame_of_process {s t : State n} (hcalls : s.calls <+: t.calls)
    (hconstant : t.managerControl.constant = s.managerControl.constant)
    (hwriting : ∀ args ∈ t.pc.writing, args ∈ s.pc.writing) (hprocess : t.process = s.process) :
    StepFrame s t := by
  refine ⟨hcalls, hconstant, fun args hargs => Or.inl (hwriting args hargs), ?_⟩
  intro i
  rw [hprocess]
  exact copiesLine_self _ _

/-- The manager takes the next step of a call. -/
theorem stepFrame_of_managerStep {s t : State n} (ht : managerStep s = some t) :
    StepFrame s t := by
  cases managerStep_derivation ht with
  | readReady hpc hi =>
      exact stepFrame_of_process List.prefix_rfl rfl
        (by simp [hpc, allProcessesReadReady, ManagerPc.writing]) rfl
  | writePayload hpc hi hready =>
      exact stepFrame_of_process List.prefix_rfl rfl
        (by simp [hpc, writePayload, ManagerPc.writing]) rfl
  | notReady hpc hi hready =>
      exact stepFrame_of_process (List.prefix_append _ _) rfl
        (by simp [State.returnWrite, ManagerPc.writing]) rfl
  | writeControl hpc =>
      exact stepFrame_of_process (List.prefix_append _ _) rfl
        (by simp [writeControl, State.returnWrite, ManagerPc.writing]) rfl
  | syncMeta hpc hi =>
      exact stepFrame_of_process List.prefix_rfl rfl
        (by simp [syncProcessesMeta, ManagerPc.writing]) rfl
  | getMalleabilityMode hpc hi ht =>
      obtain ⟨result, rfl | rfl, -⟩ := getMalleabilityMode_cases ht
      · exact stepFrame_of_process List.prefix_rfl rfl (by simp [ManagerPc.writing]) rfl
      · exact stepFrame_of_process List.prefix_rfl rfl (by simp [ManagerPc.writing]) rfl

theorem stepFrame_of_managerWrite (args : WriteArgs) (s : State n) :
    StepFrame s (managerWrite args s) := by
  rcases managerWrite_cases args s with ⟨code, -, heq⟩ | ⟨-, hsize, heq⟩
  · rw [heq]
    exact stepFrame_of_process (List.prefix_append _ _) rfl
      (by simp [State.returnWrite, ManagerPc.writing]) rfl
  · rw [heq]
    refine ⟨List.prefix_rfl, rfl, ?_, fun i => copiesLine_self _ _⟩
    intro args' hargs
    obtain rfl : args = args' := by simpa [ManagerPc.writing] using hargs
    exact Or.inr hsize

/-- Attaching and reading copy the line, and the other steps come after them. -/
theorem ProcessDerivation.copiesLine {s : State n} {i : Fin n} {a : Action n} {p : Process}
    {base : ProcessControl} (h : ProcessDerivation s i a p base) :
    CopiesLine s.segment.control (s.process i) p := by
  cases h with
  | processAttach mapped hpc =>
      cases mapped with
      | false => exact Or.inr ⟨rfl, fun h => absurd rfl h.2⟩
      | true => exact Or.inl rfl
  | attachOwn mapped hpc =>
      have hmapped : (s.process i).pc.Mapped := by simp [ProcessPc.Mapped, hpc]
      cases mapped with
      | false => exact Or.inr ⟨rfl, fun _ => hmapped⟩
      | true => exact Or.inr ⟨rfl, fun _ => hmapped⟩
  | processRead hpc =>
      unfold Shm.processRead
      dsimp only
      split_ifs
      · exact Or.inl rfl
      · exact Or.inl rfl
      · exact Or.inl rfl
  | readPayload hpc => exact Or.inr ⟨rfl, fun _ => by simp [ProcessPc.Mapped, hpc]⟩
  | publishRead buffer hpc => exact Or.inr ⟨rfl, fun _ => by simp [ProcessPc.Mapped, hpc]⟩
  | processSetMalleabilityMode mode hpc => exact Or.inr ⟨rfl, id⟩

theorem stepFrame_of_moveProcess (s : State n) {i : Fin n} {p : Process} (base : ProcessControl)
    (hcopies : CopiesLine s.segment.control (s.process i) p) :
    StepFrame s (s.moveProcess i p base) := by
  refine ⟨List.prefix_rfl, rfl, fun args hargs => Or.inl hargs, ?_⟩
  intro j
  by_cases hji : j = i
  · subst j
    rw [process_moveProcess, Function.update_self]
    exact hcopies
  · rw [process_moveProcess, Function.update_of_ne hji]
    exact copiesLine_self _ _

theorem stepFrame_of_step {s t : State n} {a : Action n} (ht : step s a = some t) :
    StepFrame s t := by
  cases step_derivation ht with
  | managerWrite args hpc => exact stepFrame_of_managerWrite args s
  | managerGetMalleabilityMode hpc =>
      exact stepFrame_of_process List.prefix_rfl rfl (by simp [ManagerPc.writing]) rfl
  | manager ht => exact stepFrame_of_managerStep ht
  | process hp => exact stepFrame_of_moveProcess s _ hp.copiesLine

/-- Completed writes stay. -/
theorem calls_run {s t : State n} {actions : List (Action n)}
    (hrun : (system n).run s actions = some t) : s.calls <+: t.calls := by
  refine System.invariant_of_run (I := fun t => s.calls <+: t.calls) ?_ List.prefix_rfl hrun
  intro u a v hu hv
  exact hu.trans (stepFrame_of_step hv).calls

/-! ## Copies of the line -/

/-- Every copy of the manager's line has the fields that `dynpm_shm_manager_init` has set. -/
structure LineInv (args : InitArgs n) (s : State n) : Prop where
  invariant : Invariant s
  manager : s.managerControl.constant = (initManagerShm args).constant
  process : ∀ i, (s.process i).pc.Mapped →
    (s.process i).managerControl.constant = (initManagerShm args).constant

namespace LineInv

variable {args : InitArgs n} {s t : State n}

theorem segment (h : LineInv args s) :
    s.segment.control.constant = (initManagerShm args).constant := by
  rw [h.invariant.line]
  exact h.manager

theorem step {a : Action n} (h : LineInv args s) (ht : step s a = some t) : LineInv args t := by
  have hframe := stepFrame_of_step ht
  refine ⟨h.invariant.step ht, hframe.constant.trans h.manager, ?_⟩
  intro i hmapped
  rcases hframe.copies i with hline | ⟨hkept, hbefore⟩
  · rw [hline]
    exact h.segment
  · rw [hkept]
    exact h.process i (hbefore hmapped)

theorem run (h : LineInv args s) {actions : List (Action n)}
    (hrun : (system n).run s actions = some t) : LineInv args t :=
  System.invariant_of_run (fun _ _ _ hs ht => hs.step ht) h hrun

end LineInv

theorem lineInv_managerInit (args : InitArgs n) (area : List UInt8)
    (memory : Fin n → ManagerControl × ProcessControl) :
    LineInv args (managerInit args area memory) where
  invariant := invariant_managerInit args area memory
  manager := rfl
  process _ hmapped := absurd rfl hmapped.1

end Dynpm.Shm
