import Dynpm.Model.Shm

/-! # Steps of the channel

What a step can do, with the condition under which it is taken. The invariants of the channel are
proved by cases on these derivations.
-/

namespace Dynpm.Shm

open Library

variable {n : ℕ}

/-! ## Processes -/

/-- Process `i` moves to `p` and its shared line to `base`; nothing else changes. -/
def State.moveProcess (s : State n) (i : Fin n) (p : Process) (base : ProcessControl) : State n :=
  { s with
    process := Function.update s.process i p
    processBase := Function.update s.processBase i base }

theorem setProcess_eq_moveProcess (s : State n) (i : Fin n) (p : Process) :
    s.setProcess i p = s.moveProcess i p (s.processBase i) := by
  simp [State.setProcess, State.moveProcess]

theorem publishLine_eq_moveProcess (s : State n) (i : Fin n) (p : Process) :
    s.publishLine i p = s.moveProcess i p p.processControl := rfl

@[simp] theorem written_moveProcess (s : State n) (i : Fin n) (p : Process)
    (base : ProcessControl) : (s.moveProcess i p base).written = s.written := rfl

@[simp] theorem managerControl_moveProcess (s : State n) (i : Fin n) (p : Process)
    (base : ProcessControl) :
    (s.moveProcess i p base).managerControl = s.managerControl := rfl

@[simp] theorem process_moveProcess (s : State n) (i : Fin n) (p : Process)
    (base : ProcessControl) :
    (s.moveProcess i p base).process = Function.update s.process i p := rfl

@[simp] theorem processBase_moveProcess (s : State n) (i : Fin n) (p : Process)
    (base : ProcessControl) :
    (s.moveProcess i p base).processBase = Function.update s.processBase i base := rfl

/-- A step of process `i`, which moves to the given private state and shared line. -/
inductive ProcessDerivation (s : State n) (i : Fin n) :
    Action n → Process → ProcessControl → Prop where
  | processAttach (mapped : Bool) (hpc : (s.process i).pc = .detached) :
      ProcessDerivation s i (.processAttach i mapped)
        (processAttach s.segment mapped (s.process i)) (s.processBase i)
  | attachOwn (mapped : Bool) (hpc : (s.process i).pc = .attaching) :
      ProcessDerivation s i (.attachOwn i mapped)
        (attachOwn (s.processBase i) mapped (s.process i)) (s.processBase i)
  | processRead (hpc : (s.process i).pc = .idle) :
      ProcessDerivation s i (.processRead i) (processRead s.segment (s.process i))
        (s.processBase i)
  | readPayload (hpc : (s.process i).pc = .readPayload) :
      ProcessDerivation s i (.readPayload i) (readPayload s.segment (s.process i))
        (s.processBase i)
  | publishRead (buffer : List UInt8) (hpc : (s.process i).pc = .publishRead buffer) :
      ProcessDerivation s i (.publishRead i) (publishRead buffer (s.process i))
        (readLine (s.process i))
  | processSetMalleabilityMode (mode : UInt32) (hpc : (s.process i).pc = .idle) :
      ProcessDerivation s i (.processSetMalleabilityMode i mode)
        { s.process i with processControl := modeLine mode (s.process i) }
        (modeLine mode (s.process i))

/-- What a process has obtained it keeps. -/
theorem ProcessDerivation.obtained_le {s : State n} {i : Fin n} {a : Action n} {p : Process}
    {base : ProcessControl} (h : ProcessDerivation s i a p base) :
    (s.process i).obtained.length ≤ p.obtained.length := by
  cases h with
  | processAttach mapped hpc => cases mapped <;> exact le_rfl
  | attachOwn mapped hpc => cases mapped <;> exact le_rfl
  | processRead hpc =>
      unfold Shm.processRead
      dsimp only
      split_ifs <;> exact le_rfl
  | readPayload hpc => exact le_rfl
  | publishRead buffer hpc => simp [Shm.publishRead]
  | processSetMalleabilityMode mode hpc => exact le_rfl

/-! ## The manager -/

/-- The next copy of the manager. -/
inductive ManagerDerivation (s : State n) : State n → Prop where
  | readReady {args : WriteArgs} {entry : ManagerSegment × UInt32} {i ready : ℕ}
      (hpc : s.pc = .readReady args entry i ready) (hi : i < n) :
      ManagerDerivation s (allProcessesReadReady args entry ⟨i, hi⟩ ready s)
  | writePayload {args : WriteArgs} {entry : ManagerSegment × UInt32} {i ready : ℕ}
      (hpc : s.pc = .readReady args entry i ready) (hi : ¬ i < n) (hready : ready = n) :
      ManagerDerivation s (writePayload args entry s)
  | notReady {args : WriteArgs} {entry : ManagerSegment × UInt32} {i ready : ℕ}
      (hpc : s.pc = .readReady args entry i ready) (hi : ¬ i < n) (hready : ready ≠ n) :
      ManagerDerivation s (s.returnWrite args entry (-2))
  | writeControl {args : WriteArgs} {entry : ManagerSegment × UInt32}
      (hpc : s.pc = .writeControl args entry) :
      ManagerDerivation s (writeControl args entry s)
  | syncMeta {i metaUpdates : ℕ} (hpc : s.pc = .syncMeta i metaUpdates) (hi : i < n) :
      ManagerDerivation s (syncProcessesMeta ⟨i, hi⟩ metaUpdates s)
  | getMalleabilityMode {i metaUpdates : ℕ} {t : State n} (hpc : s.pc = .syncMeta i metaUpdates)
      (hi : ¬ i < n) (ht : getMalleabilityMode metaUpdates s = some t) : ManagerDerivation s t

theorem managerStep_derivation {s t : State n} (ht : managerStep s = some t) :
    ManagerDerivation s t := by
  unfold managerStep at ht
  cases hpc : s.pc with
  | idle => simp [hpc] at ht
  | readReady args entry i ready =>
      simp only [hpc] at ht
      split at ht
      · next hi =>
          obtain rfl := Option.some.inj ht
          exact .readReady hpc hi
      · next hi =>
          split at ht
          · next hready =>
              obtain rfl := Option.some.inj ht
              exact .writePayload hpc hi hready
          · next hready =>
              obtain rfl := Option.some.inj ht
              exact .notReady hpc hi hready
  | writeControl args entry =>
      simp only [hpc] at ht
      obtain rfl := Option.some.inj ht
      exact .writeControl hpc
  | syncMeta i metaUpdates =>
      simp only [hpc] at ht
      split at ht
      · next hi =>
          obtain rfl := Option.some.inj ht
          exact .syncMeta hpc hi
      · next hi => exact .getMalleabilityMode hpc hi ht

/-- The comparison of the copied modes finds the first one everywhere, or it fails. -/
theorem reportedMode_cases (firstMode : UInt32) (modes : List UInt32) :
    (reportedMode firstMode modes = ⟨0, firstMode, 0⟩ ∧ ∀ mode ∈ modes, mode = firstMode) ∨
      reportedMode firstMode modes = ⟨-1, 0, -2⟩ := by
  unfold reportedMode
  split
  · next hall => exact .inl ⟨rfl, by simpa using hall⟩
  · exact .inr rfl

/-- The manager publishes a new read count. -/
def State.countRead (s : State n) : State n :=
  let control := { s.managerControl with readCount := s.managerControl.readCount + 1 }
  { s with managerControl := control, segment := { s.segment with control := control } }

/-- A return of `dynpm_shm_manager_get_malleability_mode` changes the read count at most, and it
reports a mode only when every copied line carries it. -/
theorem getMalleabilityMode_cases {s t : State n} {metaUpdates : ℕ}
    (ht : getMalleabilityMode metaUpdates s = some t) :
    ∃ result,
      (t = { s with pc := .idle, modeResult := some result } ∨
        t = { s.countRead with pc := .idle, modeResult := some result }) ∧
      ((result.code = 0 ∧ ∀ i, (s.processControl i).malleabilityMode = result.mode) ∨
        (result.code ≠ 0 ∧ result.mode = 0)) := by
  unfold getMalleabilityMode at ht
  split at ht
  · split at ht
    · next hpos =>
        obtain rfl := Option.some.inj ht
        refine ⟨reportedMode (s.processControl ⟨0, hpos⟩).malleabilityMode
          (List.ofFn fun i => (s.processControl i).malleabilityMode), ?_, ?_⟩
        · by_cases hm : 0 < metaUpdates
          · refine .inr ?_
            simp only [hm, if_true, State.countRead]
          · refine .inl ?_
            simp only [hm, if_false]
        · rcases reportedMode_cases (s.processControl ⟨0, hpos⟩).malleabilityMode
            (List.ofFn fun i => (s.processControl i).malleabilityMode) with ⟨hr, hall⟩ | hr
          · rw [hr]
            exact .inl ⟨rfl, fun i => hall _ (List.mem_ofFn.mpr ⟨i, rfl⟩)⟩
          · rw [hr]
            exact .inr ⟨by decide, rfl⟩
    · cases ht
  · obtain rfl := Option.some.inj ht
    exact ⟨⟨-1, 0, -1⟩, .inl rfl, .inr ⟨by decide, rfl⟩⟩

/-- The call of a write refuses its payload or begins to look at the processes. -/
theorem managerWrite_cases (args : WriteArgs) (s : State n) :
    (∃ code, code ≠ 0 ∧ managerWrite args s = s.returnWrite args s.published code) ∨
      (∃ bytes, args.payload = some bytes) ∧
        (0 < args.payloadBytes ∧ args.payloadBytes.toUInt32 < s.managerControl.payloadMax) ∧
        managerWrite args s = { s with pc := .readReady args s.published 0 0 } := by
  unfold managerWrite
  cases args.payload with
  | none => exact Or.inl ⟨-1, by decide, rfl⟩
  | some bytes =>
      dsimp only
      split
      · next hsize => exact Or.inr ⟨⟨bytes, rfl⟩, hsize, rfl⟩
      · exact Or.inl ⟨-3, by decide, rfl⟩

/-! ## All steps -/

/-- A step of the manager or of a process. -/
inductive StepDerivation (s : State n) : Action n → State n → Prop where
  | managerWrite (args : WriteArgs) (hpc : s.pc = .idle) :
      StepDerivation s (.managerWrite args) (managerWrite args s)
  | managerGetMalleabilityMode (hpc : s.pc = .idle) :
      StepDerivation s .managerGetMalleabilityMode { s with pc := .syncMeta 0 0 }
  | manager {t : State n} (ht : managerStep s = some t) : StepDerivation s .manager t
  | process {a : Action n} {i : Fin n} {p : Process} {base : ProcessControl}
      (hp : ProcessDerivation s i a p base) : StepDerivation s a (s.moveProcess i p base)

theorem step_derivation {s t : State n} {a : Action n} (ht : step s a = some t) :
    StepDerivation s a t := by
  cases a with
  | managerWrite args =>
      cases hpc : s.pc with
      | idle =>
          obtain rfl : managerWrite args s = t := by simpa [step, hpc] using ht
          exact .managerWrite args hpc
      | _ => simp [step, hpc] at ht
  | managerGetMalleabilityMode =>
      cases hpc : s.pc with
      | idle =>
          obtain rfl : { s with pc := .syncMeta 0 0 } = t := by simpa [step, hpc] using ht
          exact .managerGetMalleabilityMode hpc
      | _ => simp [step, hpc] at ht
  | manager => exact .manager ht
  | processAttach i mapped =>
      obtain ⟨hpc, ht⟩ := Option.ite_none_right_eq_some.mp ht
      rw [← Option.some.inj ht, setProcess_eq_moveProcess]
      exact .process (.processAttach mapped hpc)
  | attachOwn i mapped =>
      obtain ⟨hpc, ht⟩ := Option.ite_none_right_eq_some.mp ht
      rw [← Option.some.inj ht, setProcess_eq_moveProcess]
      exact .process (.attachOwn mapped hpc)
  | processRead i =>
      obtain ⟨hpc, ht⟩ := Option.ite_none_right_eq_some.mp ht
      rw [← Option.some.inj ht, setProcess_eq_moveProcess]
      exact .process (.processRead hpc)
  | readPayload i =>
      obtain ⟨hpc, ht⟩ := Option.ite_none_right_eq_some.mp ht
      rw [← Option.some.inj ht, setProcess_eq_moveProcess]
      exact .process (.readPayload hpc)
  | publishRead i =>
      cases hpc : (s.process i).pc with
      | publishRead buffer =>
          obtain rfl : s.publishLine i (publishRead buffer (s.process i)) = t := by
            simpa [step, hpc] using ht
          exact .process (.publishRead buffer hpc)
      | _ => simp [step, hpc] at ht
  | processSetMalleabilityMode i mode =>
      obtain ⟨hpc, ht⟩ := Option.ite_none_right_eq_some.mp ht
      rw [← Option.some.inj ht]
      exact .process (.processSetMalleabilityMode mode hpc)

end Dynpm.Shm
