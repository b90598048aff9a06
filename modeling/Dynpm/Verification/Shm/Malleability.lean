import Dynpm.Verification.Shm.Broadcast

/-! # Malleability modes over shared memory

Each process publishes its mode in its own control line, and the manager reports a mode when
the lines it has copied agree. The first part shows that such a report is unanimous in every
interleaving of the copies; the second part is about the counters by which the manager is to
notice that the modes are new.
-/

namespace Dynpm.Shm

open Library

variable {n : ℕ}

/-! ## A reported mode is unanimous -/

/-- What an observer notes about the modes: the one each process published last (none before
its first), the ones that were the last when the manager copied the lines in its current call,
and the result of every call with the modes noted during it. -/
structure ModeLog (n : ℕ) where
  recent : Fin n → Option UInt32
  copied : Fin n → Option (Option UInt32)
  reports : List (ModeResult × (Fin n → Option (Option UInt32)))

def ModeLog.start : ModeLog n := ⟨fun _ => none, fun _ => none, []⟩

/-- A process publishes, the manager enters `dynpm_shm_manager_get_malleability_mode`, copies
one line in it, or returns from it. -/
def ModeLog.record (log : ModeLog n) (s : State n) (a : Action n) (t : State n) : ModeLog n :=
  match a with
  | .processSetMalleabilityMode i mode =>
      { log with recent := Function.update log.recent i (some mode) }
  | .managerGetMalleabilityMode => { log with copied := fun _ => none }
  | .manager =>
      match s.pc with
      | .syncMeta i _ =>
          if h : i < n then
            { log with
              copied := Function.update log.copied ⟨i, h⟩ (some (log.recent ⟨i, h⟩)) }
          else
            { log with
              reports := log.reports ++ t.modeResult.toList.map fun r => (r, log.copied) }
      | _ => log
  | _ => log

/-- Manager and processes beside the observer of their modes. -/
def observedModes (n : ℕ) : System (State n × ModeLog n) (Action n) :=
  (system n).observed ModeLog.start ModeLog.record

/-- A call that returns zero has found its mode to be the last one of every process when it
copied the line of that process; any other call has disabled malleability. -/
def Unanimous (report : ModeResult × (Fin n → Option (Option UInt32))) : Prop :=
  (report.1.code = 0 → ∀ i, report.2 i = some (some report.1.mode) ∨
    (report.1.mode = 0 ∧ report.2 i = some none)) ∧
  (report.1.code ≠ 0 → report.1.mode = 0)

/-- The process may call the operations on an attached segment. -/
def ProcessPc.Attached (pc : ProcessPc) : Prop :=
  pc ≠ .detached ∧ pc ≠ .attaching ∧ pc ≠ .failed

/-- The lines carry the last modes, and the copies of a call under way carry the modes that
were the last when they were made. -/
structure ModeInv (s : State n) (log : ModeLog n) : Prop where
  shared : ∀ i, (s.processBase i).malleabilityMode = (log.recent i).getD 0
  own : ∀ i, (s.process i).pc.Attached →
    (s.process i).processControl.malleabilityMode = (log.recent i).getD 0
  copied : ∀ k metaUpdates, s.pc = .syncMeta k metaUpdates → ∀ i : Fin n, i < k →
    ∃ mode, log.copied i = some mode ∧ (s.processControl i).malleabilityMode = mode.getD 0
  reported : ∀ report ∈ log.reports, Unanimous report

theorem modeInv_managerInit (args : InitArgs n) (area : List UInt8)
    (memory : Fin n → ManagerControl × ProcessControl) :
    ModeInv (managerInit args area memory) ModeLog.start where
  shared _ := rfl
  own i h := absurd rfl h.1
  copied := by simp [managerInit]
  reported := by simp [ModeLog.start]

namespace ModeInv

variable {s t : State n} {log : ModeLog n}

/-- Process `i` moves, its last mode being `mode` afterwards. -/
theorem moveProcess (h : ModeInv s log) (i : Fin n) {p : Process} {base : ProcessControl}
    (mode : Option UInt32) (hbase : base.malleabilityMode = mode.getD 0)
    (hown : p.pc.Attached → p.processControl.malleabilityMode = mode.getD 0) :
    ModeInv (s.moveProcess i p base)
      { log with recent := Function.update log.recent i mode } := by
  refine ⟨?_, ?_, h.copied, h.reported⟩
  · intro j
    by_cases hji : j = i
    · subst j
      simpa using hbase
    · simpa [hji] using h.shared j
  · intro j
    by_cases hji : j = i
    · subst j
      simpa using hown
    · simpa [hji] using h.own j

/-- A step of a process that publishes no mode. -/
theorem keepMode (h : ModeInv s log) (i : Fin n) {p : Process} {base : ProcessControl}
    (hbase : base.malleabilityMode = (s.processBase i).malleabilityMode)
    (hown : p.pc.Attached → p.processControl.malleabilityMode = (log.recent i).getD 0) :
    ModeInv (s.moveProcess i p base) log := by
  have hmove := h.moveProcess i (log.recent i) (hbase.trans (h.shared i)) hown
  rwa [Function.update_eq_self] at hmove

/-- A step of the manager outside `dynpm_shm_manager_get_malleability_mode`. -/
theorem manager (h : ModeInv s log) (hprocess : t.process = s.process)
    (hbase : t.processBase = s.processBase) (hpc : ∀ k m, t.pc ≠ .syncMeta k m) :
    ModeInv t log := by
  refine ⟨?_, ?_, fun k m hk => absurd hk (hpc k m), h.reported⟩
  · rw [hbase]
    exact h.shared
  · rw [hprocess]
    exact h.own

/-- The manager copies line `i` in `_sync_processes_meta`. -/
theorem syncProcessesMeta (h : ModeInv s log) {i : Fin n} {metaUpdates : ℕ}
    (hpc : s.pc = .syncMeta i metaUpdates) :
    ModeInv (syncProcessesMeta i metaUpdates s)
      { log with copied := Function.update log.copied i (some (log.recent i)) } := by
  refine ⟨h.shared, h.own, ?_, h.reported⟩
  intro k m hk j hj
  obtain ⟨rfl, -⟩ : i.val + 1 = k ∧ _ := by simpa [Shm.syncProcessesMeta] using hk
  by_cases hji : j = i
  · subst j
    refine ⟨log.recent i, by simp, ?_⟩
    simpa [Shm.syncProcessesMeta] using h.shared i
  · have hlt : j < i := lt_of_le_of_ne (Nat.lt_succ_iff.mp hj) hji
    simpa [Shm.syncProcessesMeta, hji] using h.copied i metaUpdates hpc j hlt

/-- The manager returns from `dynpm_shm_manager_get_malleability_mode`. -/
theorem getMalleabilityMode (h : ModeInv s log) {k metaUpdates : ℕ}
    (hpc : s.pc = .syncMeta k metaUpdates) (hk : ¬ k < n)
    (ht : getMalleabilityMode metaUpdates s = some t) :
    ModeInv t { log with
      reports := log.reports ++ t.modeResult.toList.map fun r => (r, log.copied) } := by
  obtain ⟨result, hreturned, hmode⟩ := getMalleabilityMode_cases ht
  obtain ⟨hidle, hprocess, hbase, hresult⟩ : t.pc = .idle ∧ t.process = s.process ∧
      t.processBase = s.processBase ∧ t.modeResult = some result := by
    rcases hreturned with rfl | rfl
    · exact ⟨rfl, rfl, rfl, rfl⟩
    · exact ⟨rfl, rfl, rfl, rfl⟩
  have hkeep : ModeInv t log := h.manager hprocess hbase (by simp [hidle])
  refine ⟨hkeep.shared, hkeep.own, by simp [hidle], ?_⟩
  intro report hreport
  rcases List.mem_append.mp hreport with hreport | hreport
  · exact h.reported report hreport
  · obtain rfl : (result, log.copied) = report := by
      simpa [hresult, eq_comm] using hreport
    rcases hmode with ⟨hcode, hall⟩ | ⟨hcode, hzero⟩
    · refine ⟨fun _ i => ?_, fun hne => absurd hcode hne⟩
      obtain ⟨mode, hcopied, hline⟩ := h.copied k metaUpdates hpc i (by omega)
      have hvalue : mode.getD 0 = result.mode := hline.symm.trans (hall i)
      cases mode with
      | none => exact .inr ⟨hvalue.symm, hcopied⟩
      | some mode =>
          obtain rfl : mode = result.mode := hvalue
          exact .inl hcopied
    · exact ⟨fun hzero' => absurd hzero' hcode, fun _ => hzero⟩

theorem managerStep (h : ModeInv s log) (ht : managerStep s = some t) :
    ModeInv t (log.record s .manager t) := by
  cases managerStep_derivation ht with
  | readReady hpc hi =>
      simp only [ModeLog.record, hpc]
      exact h.manager rfl rfl (by simp [Shm.allProcessesReadReady])
  | writePayload hpc hi hready =>
      simp only [ModeLog.record, hpc]
      exact h.manager rfl rfl (by simp [Shm.writePayload])
  | notReady hpc hi hready =>
      simp only [ModeLog.record, hpc]
      exact h.manager rfl rfl (by simp [State.returnWrite])
  | writeControl hpc =>
      simp only [ModeLog.record, hpc]
      exact h.manager rfl rfl (by simp [Shm.writeControl, State.returnWrite])
  | @syncMeta i metaUpdates hpc hi =>
      simp only [ModeLog.record, hpc]
      rw [dif_pos hi]
      exact h.syncProcessesMeta (i := ⟨i, hi⟩) hpc
  | getMalleabilityMode hpc hi ht =>
      simp only [ModeLog.record, hpc]
      rw [dif_neg hi]
      exact h.getMalleabilityMode hpc hi ht

theorem managerWrite (h : ModeInv s log) (args : WriteArgs) :
    ModeInv (managerWrite args s) log := by
  rcases managerWrite_cases args s with ⟨code, -, heq⟩ | ⟨-, -, heq⟩
  · rw [heq]
    exact h.manager rfl rfl (by simp [State.returnWrite])
  · rw [heq]
    exact h.manager rfl rfl (by simp)

theorem processStep {a : Action n} {i : Fin n} {p : Process} {base : ProcessControl}
    (h : ModeInv s log) (hp : ProcessDerivation s i a p base) :
    ModeInv (s.moveProcess i p base) (log.record s a (s.moveProcess i p base)) := by
  cases hp with
  | processAttach mapped hpc =>
      refine h.keepMode i rfl ?_
      cases mapped <;> simp [processAttach, ProcessPc.Attached]
  | attachOwn mapped hpc =>
      refine h.keepMode i rfl ?_
      cases mapped with
      | false => simp [attachOwn, ProcessPc.Attached]
      | true => exact fun _ => h.shared i
  | processRead hpc =>
      refine h.keepMode i rfl ?_
      have hown := h.own i (by simp [hpc, ProcessPc.Attached])
      unfold processRead
      dsimp only
      split_ifs <;> exact fun _ => hown
  | readPayload hpc =>
      exact h.keepMode i rfl fun _ => h.own i (by simp [hpc, ProcessPc.Attached])
  | publishRead buffer hpc =>
      have hown := h.own i (by simp [hpc, ProcessPc.Attached])
      exact h.keepMode i (hown.trans (h.shared i).symm) fun _ => hown
  | processSetMalleabilityMode mode hpc => exact h.moveProcess i (some mode) rfl fun _ => rfl

theorem step {a : Action n} (h : ModeInv s log) (ht : step s a = some t) :
    ModeInv t (log.record s a t) := by
  cases step_derivation ht with
  | managerWrite args hpc => exact h.managerWrite args
  | managerGetMalleabilityMode hpc =>
      refine ⟨h.shared, h.own, ?_, h.reported⟩
      intro k m hk i hi
      obtain ⟨rfl, -⟩ : 0 = k ∧ 0 = m := by simpa using hk
      exact absurd hi (Nat.not_lt_zero _)
  | manager ht => exact h.managerStep ht
  | process hp => exact h.processStep hp

end ModeInv

theorem modeInv_of_reachable {p : State n × ModeLog n} (h : (observedModes n).Reachable p) :
    ModeInv p.1 p.2 := by
  refine h.observed_invariant ?_ ?_
  · rintro s ⟨args, area, memory, rfl⟩
    exact modeInv_managerInit args area memory
  · intro s log a t hinv ht
    exact hinv.step ht

/-- In every interleaving of the copies, a call that returns zero reports a mode that was the
last one of every process when the manager copied its line in that call (or none had been
published and the mode is zero), and a call that returns an error sets the mode to zero. -/
theorem reported_mode_unanimous {p : State n × ModeLog n} (h : (observedModes n).Reachable p) :
    ∀ report ∈ p.2.reports, Unanimous report :=
  (modeInv_of_reachable h).reported

/-- A manager with two processes. -/
def pairInit : State 2 :=
  managerInit ⟨1, 0, 1, 1, fun i => if i = Fin.last 1 then 43 else 42, 41⟩ []
    fun _ => (default, default)

def firstProcess : Fin 2 := (Fin.last 0).castSucc

def secondProcess : Fin 2 := Fin.last 1

/-- The second process changes its mode between the copies of the two lines, and the manager
asks again. -/
def changingModes : List (Action 2) :=
  [.processAttach firstProcess true, .attachOwn firstProcess true,
    .processAttach secondProcess true, .attachOwn secondProcess true,
    .processSetMalleabilityMode firstProcess 3, .processSetMalleabilityMode secondProcess 5,
    .managerGetMalleabilityMode, .manager, .manager, .manager,
    .managerGetMalleabilityMode, .manager, .processSetMalleabilityMode secondProcess 3,
    .manager, .manager]

theorem changingModes_unanimous :
    ∃ p : State 2 × ModeLog 2,
      (observedModes 2).run (pairInit, ModeLog.start) changingModes = some p ∧
      p.2.reports.map Prod.fst = [⟨-1, 0, -2⟩, ⟨0, 3, 0⟩] ∧
      ∀ report ∈ p.2.reports, Unanimous report := by
  have hstart : (observedModes 2).Reachable (pairInit, ModeLog.start) :=
    .initial ⟨⟨_, _, _, rfl⟩, rfl⟩
  refine ⟨_, rfl, rfl, ?_⟩
  have hrun : (observedModes 2).run (pairInit, ModeLog.start) changingModes = some _ := rfl
  exact reported_mode_unanimous (hstart.run hrun)

/-! ## Rounds of malleability modes

Here a call is taken as one step, so that each call is a run of the copies above that no other
call interrupts.
-/

inductive Call (n : ℕ) where
  | setMalleabilityMode (i : Fin n) (mode : UInt32)
  | getMalleabilityMode

/-- The channel between two calls, with the processes that have published an update the
manager has not consumed. -/
structure Rounds (n : ℕ) where
  state : State n
  pending : Fin n → Bool

/-- The copies of one call without interruption. -/
def Call.actions : Call n → List (Action n)
  | .setMalleabilityMode i mode => [.processSetMalleabilityMode i mode]
  | .getMalleabilityMode => .managerGetMalleabilityMode :: List.replicate (n + 1) .manager

/-- The manager's read count. -/
def State.readCount (s : State n) : UInt32 := s.managerControl.readCount

/-- A process publishes only when the manager has consumed its previous update; the manager
consumes the updates by advancing its read count. -/
def Rounds.call (r : Rounds n) (c : Call n) : Option (Rounds n) :=
  match c with
  | .setMalleabilityMode i _ =>
      if r.pending i then none
      else ((system n).run r.state c.actions).map fun t =>
        ⟨t, Function.update r.pending i true⟩
  | .getMalleabilityMode =>
      ((system n).run r.state c.actions).map fun t =>
        ⟨t, if t.readCount = r.state.readCount then r.pending else fun _ => false⟩

/-- The manager has been initialised and every process has attached. -/
def attached (args : InitArgs n) (area : List UInt8) : State n :=
  { managerInit args area fun i => (initManagerShm args, initProcessShm args i) with
    process := fun i => ⟨.idle, initManagerShm args, initProcessShm args i, [], false⟩ }

def rounds (n : ℕ) : System (Rounds n) (Call n) where
  initial r := ∃ args area, r = ⟨attached args area, fun _ => false⟩
  step := Rounds.call

/-- Every process is in the manager's round or one update ahead of it. -/
def Rounds.Counted (r : Rounds n) : Prop :=
  ∀ i, (r.state.processBase i).writeCount = r.state.readCount ∨
    (r.state.processBase i).writeCount = r.state.readCount + 1

/-- A call of `dynpm_shm_manager_get_malleability_mode` follows the rounds: it asks to be
repeated exactly when some but not all processes have an update for the manager, it enters and
publishes the next round when all have, and it stays in its round when none has. -/
def Rounds.Tracked (r : Rounds n) : Call n → Prop
  | .setMalleabilityMode _ _ => True
  | .getMalleabilityMode => ∀ t, r.call .getMalleabilityMode = some t →
      ((t.state.modeResult = some ⟨-1, 0, -1⟩ ∧ t.state.readCount = r.state.readCount) ↔
        ((∃ i, r.pending i) ∧ ¬ ∀ i, r.pending i)) ∧
      ((∀ i, r.pending i) → t.state.readCount = r.state.readCount + 1 ∧
        t.state.segment.control.readCount = t.state.readCount ∧
        ∀ i, (t.state.processBase i).writeCount = t.state.readCount) ∧
      ((∀ i, ¬ r.pending i) → t.state.readCount = r.state.readCount)

/-- The manager asks for the mode only when it has consumed every update. -/
def Rounds.NothingPending (r : Rounds n) : Call n → Prop
  | .setMalleabilityMode _ _ => True
  | .getMalleabilityMode => ∀ i, ¬ r.pending i

/-- The comparison in `_sync_processes_meta` is with the round before the manager's, where no
process is in the first round. -/
structure RoundsInv (r : Rounds n) : Prop where
  idle : r.state.pc = .idle
  attached : ∀ i, (r.state.process i).pc = .idle
  line : ∀ i, (r.state.process i).processControl = r.state.processBase i
  first : r.state.readCount = 0
  count : ∀ i, (r.state.processBase i).writeCount = if r.pending i then 1 else 0

theorem roundsInv_attached (args : InitArgs n) (area : List UInt8) :
    RoundsInv ⟨attached args area, fun _ => false⟩ where
  idle := rfl
  attached _ := rfl
  line _ := rfl
  first := rfl
  count _ := rfl

/-- The loop of `_sync_processes_meta` from line `i` on, when no line is in the round before
the manager's. -/
theorem run_syncMeta {s t : State n} {i k : ℕ} (hpc : s.pc = .syncMeta i 0) (hk : i + k = n)
    (hbehind : ∀ j, (s.processBase j).writeCount ≠ s.readCount - 1)
    (ht : (system n).run s (List.replicate (k + 1) .manager) = some t) :
    ∃ copies pc, getMalleabilityMode 0 { s with processControl := copies, pc := pc } = some t := by
  induction k generalizing s i with
  | zero =>
      obtain rfl : i = n := hk
      have hstep : managerStep s = getMalleabilityMode 0 s := by simp [managerStep, hpc]
      refine ⟨s.processControl, s.pc, ?_⟩
      rw [← hstep]
      simpa [System.run, system, step] using ht
  | succ k ih =>
      have hi : i < n := by omega
      have hstep : managerStep s = some (syncProcessesMeta ⟨i, hi⟩ 0 s) := by
        simp [managerStep, hpc, hi]
      have hnext : (syncProcessesMeta ⟨i, hi⟩ 0 s).pc = .syncMeta (i + 1) 0 := by
        have := hbehind ⟨i, hi⟩
        simp_all [syncProcessesMeta, State.readCount]
      rw [List.replicate_succ, System.run] at ht
      change (managerStep s).bind _ = some t at ht
      rw [hstep, Option.bind_some] at ht
      exact ih (s := syncProcessesMeta ⟨i, hi⟩ 0 s) hnext (by omega) hbehind ht

/-- A call of `dynpm_shm_manager_get_malleability_mode` that finds no line in the round before
its own keeps its round, and it reports that the processes are in sync. -/
theorem run_getMalleabilityMode {s t : State n} (hidle : s.pc = .idle)
    (hbehind : ∀ j, (s.processBase j).writeCount ≠ s.readCount - 1)
    (ht : (system n).run s (Call.getMalleabilityMode (n := n)).actions = some t) :
    0 < n ∧ t.pc = .idle ∧ t.readCount = s.readCount ∧ t.process = s.process ∧
      t.processBase = s.processBase ∧
      ∃ result, t.modeResult = some result ∧ result.status ≠ -1 := by
  have hstep : step s .managerGetMalleabilityMode = some { s with pc := .syncMeta 0 0 } := by
    simp [step, hidle]
  rw [Call.actions, System.run] at ht
  change (step s .managerGetMalleabilityMode).bind _ = some t at ht
  rw [hstep, Option.bind_some] at ht
  obtain ⟨copies, pc, hget⟩ :=
    run_syncMeta (s := { s with pc := .syncMeta 0 0 }) rfl (Nat.zero_add n) hbehind ht
  by_cases hpos : 0 < n
  · simp only [getMalleabilityMode, or_true, if_true, hpos, dif_pos, lt_irrefl, if_false] at hget
    obtain rfl := Option.some.inj hget
    refine ⟨hpos, rfl, rfl, rfl, rfl, _, rfl, ?_⟩
    rcases reportedMode_cases (copies ⟨0, hpos⟩).malleabilityMode
        (List.ofFn fun i => (copies i).malleabilityMode) with ⟨hr, -⟩ | hr
    · rw [hr]
      simp
    · rw [hr]
      simp
  · simp [getMalleabilityMode, hpos] at hget

namespace RoundsInv

variable {r r' : Rounds n}

theorem counted (h : RoundsInv r) : r.Counted := by
  intro i
  rw [h.count i, h.first]
  cases r.pending i with
  | false => exact .inl rfl
  | true => exact .inr rfl

/-- In the first round no line is in the round before. -/
theorem not_behind (h : RoundsInv r) (i : Fin n) :
    (r.state.processBase i).writeCount ≠ r.state.readCount - 1 := by
  rw [h.count i, h.first]
  cases r.pending i <;> decide

theorem call (h : RoundsInv r) {c : Call n} (hc : r.call c = some r') : RoundsInv r' := by
  cases c with
  | setMalleabilityMode i mode =>
      rw [Rounds.call, Option.ite_none_left_eq_some] at hc
      obtain ⟨hfree, hc⟩ := hc
      obtain ⟨t, ht, rfl⟩ := Option.map_eq_some_iff.mp hc
      have hidle := h.attached i
      obtain rfl : r.state.publishLine i
          { r.state.process i with processControl := modeLine mode (r.state.process i) } = t := by
        simpa [Call.actions, System.run, system, step, hidle] using ht
      refine ⟨h.idle, ?_, ?_, h.first, ?_⟩
      · intro j
        by_cases hji : j = i
        · subst j
          simpa [publishLine_eq_moveProcess] using hidle
        · simpa [publishLine_eq_moveProcess, hji] using h.attached j
      · intro j
        by_cases hji : j = i
        · subst j
          simp [publishLine_eq_moveProcess]
        · simpa [publishLine_eq_moveProcess, hji] using h.line j
      · intro j
        by_cases hji : j = i
        · subst j
          have hcount := h.count i
          rw [if_neg hfree] at hcount
          simp [publishLine_eq_moveProcess, modeLine, h.line i, hcount]
        · simpa [publishLine_eq_moveProcess, hji] using h.count j
  | getMalleabilityMode =>
      obtain ⟨t, ht, rfl⟩ := Option.map_eq_some_iff.mp hc
      obtain ⟨-, hidle, hround, hprocess, hbase, -⟩ :=
        run_getMalleabilityMode h.idle h.not_behind ht
      refine ⟨hidle, ?_, ?_, hround.trans h.first, ?_⟩
      · rw [hprocess]
        exact h.attached
      · rw [hprocess, hbase]
        exact h.line
      · rw [hbase, if_pos hround]
        exact h.count

/-- A call in the first round follows the rounds exactly when there is nothing to consume. -/
theorem tracked_iff (h : RoundsInv r) {c : Call n} (hc : r.call c = some r') :
    r.Tracked c ↔ r.NothingPending c := by
  cases c with
  | setMalleabilityMode i mode => exact Iff.rfl
  | getMalleabilityMode =>
      obtain ⟨t, ht, rfl⟩ := Option.map_eq_some_iff.mp hc
      obtain ⟨hpos, -, hround, -, -, result, hresult, hstatus⟩ :=
        run_getMalleabilityMode h.idle h.not_behind ht
      have hnone : t.modeResult ≠ some ⟨-1, 0, -1⟩ := by
        intro he
        rw [hresult] at he
        exact hstatus (by rw [Option.some.inj he])
      constructor
      · intro htracked i hi
        obtain ⟨hrepeat, hall, -⟩ := htracked _ hc
        by_cases hevery : ∀ j, r.pending j
        · have hnext := (hall hevery).1
          rw [hround] at hnext
          exact absurd hnext (by simp)
        · exact hnone (hrepeat.mpr ⟨⟨i, hi⟩, hevery⟩).1
      · intro hnothing u hu
        obtain rfl := Option.some.inj (hc.symm.trans hu)
        refine ⟨⟨fun hr => absurd hr.1 hnone, ?_⟩, ?_, fun _ => hround⟩
        · rintro ⟨⟨i, hi⟩, -⟩
          exact absurd hi (hnothing i)
        · intro hevery
          exact absurd (hevery ⟨0, hpos⟩) (hnothing ⟨0, hpos⟩)

end RoundsInv

/-- The counters follow the rounds of a run, and every call for the mode does, if and only if
the manager never asks for the mode while there is an update for it: the comparison in
`_sync_processes_meta` looks for a process behind the manager, which there never is. -/
theorem rounds_tracked_iff (args : InitArgs n) (area : List UInt8) (calls : List (Call n)) :
    ((rounds n).Throughout Rounds.Counted ⟨attached args area, fun _ => false⟩ calls ∧
      (rounds n).Respecting Rounds.Tracked ⟨attached args area, fun _ => false⟩ calls) ↔
    (rounds n).Respecting Rounds.NothingPending ⟨attached args area, fun _ => false⟩ calls := by
  have hstart := roundsInv_attached args area
  have hcounted : (rounds n).Throughout Rounds.Counted ⟨attached args area, fun _ => false⟩ calls :=
    System.throughout_of_invariant (I := RoundsInv) (fun r h => h.counted)
      (fun r c r' h hc => h.call hc) hstart calls
  rw [and_iff_right hcounted]
  exact System.respecting_congr (fun r c r' h hc => h.call hc)
    (fun r c r' h hc => h.tracked_iff hc) hstart calls

/-- The only process publishes a mode, which the manager is to consume with its next call. -/
def publishedUpdate : List (Call 1) := [.setMalleabilityMode (Fin.last 0) 1, .getMalleabilityMode]

theorem publishedUpdate_not_tracked :
    ¬ ((rounds 1).Throughout Rounds.Counted
          ⟨attached ⟨1, 0, 1, 1, fun _ => 42, 41⟩ [], fun _ => false⟩ publishedUpdate ∧
      (rounds 1).Respecting Rounds.Tracked
          ⟨attached ⟨1, 0, 1, 1, fun _ => 42, 41⟩ [], fun _ => false⟩ publishedUpdate) := by
  rintro ⟨-, h⟩
  obtain ⟨-, h⟩ := h _ rfl
  obtain ⟨htracked, -⟩ := h _ rfl
  obtain ⟨-, hall, -⟩ := htracked _ rfl
  have hpending : ∀ i : Fin 1, Function.update (fun _ => false) (Fin.last 0) true i = true := by
    decide
  exact absurd (hall hpending).1 (by decide)

end Dynpm.Shm
