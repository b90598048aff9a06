import Dynpm.Verification.Shm.Capacity
import Dynpm.Library.Termination

/-! # Progress of the channel

No call waits for another participant: a call that is under way can always take its next copy, and
the number of its copies is bounded. A process that reads keeps up with the manager, and once every
process has read, the next write of a payload that fits is not refused.
-/

namespace Dynpm.Shm

open Library

variable {n : ℕ}

/-! ## Calls that are under way -/

/-- The copies that a call of the manager has left at most. -/
def ManagerPc.copiesLeft (n : ℕ) : ManagerPc → ℕ
  | .idle => 0
  | .readReady _ _ i _ => n - i + 2
  | .writeControl _ _ => 1
  | .syncMeta i _ => n - i + 1

/-- The copies that a call of a process has left at most. -/
def ProcessPc.copiesLeft : ProcessPc → ℕ
  | .detached => 0
  | .attaching => 1
  | .failed => 0
  | .idle => 0
  | .readPayload => 2
  | .publishRead _ => 1

/-- A call of `dynpm_shm_manager_write` or `dynpm_shm_manager_get_malleability_mode`. -/
def Action.isManagerCall : Action n → Bool
  | .managerWrite _ => true
  | .managerGetMalleabilityMode => true
  | _ => false

/-- A call of `dynpm_shm_process_attach` or `dynpm_shm_process_read` by process `i`. The third
operation of a process ends with its only copy. -/
def Action.isCallOf (i : Fin n) : Action n → Bool
  | .processAttach j _ => j = i
  | .processRead j => j = i
  | _ => false

/-- A later copy of a call of process `i`. -/
def Action.isCopyOf (i : Fin n) : Action n → Bool
  | .attachOwn j _ => j = i
  | .readPayload j => j = i
  | .publishRead j => j = i
  | _ => false

/-! ### The manager -/

/-- A copy of the manager takes one from what is left. -/
theorem copiesLeft_managerStep {s t : State n} (ht : managerStep s = some t) :
    t.pc.copiesLeft n + 1 ≤ s.pc.copiesLeft n := by
  cases managerStep_derivation ht with
  | @readReady args entry i ready hpc hi =>
      simp only [hpc, allProcessesReadReady, ManagerPc.copiesLeft]
      omega
  | writePayload hpc hi hready =>
      simp only [hpc, writePayload, ManagerPc.copiesLeft]
      omega
  | notReady hpc hi hready =>
      simp only [hpc, State.returnWrite, ManagerPc.copiesLeft]
      omega
  | writeControl hpc =>
      simp only [hpc, writeControl, State.returnWrite, ManagerPc.copiesLeft]
      omega
  | @syncMeta i metaUpdates hpc hi =>
      simp only [hpc, syncProcessesMeta, ManagerPc.copiesLeft]
      omega
  | getMalleabilityMode hpc hi ht =>
      obtain ⟨result, rfl | rfl, -⟩ := getMalleabilityMode_cases ht
      · simp only [hpc, ManagerPc.copiesLeft]
        omega
      · simp only [hpc, ManagerPc.copiesLeft]
        omega

theorem copiesLeft_managerWrite (args : WriteArgs) (s : State n) :
    (managerWrite args s).pc.copiesLeft n ≤ n + 2 := by
  rcases managerWrite_cases args s with ⟨code, -, heq⟩ | ⟨-, -, heq⟩
  · rw [heq]
    exact Nat.zero_le _
  · rw [heq]
    exact le_rfl

/-- A call of the manager brings `n + 2` copies at most, and a copy takes one of them. -/
theorem copiesLeft_step {s t : State n} {a : Action n} (ht : step s a = some t) :
    t.pc.copiesLeft n + (if a.isCopy then 1 else 0) ≤
      s.pc.copiesLeft n + if a.isManagerCall then n + 2 else 0 := by
  cases step_derivation ht with
  | managerWrite args hpc =>
      have hleft := copiesLeft_managerWrite args s
      simp only [Action.isCopy, Action.isManagerCall, if_true, Bool.false_eq_true, if_false]
      omega
  | managerGetMalleabilityMode hpc =>
      simp only [Action.isCopy, Action.isManagerCall, if_true, Bool.false_eq_true, if_false,
        ManagerPc.copiesLeft]
      omega
  | manager ht => exact copiesLeft_managerStep ht
  | process hp =>
      have hcopy : a.isCopy = false := by cases hp <;> rfl
      have hcall : a.isManagerCall = false := by cases hp <;> rfl
      rw [hcopy, hcall]
      exact le_rfl

/-- A call of the manager that is under way can take its next copy. Only without any process does
`dynpm_shm_manager_get_malleability_mode` have none. -/
theorem managerStep_isSome (hn : 0 < n) {s : State n} (hpc : s.pc ≠ .idle) :
    (managerStep s).isSome := by
  unfold managerStep
  cases h : s.pc with
  | idle => exact absurd h hpc
  | readReady args entry i ready =>
      dsimp only
      split_ifs <;> rfl
  | writeControl args entry => rfl
  | syncMeta i metaUpdates =>
      dsimp only
      split
      · rfl
      · rw [getMalleabilityMode, dif_pos hn]
        split_ifs <;> rfl

/-! ### The processes -/

/-- A read that finds a payload has two more copies to take. -/
theorem copiesLeft_processRead (segment : ManagerSegment) (p : Process) (hpc : p.pc = .idle) :
    (processRead segment p).pc.copiesLeft ≤ 2 := by
  unfold processRead
  dsimp only
  split_ifs
  · simp only [hpc, ProcessPc.copiesLeft, Nat.zero_le]
  · exact le_rfl
  · simp only [hpc, ProcessPc.copiesLeft, Nat.zero_le]

/-- What a step of a process does to the copies that its call has left. -/
theorem ProcessDerivation.copiesLeft {s : State n} {i : Fin n} {a : Action n} {p : Process}
    {base : ProcessControl} (h : ProcessDerivation s i a p base) :
    p.pc.copiesLeft + (if a.isCopyOf i then 1 else 0) ≤
      (s.process i).pc.copiesLeft + if a.isCallOf i then 2 else 0 := by
  cases h with
  | processAttach mapped hpc =>
      cases mapped with
      | false => simp [Shm.processAttach, Action.isCopyOf, Action.isCallOf, ProcessPc.copiesLeft]
      | true => simp [Shm.processAttach, Action.isCopyOf, Action.isCallOf, ProcessPc.copiesLeft]
  | attachOwn mapped hpc =>
      cases mapped with
      | false => simp [Shm.attachOwn, hpc, Action.isCopyOf, Action.isCallOf, ProcessPc.copiesLeft]
      | true => simp [Shm.attachOwn, hpc, Action.isCopyOf, Action.isCallOf, ProcessPc.copiesLeft]
  | processRead hpc =>
      have hleft := copiesLeft_processRead s.segment (s.process i) hpc
      simp only [Action.isCopyOf, Action.isCallOf, decide_true, if_true, Bool.false_eq_true,
        if_false]
      omega
  | readPayload hpc =>
      simp [Shm.readPayload, hpc, Action.isCopyOf, ProcessPc.copiesLeft]
  | publishRead buffer hpc =>
      simp [Shm.publishRead, hpc, Action.isCopyOf, ProcessPc.copiesLeft]
  | processSetMalleabilityMode mode hpc => exact le_rfl

/-- The steps of another process are no steps of process `i`. -/
theorem ProcessDerivation.not_of_ne {s : State n} {i j : Fin n} {a : Action n} {p : Process}
    {base : ProcessControl} (h : ProcessDerivation s j a p base) (hij : i ≠ j) :
    a.isCopyOf i = false ∧ a.isCallOf i = false := by
  cases h <;> simp [Action.isCopyOf, Action.isCallOf, hij.symm]

/-- The manager moves no process. -/
theorem process_managerStep {s t : State n} (ht : managerStep s = some t) :
    t.process = s.process := by
  cases managerStep_derivation ht with
  | readReady hpc hi => rfl
  | writePayload hpc hi hready => rfl
  | notReady hpc hi hready => rfl
  | writeControl hpc => rfl
  | syncMeta hpc hi => rfl
  | getMalleabilityMode hpc hi ht =>
      obtain ⟨result, rfl | rfl, -⟩ := getMalleabilityMode_cases ht
      · rfl
      · rfl

/-- A step leaves process `i` alone or is one of its own. -/
theorem process_step {s t : State n} {a : Action n} (i : Fin n) (ht : step s a = some t) :
    (t.process i = s.process i ∧ a.isCopyOf i = false ∧ a.isCallOf i = false) ∨
      ∃ base, ProcessDerivation s i a (t.process i) base := by
  cases step_derivation ht with
  | managerWrite args hpc =>
      rcases managerWrite_cases args s with ⟨code, -, heq⟩ | ⟨-, -, heq⟩
      · rw [heq]
        exact Or.inl ⟨rfl, rfl, rfl⟩
      · rw [heq]
        exact Or.inl ⟨rfl, rfl, rfl⟩
  | managerGetMalleabilityMode hpc => exact Or.inl ⟨rfl, rfl, rfl⟩
  | manager ht => exact Or.inl ⟨congrFun (process_managerStep ht) i, rfl, rfl⟩
  | @process _ j p base hp =>
      rw [process_moveProcess]
      by_cases hij : i = j
      · subst i
        rw [Function.update_self]
        exact Or.inr ⟨base, hp⟩
      · rw [Function.update_of_ne hij]
        exact Or.inl ⟨rfl, hp.not_of_ne hij⟩

/-- A call of a process brings two copies at most, and a copy takes one of them. -/
theorem process_copiesLeft_step {s t : State n} {a : Action n} (i : Fin n)
    (ht : step s a = some t) :
    (t.process i).pc.copiesLeft + (if a.isCopyOf i then 1 else 0) ≤
      (s.process i).pc.copiesLeft + if a.isCallOf i then 2 else 0 := by
  rcases process_step i ht with ⟨hkept, hcopy, hcall⟩ | ⟨base, hp⟩
  · rw [hkept, hcopy, hcall]
    exact le_rfl
  · exact hp.copiesLeft

/-- A call of a process that is under way can take its next copy. -/
theorem exists_copy_of_process {s : State n} {i : Fin n} (hleft : 0 < (s.process i).pc.copiesLeft) :
    ∃ a t, a.isCopyOf i = true ∧ step s a = some t := by
  cases hpc : (s.process i).pc with
  | attaching => exact ⟨.attachOwn i true, _, by simp [Action.isCopyOf], if_pos hpc⟩
  | readPayload => exact ⟨.readPayload i, _, by simp [Action.isCopyOf], if_pos hpc⟩
  | publishRead buffer =>
      refine ⟨.publishRead i, s.publishLine i (publishRead buffer (s.process i)), ?_, ?_⟩
      · simp [Action.isCopyOf]
      · simp only [step, hpc]
  | _ => simp [hpc, ProcessPc.copiesLeft] at hleft

/-! ### Wait freedom -/

/-- Whatever the other participants do, a call that is under way can take its next copy, and the
copies of a run are paid for by the calls: `n + 2` copies for a call of the manager and two for a
call of a process at most. -/
theorem calls_wait_free (hn : 0 < n) {s t : State n} {actions : List (Action n)}
    (hrun : (system n).run s actions = some t) :
    (t.pc ≠ .idle → ∃ u, (system n).step t .manager = some u) ∧
    (∀ i, 0 < (t.process i).pc.copiesLeft →
      ∃ a u, a.isCopyOf i = true ∧ (system n).step t a = some u) ∧
    actions.countP Action.isCopy + t.pc.copiesLeft n ≤
      s.pc.copiesLeft n + (n + 2) * actions.countP Action.isManagerCall ∧
    ∀ i, actions.countP (Action.isCopyOf i) + (t.process i).pc.copiesLeft ≤
      (s.process i).pc.copiesLeft + 2 * actions.countP (Action.isCallOf i) := by
  refine ⟨?_, fun i hleft => exists_copy_of_process hleft, ?_, ?_⟩
  · intro hpc
    exact Option.isSome_iff_exists.mp (managerStep_isSome hn hpc)
  · exact System.countP_le_of_run (fun s => s.pc.copiesLeft n) (fun s a t ht => copiesLeft_step ht)
      hrun
  · intro i
    exact System.countP_le_of_run (fun s => (s.process i).pc.copiesLeft)
      (fun s a t ht => process_copiesLeft_step i ht) hrun

theorem sampleRun_wait_free :
    ∃ t : State 1, (system 1).run sampleInit sampleRun = some t ∧
      sampleRun.countP Action.isCopy + t.pc.copiesLeft 1 ≤ 0 + 3 * 1 := by
  have hrun : (system 1).run sampleInit sampleRun = some _ := rfl
  refine ⟨_, hrun, ?_⟩
  exact (calls_wait_free (by decide) hrun).2.2.1

/-! ## Keeping up -/

theorem written_mono {s t : State n} (h : s.calls <+: t.calls) : s.written <+: t.written :=
  (h.filter _).map WriteCall.payload

/-- Process `i` has obtained `k` payloads, or the read that is under way is about the last one. -/
def State.Catching (k : ℕ) (i : Fin n) (s : State n) : Prop :=
  k ≤ (s.process i).obtained.length ∨ (s.process i).pc = .readPayload ∨
    ∃ buffer, (s.process i).pc = .publishRead buffer

/-- A read that is under way obtains the last payload when it returns. -/
theorem ProcessDerivation.catching {s : State n} {i : Fin n} {a : Action n} {p : Process}
    {base : ProcessControl} (h : ProcessDerivation s i a p base) (hinv : Invariant s) {k : ℕ}
    (hk : k ≤ s.written.length) (hcatch : s.Catching k i) :
    k ≤ p.obtained.length ∨ p.pc = .readPayload ∨ ∃ buffer, p.pc = .publishRead buffer := by
  rcases hcatch with hle | hunder
  · exact Or.inl (hle.trans h.obtained_le)
  · cases h with
    | processAttach mapped hpc => simp [hpc] at hunder
    | attachOwn mapped hpc => simp [hpc] at hunder
    | processRead hpc => simp [hpc] at hunder
    | readPayload hpc => exact Or.inr (Or.inr ⟨_, rfl⟩)
    | publishRead buffer hpc =>
        have hall := (hinv.process i).publishing buffer hpc
        refine Or.inl ?_
        change k ≤ ((s.process i).obtained ++
          [(buffer, (s.process i).managerControl.payloadBytes)]).length
        rwa [hall]
    | processSetMalleabilityMode mode hpc => simp [hpc] at hunder

theorem State.Catching.step {s t : State n} {a : Action n} {i : Fin n} {k : ℕ}
    (hcatch : s.Catching k i) (hinv : Invariant s) (hk : k ≤ s.written.length)
    (ht : step s a = some t) : t.Catching k i := by
  rcases process_step i ht with ⟨hkept, -, -⟩ | ⟨base, hp⟩
  · rw [State.Catching, hkept]
    exact hcatch
  · exact hp.catching hinv hk hcatch

/-- What a process has obtained it keeps. -/
theorem obtained_le_run {s t : State n} {actions : List (Action n)} (i : Fin n)
    (hrun : (system n).run s actions = some t) :
    (s.process i).obtained.length ≤ (t.process i).obtained.length := by
  refine System.invariant_of_run
    (I := fun t : State n => (s.process i).obtained.length ≤ (t.process i).obtained.length) ?_
    le_rfl hrun
  intro u a v hu hv
  rcases process_step i hv with ⟨hkept, -, -⟩ | ⟨base, hp⟩
  · rwa [hkept]
  · exact hu.trans hp.obtained_le

theorem written_step {s t : State n} {a : Action n} (ht : step s a = some t) :
    s.written <+: t.written := written_mono (stepFrame_of_step ht).calls

theorem written_run {s t : State n} {actions : List (Action n)}
    (hrun : (system n).run s actions = some t) : s.written <+: t.written :=
  written_mono (calls_run hrun)

theorem State.Catching.run {s t : State n} {actions : List (Action n)} {i : Fin n} {k : ℕ}
    (hcatch : s.Catching k i) (hinv : Invariant s) (hk : k ≤ s.written.length)
    (hrun : (system n).run s actions = some t) : t.Catching k i := by
  have hall : Invariant t ∧ k ≤ t.written.length ∧ t.Catching k i := by
    refine System.invariant_of_run
      (I := fun s : State n => Invariant s ∧ k ≤ s.written.length ∧ s.Catching k i) ?_
      ⟨hinv, hk, hcatch⟩ hrun
    rintro s a t ⟨hinv, hk, hcatch⟩ ht
    exact ⟨hinv.step ht, hk.trans (written_step ht).length_le, hcatch.step hinv hk ht⟩
  exact hall.2.2

/-- A call of `dynpm_shm_process_read` by process `i`. -/
def Action.isReadOf (i : Fin n) : Action n → Bool
  | .processRead j => j = i
  | _ => false

theorem eq_processRead {i : Fin n} {a : Action n} (h : a.isReadOf i = true) :
    a = .processRead i := by
  cases a with
  | processRead j => rw [of_decide_eq_true h]
  | _ => cases h

theorem Invariant.run {s t : State n} {actions : List (Action n)} (h : Invariant s)
    (hrun : (system n).run s actions = some t) : Invariant t :=
  System.invariant_of_run (fun _ _ _ hs ht => hs.step ht) h hrun

/-- A call of `dynpm_shm_process_read` is about the payload that is missing, if one is. -/
theorem catching_processRead {s t : State n} {i : Fin n} (hinv : Invariant s)
    (ht : step s (.processRead i) = some t) :
    (s.process i).pc = .idle ∧ t.Catching s.written.length i := by
  obtain ⟨hpc, hs⟩ := Option.ite_none_right_eq_some.mp ht
  refine ⟨hpc, ?_⟩
  have hmissed := ((hinv.step ht).process i).not_missed
  have hown := (hinv.process i).own_count (by simp [hpc]) (by simp [hpc]) (by simp [hpc])
  obtain rfl := Option.some.inj hs
  simp only [State.Catching, State.setProcess, Function.update_self] at hmissed ⊢
  unfold processRead at hmissed ⊢
  dsimp only at hmissed ⊢
  split_ifs at hmissed ⊢ with hsame hnext
  · rw [hown, hinv.segment_count] at hsame
    have hsync := (ofNat_eq_ofNat_iff (hinv.process i).in_order.length_le
      (hinv.process i).behind).mp hsame
    exact Or.inl hsync.ge
  · exact Or.inr (Or.inl rfl)

/-- A process that has called `dynpm_shm_process_read` twice has obtained what was written before
the first call. -/
theorem reads_keep_up {s t : State n} {actions : List (Action n)} {i : Fin n} (hinv : Invariant s)
    (hcount : 2 ≤ actions.countP (Action.isReadOf i))
    (hrun : (system n).run s actions = some t) :
    s.written.length ≤ (t.process i).obtained.length := by
  obtain ⟨front, a, back, u, v, hfront, ha, hv, hback, hcount⟩ :=
    System.exists_first_of_countP hcount hrun
  obtain ⟨front', a', back', u', v', hfront', ha', hv', hback', -⟩ :=
    System.exists_first_of_countP hcount hback
  obtain rfl := eq_processRead ha
  obtain rfl := eq_processRead ha'
  replace hv : step u (.processRead i) = some v := hv
  have hinvu : Invariant u := hinv.run hfront
  have hwritten : s.written.length ≤ u.written.length := (written_run hfront).length_le
  have hinvv : Invariant v := hinvu.step hv
  have hwritten' : s.written.length ≤ v.written.length :=
    hwritten.trans (written_step hv).length_le
  -- The first call is about the missing payload, and it has returned when the second begins.
  have hfirst : v.Catching s.written.length i :=
    (catching_processRead hinvu hv).2.imp_left hwritten.trans
  have hsecond := hfirst.run hinvv hwritten' hfront'
  have hidle := (catching_processRead (hinvv.run hfront') hv').1
  have hrest : (system n).run u' (.processRead i :: back') = some t := by
    rw [System.run, hv']
    exact hback'
  refine le_trans ?_ (obtained_le_run i hrest)
  rcases hsecond with hle | hreading | ⟨buffer, hpublishing⟩
  · exact hle
  · simp [hidle] at hreading
  · simp [hidle] at hpublishing

/-! ## Writing again -/

/-- A call of `dynpm_shm_manager_write` with a payload whose size passes the test. -/
def Action.isFittingWrite (payloadMax : UInt32) : Action n → Bool
  | .managerWrite args =>
      args.payload.isSome && decide (0 < args.payloadBytes) &&
        decide (args.payloadBytes.toUInt32 < payloadMax)
  | _ => false

theorem eq_managerWrite {payloadMax : UInt32} {a : Action n}
    (h : a.isFittingWrite payloadMax = true) :
    ∃ args bytes, a = .managerWrite args ∧ args.payload = some bytes ∧ 0 < args.payloadBytes ∧
      args.payloadBytes.toUInt32 < payloadMax := by
  cases a with
  | managerWrite args =>
      obtain ⟨⟨hsome, hpos⟩, hlt⟩ : (args.payload.isSome = true ∧ 0 < args.payloadBytes) ∧
          args.payloadBytes.toUInt32 < payloadMax := by
        simpa [Action.isFittingWrite] using h
      obtain ⟨bytes, hbytes⟩ := Option.isSome_iff_exists.mp hsome
      exact ⟨args, bytes, rfl, hbytes, hpos, hlt⟩
  | _ => cases h

/-- `dynpm_shm_manager_init` sets the greatest size for good. -/
theorem payloadMax_run {s t : State n} {actions : List (Action n)}
    (hrun : (system n).run s actions = some t) :
    t.managerControl.payloadMax = s.managerControl.payloadMax := by
  refine System.invariant_of_run
    (I := fun t : State n => t.managerControl.payloadMax = s.managerControl.payloadMax) ?_ rfl hrun
  intro u a v hu hv
  have hconstant := congrArg ManagerControl.payloadMax (stepFrame_of_step hv).constant
  exact hconstant.trans hu

/-- The manager is idle again when the write has returned. -/
theorem Writing.returned_of_idle {s t : State n} {wargs : WriteArgs} {k : ℕ}
    (h : Writing s wargs k t) (hidle : t.pc = .idle) : s.written.length < t.written.length := by
  cases h with
  | readReady entry hpc hk hcalls hsync => exact absurd (hidle.symm.trans hpc) (by simp)
  | writeControl entry hpc hk hcalls => exact absurd (hidle.symm.trans hpc) (by simp)
  | returned call hcode hcalls =>
      have hwritten : s.written ++ [call.payload] <+: t.written := by
        have hmap := (hcalls.filter fun call => call.code = 0).map WriteCall.payload
        simpa [State.written, hcode] using hmap
      have hle := hwritten.length_le
      rw [List.length_append, List.length_singleton] at hle
      omega

theorem pc_managerWrite {s t : State n} {wargs : WriteArgs}
    (ht : step s (.managerWrite wargs) = some t) : s.pc = .idle ∧ t = managerWrite wargs s := by
  cases step_derivation ht with
  | managerWrite args hpc => exact ⟨hpc, rfl⟩
  | process hp => nomatch hp

/-- When every process has obtained what was written before, a payload that fits is published
before the manager begins a second write. -/
theorem writes_publish {s t : State n} {actions : List (Action n)} {k : ℕ} (hinv : Invariant s)
    (hread : ∀ i, k ≤ (s.process i).obtained.length) (hk : k ≤ s.written.length)
    (hcount : 2 ≤ actions.countP (Action.isFittingWrite s.managerControl.payloadMax))
    (hrun : (system n).run s actions = some t) : k < t.written.length := by
  obtain ⟨front, a, back, u, v, hfront, ha, hv, hback, hcount⟩ :=
    System.exists_first_of_countP hcount hrun
  obtain ⟨front', a', back', u', v', hfront', ha', hv', hback', -⟩ :=
    System.exists_first_of_countP hcount hback
  obtain ⟨wargs, bytes, rfl, hbytes, hpos, hlt⟩ := eq_managerWrite ha
  obtain ⟨wargs', bytes', rfl, -⟩ := eq_managerWrite ha'
  have hinvu : Invariant u := hinv.run hfront
  have hku : k ≤ u.written.length := hk.trans (written_run hfront).length_le
  by_cases hmore : k < u.written.length
  · have hrest : (system n).run u (.managerWrite wargs :: back) = some t := by
      rw [System.run, hv]
      exact hback
    exact hmore.trans_le (written_run hrest).length_le
  · have hsync : ∀ i, u.InSync i := by
      intro i
      have hle := (hinvu.process i).in_order.length_le
      have hgrow := (hread i).trans (obtained_le_run i hfront)
      rw [State.InSync]
      omega
    obtain ⟨hidle, rfl⟩ := pc_managerWrite hv
    have hmax := payloadMax_run hfront
    have hentry : managerWrite wargs u = { u with pc := .readReady wargs u.published 0 0 } := by
      simp only [managerWrite, hbytes]
      exact if_pos ⟨hpos, hmax ▸ hlt⟩
    have hstart : Writing u wargs 0 (managerWrite wargs u) := by
      rw [hentry]
      exact .readReady u.published rfl (Nat.zero_le n) rfl hsync
    -- The first write has returned when the manager calls the second one.
    have hwriting := hstart.run (hinvu.managerWrite hidle wargs) hfront'
    have hpublished := hwriting.returned_of_idle (pc_managerWrite hv').1
    have hrest : (system n).run u' (.managerWrite wargs' :: back') = some t := by
      rw [System.run, hv']
      exact hback'
    exact (hku.trans_lt hpublished).trans_le (written_run hrest).length_le

/-! ## Rounds -/

/-- In a round every process calls `dynpm_shm_process_read` twice, and then the manager writes two
payloads that fit, among any other actions. -/
def IsRound (payloadMax : UInt32) (actions : List (Action n)) : Prop :=
  ∃ reads writes, actions = reads ++ writes ∧ (∀ i, 2 ≤ reads.countP (Action.isReadOf i)) ∧
    2 ≤ writes.countP (Action.isFittingWrite payloadMax)

/-- A round publishes one more payload. -/
theorem written_round {s t : State n} {actions : List (Action n)} (hinv : Invariant s)
    (hround : IsRound s.managerControl.payloadMax actions)
    (hrun : (system n).run s actions = some t) : s.written.length < t.written.length := by
  obtain ⟨reads, writes, rfl, hreads, hwrites⟩ := hround
  rw [System.run_append] at hrun
  obtain ⟨u, hu, hrun⟩ := Option.bind_eq_some_iff.mp hrun
  rw [← payloadMax_run hu] at hwrites
  exact writes_publish (hinv.run hu) (fun i => reads_keep_up hinv (hreads i) hu)
    (written_run hu).length_le hwrites hrun

theorem written_rounds {s t : State n} (hinv : Invariant s) {rounds : List (List (Action n))}
    (hrounds : ∀ round ∈ rounds, IsRound s.managerControl.payloadMax round)
    (hrun : (system n).run s rounds.flatten = some t) :
    s.written.length + rounds.length ≤ t.written.length := by
  induction rounds generalizing s with
  | nil =>
      obtain rfl := Option.some.inj hrun
      exact le_rfl
  | cons round rounds ih =>
      rw [List.flatten_cons, System.run_append] at hrun
      obtain ⟨u, hu, hrun⟩ := Option.bind_eq_some_iff.mp hrun
      have hfirst := written_round hinv (hrounds round List.mem_cons_self) hu
      have hlater : ∀ round ∈ rounds, IsRound u.managerControl.payloadMax round := by
        intro round hround
        rw [payloadMax_run hu]
        exact hrounds round (List.mem_cons_of_mem _ hround)
      have hrest := ih (hinv.run hu) hlater hrun
      rw [List.length_cons]
      omega

/-- The channel makes progress: in every interleaving, each round publishes one more payload, and
no process is ever more than that one behind. -/
theorem rounds_make_progress {s t : State n} (h : (system n).Reachable s)
    (rounds : List (List (Action n)))
    (hrounds : ∀ round ∈ rounds, IsRound s.managerControl.payloadMax round)
    (hrun : (system n).run s rounds.flatten = some t) :
    s.written.length + rounds.length ≤ t.written.length ∧
      ∀ i, s.written.length + rounds.length ≤ (t.process i).obtained.length + 1 := by
  have hwritten := written_rounds (invariant_of_reachable h) hrounds hrun
  refine ⟨hwritten, ?_⟩
  intro i
  have hbehind := ((invariant_of_reachable (h.run hrun)).process i).behind
  omega

/-- Three bytes for every process. -/
def threeBytes : WriteArgs := ⟨some [7, 8, 9], 3, by decide⟩

/-- In the first round the process attaches, and the second write is under way at the end. In the
second round it returns, and a third one is refused since the process has not read again. -/
def sampleRounds : List (List (Action 1)) :=
  let first : Fin 1 := Fin.last 0
  [[.processAttach first true, .attachOwn first true, .processRead first, .processRead first] ++
      [.managerWrite threeBytes, .manager, .manager, .manager, .managerWrite threeBytes],
    [.processRead first, .readPayload first, .publishRead first, .processRead first] ++
      [.manager, .manager, .manager, .managerWrite threeBytes, .manager, .manager,
        .managerWrite threeBytes]]

theorem sampleRounds_make_progress :
    ∃ t : State 1, (system 1).run sampleInit sampleRounds.flatten = some t ∧
      0 + 2 ≤ t.written.length := by
  have hstart : (system 1).Reachable sampleInit := .initial ⟨_, _, _, rfl⟩
  have hrounds : ∀ round ∈ sampleRounds, IsRound sampleInit.managerControl.payloadMax round := by
    intro round hround
    rcases List.mem_cons.mp hround with rfl | hround
    · exact ⟨_, _, rfl, by decide, by decide⟩
    · obtain rfl := List.mem_singleton.mp hround
      exact ⟨_, _, rfl, by decide, by decide⟩
  refine ⟨_, rfl, ?_⟩
  exact (rounds_make_progress hstart sampleRounds hrounds rfl).1

end Dynpm.Shm
