import Dynpm.Model.ShmLifecycle

/-! # Life cycle of the shared-memory segments

The manager creates one name for itself and one for each process. The two teardown functions
both remove the manager's name, and only that one.
-/

namespace Dynpm.Lifecycle

open Library Library.Stdio
open Shm (ManagerControl ProcessControl InitArgs initManagerShm initProcessShm)

variable {n : ℕ}

/-! ## Names of a job -/

/-- A process's name extends the name of its manager. -/
theorem processShmPath_eq (jobIndex applicationIndex pid : UInt32) :
    processShmPath jobIndex applicationIndex pid =
      managerShmPath jobIndex applicationIndex ++ 95 :: printInt pid := by
  have hmanager : parseFormat "/dynpm_%d_%d".toList =
      "/dynpm_".toList.map (fun c => .byte (UInt8.ofNat c.toNat)) ++ [.int, .byte 95, .int] := by
    decide
  have hprocess : parseFormat "/dynpm_%d_%d_%d".toList =
      "/dynpm_".toList.map (fun c => .byte (UInt8.ofNat c.toNat)) ++
        [.int, .byte 95, .int, .byte 95, .int] := by
    decide
  rw [processShmPath, managerShmPath, sprintf, sprintf, hmanager, hprocess]
  simp [print]

theorem processShmPath_ne (jobIndex applicationIndex pid : UInt32) :
    processShmPath jobIndex applicationIndex pid ≠ managerShmPath jobIndex applicationIndex := by
  intro h
  have hlen := congrArg List.length h
  rw [processShmPath_eq, List.length_append, List.length_cons] at hlen
  omega

theorem processPath_ne (call : InitCall n) (i : Fin n) : call.processPath i ≠ call.managerPath :=
  processShmPath_ne _ _ _

/-! ## Initialisation -/

/-- The code of one segment tells whether its three calls have succeeded. -/
theorem initSegment_code (name : Name) (line : Segment) (outcome : Outcome) (names : Namespace) :
    (initSegment name line outcome names).1 ≤ 0 ∧
      ((initSegment name line outcome names).1 = 0 ↔ outcome = .success) := by
  obtain ⟨opened, truncated, mapped⟩ := outcome
  cases opened <;> cases truncated <;> cases mapped <;> simp [initSegment, Outcome.success]

/-- The codes of the segments add up to zero only when all calls have succeeded. -/
theorem foldl_initProcess_code (call : InitCall n) (is : List (Fin n)) (result : ℤ × Namespace)
    (hresult : result.1 ≤ 0) :
    (is.foldl (initProcess call) result).1 = 0 ↔
      result.1 = 0 ∧ ∀ i ∈ is, call.process i = .success := by
  induction is generalizing result with
  | nil => simp
  | cons i is ih =>
      obtain ⟨hle, hzero⟩ := initSegment_code (call.processPath i)
        (processLine (initProcessShm call.args i)) (call.process i) result.2
      have hcode : (initProcess call result i).1 = result.1 + (initSegment (call.processPath i)
        (processLine (initProcessShm call.args i)) (call.process i) result.2).1 := rfl
      rw [List.foldl_cons, ih _ (by rw [hcode]; omega), hcode, List.forall_mem_cons, ← hzero,
        ← and_assoc]
      apply and_congr_left'
      omega

theorem initSegment_success (name : Name) (line : Segment) (names : Namespace) :
    initSegment name line .success names = (0, Function.update names name (some line)) := rfl

/-- Whatever fails, no other name is created or replaced. -/
theorem initSegment_other {name other : Name} (h : other ≠ name) (line : Segment)
    (outcome : Outcome) (names : Namespace) :
    (initSegment name line outcome names).2 other = names other := by
  unfold initSegment
  split_ifs
  · exact Function.update_of_ne h _ _
  · exact Function.update_of_ne h _ _
  · exact Function.update_of_ne h _ _
  · rfl

theorem foldl_initProcess_other (call : InitCall n) (is : List (Fin n)) (result : ℤ × Namespace)
    {name : Name} (hname : ∀ i ∈ is, name ≠ call.processPath i) :
    (is.foldl (initProcess call) result).2 name = result.2 name := by
  induction is generalizing result with
  | nil => rfl
  | cons i is ih =>
      rw [List.forall_mem_cons] at hname
      rw [List.foldl_cons, ih (initProcess call result i) hname.2]
      exact initSegment_other hname.1 _ _ _

/-- Where every call succeeds, the processes' names are added. -/
theorem foldl_initProcess_isSome (call : InitCall n) (hcall : ∀ i, call.process i = .success)
    (is : List (Fin n)) (result : ℤ × Namespace) {name : Name}
    (hname : (result.2 name).isSome ∨ ∃ i ∈ is, name = call.processPath i) :
    ((is.foldl (initProcess call) result).2 name).isSome := by
  induction is generalizing result with
  | nil => simpa using hname
  | cons i is ih =>
      have hnames : (initProcess call result i).2 = Function.update result.2 (call.processPath i)
          (some (processLine (initProcessShm call.args i))) := by
        rw [initProcess, hcall i, initSegment_success]
      rw [List.foldl_cons]
      apply ih
      rw [hnames]
      by_cases hi : name = call.processPath i
      · subst hi
        exact .inl (by simp)
      · rw [Function.update_of_ne hi]
        simpa [hi] using hname

/-! ## A whole job -/

variable {args : InitArgs n} {before : Namespace}

/-- The names that a successful `dynpm_shm_manager_init` leaves. -/
structure Started (args : InitArgs n) (before names : Namespace) : Prop where
  manager : names (jobInit args before).managerPath = some (managerLine (initManagerShm args))
  process : ∀ i, (names ((jobInit args before).processPath i)).isSome
  other : ∀ name, name ≠ (jobInit args before).managerPath →
    (∀ i, name ≠ (jobInit args before).processPath i) → names name = before name

theorem started_of_managerInit {m m' : Module} {names : Namespace}
    (h : managerInit (jobInit args before) m = .ok (0, names, m')) :
    Started args before names ∧
      m'.managerControl.map Block.contents = some (initManagerShm args) := by
  rw [managerInit] at h
  split at h
  · cases h
  · have hmanager : (initManager (jobInit args before)).2 =
        Function.update before (jobInit args before).managerPath
          (some (managerLine (initManagerShm args))) := rfl
    simp only [Except.ok.injEq, Prod.mk.injEq] at h
    obtain ⟨-, rfl, rfl⟩ := h
    refine ⟨⟨?_, ?_, ?_⟩, rfl⟩
    · rw [foldl_initProcess_other _ _ _ fun i _ => (processPath_ne _ i).symm, hmanager,
        Function.update_self]
    · intro i
      exact foldl_initProcess_isSome _ (fun _ => rfl) _ _ (.inr ⟨i, List.mem_finRange i, rfl⟩)
    · intro name hname hprocess
      rw [foldl_initProcess_other _ _ _ fun i _ => hprocess i, hmanager,
        Function.update_of_ne hname]

/-- The invariant of a job that was started with the given names: a process that has not tried
to attach is untouched, whoever is attached knows the job's indices, and the manager's name
exists until the first teardown. No other name ever changes. -/
structure JobInv (args : InitArgs n) (before names : Namespace) (j : Job) : Prop where
  untried : ∀ pid, j.tried pid = false → ∃ memory, j.process pid = Life.unused memory
  attached : ∀ pid, (j.process pid).attached = true →
    (j.process pid).module.managerControl.map Block.contents = some (initManagerShm args)
  manager : j.Up → j.manager.managerControl.map Block.contents = some (initManagerShm args)
  elsewhere : ∀ name, name ≠ (jobInit args before).managerPath → j.names name = names name
  present : j.Up → j.detached = false →
    j.names (jobInit args before).managerPath = names (jobInit args before).managerPath
  gone : ¬ j.Up ∨ j.detached = true → j.names (jobInit args before).managerPath = none

/-- Both teardown functions remove the manager's name. -/
theorem unlinkManager_eq (before : Namespace) {m : Module}
    (h : m.managerControl.map Block.contents = some (initManagerShm args)) :
    unlinkManager m =
      .ok ((jobInit args before).managerPath, { m with managerControl := none }) := by
  obtain ⟨block, hblock, hcontents⟩ := Option.map_eq_some_iff.mp h
  simp only [unlinkManager, hblock, hcontents]
  rfl

/-- The outcomes of `dynpm_shm_process_attach`. -/
theorem processAttach_cases {call : AttachCall} {m m' : Module} {code : ℤ}
    (h : processAttach call m = .ok (code, m')) :
    m.managerControl = none ∧ m'.managerControl.isSome ∧
      ((code ≠ 0 ∧ ¬ (call.managerSegment.isSome ∧ call.processSegment.isSome)) ∨
        (code = 0 ∧ m.processControl = none ∧ call.processSegment.isSome ∧
          ∃ segment, call.managerSegment = some segment ∧
            m'.managerControl.map Block.contents = some (copyManagerLine segment))) := by
  unfold processAttach at h
  split at h
  · cases h
  · rename_i hnull
    refine ⟨by simpa using hnull, ?_⟩
    cases hmanager : call.managerSegment with
    | none =>
        simp only [hmanager, Except.ok.injEq, Prod.mk.injEq] at h
        obtain ⟨rfl, rfl⟩ := h
        exact ⟨rfl, .inl ⟨by decide, by simp⟩⟩
    | some segment =>
        simp only [hmanager] at h
        split at h
        · cases h
        · rename_i hfree
          cases hprocess : call.processSegment with
          | none =>
              simp only [hprocess, Except.ok.injEq, Prod.mk.injEq] at h
              obtain ⟨rfl, rfl⟩ := h
              exact ⟨rfl, .inl ⟨by decide, by simp⟩⟩
          | some own =>
              simp only [hprocess, Except.ok.injEq, Prod.mk.injEq] at h
              obtain ⟨rfl, rfl⟩ := h
              exact ⟨rfl, .inr ⟨rfl, by simpa using hfree, rfl, segment, rfl, rfl⟩⟩

/-- An attach with unused pointers whose mappings succeed. -/
theorem processAttach_ok {call : AttachCall} {m : Module} (hmanager : m.managerControl = none)
    (hprocess : m.processControl = none) (hsegment : call.managerSegment.isSome)
    (hown : call.processSegment.isSome) :
    ∃ m', processAttach call m = .ok (0, m') ∧ m'.managerControl.isSome := by
  obtain ⟨segment, hsegment⟩ := Option.isSome_iff_exists.mp hsegment
  obtain ⟨own, hown⟩ := Option.isSome_iff_exists.mp hown
  simp [processAttach, hmanager, hprocess, hsegment, hown]

/-- In a job, the two mappings of an attach are those of the manager's and of its own name. -/
theorem managerSegment_attachCall (args : InitArgs n) (before : Namespace) (j : Job) (i : Fin n) :
    (j.attachCall args i).managerSegment = j.names (jobInit args before).managerPath := rfl

theorem processSegment_attachCall (args : InitArgs n) (before : Namespace) (j : Job) (i : Fin n) :
    (j.attachCall args i).processSegment = j.names ((jobInit args before).processPath i) := rfl

namespace JobInv

variable {names : Namespace} {j t : Job}

theorem attach (h : JobInv args before names j) (hstarted : Started args before names)
    (i : Fin n) : JobInv args before names (j.attach args i) := by
  refine ⟨?_, ?_, h.manager, h.elsewhere, h.present, h.gone⟩
  · intro pid hpid
    by_cases heq : pid = args.pidList i
    · subst heq
      simp [Job.attach] at hpid
    · simpa [Job.attach, heq] using h.untried pid (by simpa [Job.attach, heq] using hpid)
  · intro pid hpid
    by_cases heq : pid = args.pidList i
    · subst heq
      simp only [Job.attach, Function.update_self] at hpid ⊢
      cases hresult : processAttach (j.attachCall args i) (j.process (args.pidList i)).module with
      | error fault =>
          rw [hresult] at hpid
          exact h.attached _ hpid
      | ok result =>
          obtain ⟨code, m⟩ := result
          rw [hresult] at hpid
          have hcode : code = 0 := by simpa [Life.enter] using hpid
          obtain ⟨-, -, ⟨hne, -⟩ | ⟨-, -, -, segment, hsegment, hline⟩⟩ :=
            processAttach_cases hresult
          · exact absurd hcode hne
          · rw [managerSegment_attachCall args before] at hsegment
            have hup : j.Up ∧ j.detached = false := by
              by_contra hdown
              have hnone := h.gone (by
                rw [not_and_or, Bool.not_eq_false] at hdown
                exact hdown)
              rw [hnone] at hsegment
              cases hsegment
            rw [h.present hup.1 hup.2, hstarted.manager] at hsegment
            obtain rfl := Option.some.inj hsegment
            exact hline
    · simpa [Job.attach, heq] using h.attached pid (by simpa [Job.attach, heq] using hpid)

theorem elsewhere_unlink (h : JobInv args before names j) (name : Name)
    (hname : name ≠ (jobInit args before).managerPath) :
    unlink j.names (jobInit args before).managerPath name = names name := by
  rw [unlink, Function.update_of_ne hname]
  exact h.elsewhere name hname

theorem detach (h : JobInv args before names j) {pid : Int32}
    (hattached : (j.process pid).attached = true) :
    JobInv args before names (j.detach pid) := by
  have hresult : processDetach (j.process pid).module = _ :=
    unlinkManager_eq before (h.attached pid hattached)
  have hnames : (j.detach pid).names = unlink j.names (jobInit args before).managerPath := by
    simp [Job.detach, hresult]
  refine ⟨?_, ?_, h.manager, ?_, fun _ hdetached => by simp [Job.detach] at hdetached, ?_⟩
  · intro other hother
    by_cases heq : other = pid
    · subst heq
      obtain ⟨memory, hunused⟩ := h.untried other hother
      rw [hunused] at hattached
      cases hattached
    · simpa [Job.detach, heq] using h.untried other hother
  · intro other hother
    by_cases heq : other = pid
    · subst heq
      simp [Job.detach, hresult, Life.leave] at hother
    · simpa [Job.detach, heq] using h.attached other (by simpa [Job.detach, heq] using hother)
  · intro name hname
    rw [hnames]
    exact h.elsewhere_unlink name hname
  · intro _
    rw [hnames, unlink, Function.update_self]

theorem finalize (h : JobInv args before names j) (ht : j.step args .finalize = some t) :
    JobInv args before names t := by
  have hup : j.Up := by
    by_contra hdown
    have hnull : j.manager.managerControl = none := by simpa [Job.Up] using hdown
    simp [Job.step, managerFinalize, unlinkManager, hnull] at ht
  have hresult : managerFinalize j.manager = _ :=
    unlinkManager_eq before (h.manager hup)
  simp only [Job.step, hresult, Option.some.injEq] at ht
  subst ht
  refine ⟨h.untried, h.attached, fun hup => by simp [Job.Up] at hup, h.elsewhere_unlink,
    fun hup => by simp [Job.Up] at hup, ?_⟩
  intro _
  change unlink j.names _ _ = none
  rw [unlink, Function.update_self]

theorem step (h : JobInv args before names j) (hstarted : Started args before names)
    {a : JobAction n} (ht : j.step args a = some t) : JobInv args before names t := by
  cases a with
  | attach i =>
      obtain ⟨-, ht⟩ := Option.ite_none_left_eq_some.mp ht
      obtain rfl := Option.some.inj ht
      exact h.attach hstarted i
  | detach i =>
      obtain ⟨⟨hattached, -⟩, ht⟩ := Option.ite_none_right_eq_some.mp ht
      obtain rfl := Option.some.inj ht
      exact h.detach hattached
  | finalize => exact h.finalize ht

end JobInv

/-- A job starts in its invariant. -/
theorem jobInv_of_initial {j : Job} (h : (job args before).initial j) :
    Started args before j.names ∧ JobInv args before j.names j ∧ j.Up := by
  obtain ⟨memory, names, m, hinit, memories, rfl⟩ := h
  obtain ⟨hstarted, hmanager⟩ := started_of_managerInit hinit
  have hup : m.managerControl.isSome := by
    obtain ⟨block, hblock, -⟩ := Option.map_eq_some_iff.mp hmanager
    rw [hblock]
    rfl
  refine ⟨hstarted, ⟨fun pid _ => ⟨memories pid, rfl⟩, ?_, fun _ => hmanager, fun _ _ => rfl,
    fun _ _ => rfl, ?_⟩, hup⟩
  · intro pid hpid
    cases hpid
  · rintro (hdown | hdetached)
    · exact absurd hup hdown
    · cases hdetached

/-- What `dynpm_shm_manager_init` leaves when nothing fails. -/
def startJob (args : InitArgs n) (before : Namespace)
    (memory : ManagerControl × ProcessControl) : Job where
  names := ((List.finRange n).foldl (initProcess (jobInit args before))
    (initManager (jobInit args before))).2
  manager := ⟨n + 4, memory, some ⟨0, initManagerShm args⟩,
    some ⟨1, List.ofFn (initProcessShm args)⟩⟩
  process _ := Life.unused memory
  tried _ := false
  detached := false

theorem startJob_initial (args : InitArgs n) (before : Namespace)
    (memory : ManagerControl × ProcessControl) :
    (job args before).initial (startJob args before memory) := by
  have hcode := (foldl_initProcess_code (jobInit args before) (List.finRange n)
    (initManager (jobInit args before)) le_rfl).mpr ⟨rfl, fun _ _ => rfl⟩
  refine ⟨memory, _, _, ?_, fun _ => memory, rfl⟩
  simp only [managerInit, Module.unused, Option.isSome_none, Bool.false_eq_true, if_false, hcode,
    Nat.zero_add]
  rfl

/-- A job with two processes and no names before it. -/
def pairArgs : InitArgs 2 := ⟨1, 0, 1, 1, fun i => if i = 0 then 42 else 43, 41⟩

def pairJob : Job := startJob pairArgs (fun _ => none) (default, default)

/-! ### Attaching while the manager is up -/

/-- The first attach of a listed process succeeds as long as the manager is up. -/
def FirstAttachSucceeds (args : InitArgs n) (j : Job) : JobAction n → Prop
  | .attach i => j.Up → j.tried (args.pidList i) = false →
      ∃ m, processAttach (j.attachCall args i) (j.process (args.pidList i)).module = .ok (0, m)
  | _ => True

/-- A listed process attaches for the first time before any process has detached. -/
def FirstAttachBeforeDetach (args : InitArgs n) (j : Job) : JobAction n → Prop
  | .attach i => j.Up → j.tried (args.pidList i) = false → j.detached = false
  | _ => True

theorem JobInv.firstAttachSucceeds_iff {names : Namespace} {j : Job}
    (h : JobInv args before names j) (hstarted : Started args before names) (a : JobAction n) :
    FirstAttachSucceeds args j a ↔ FirstAttachBeforeDetach args j a := by
  cases a with
  | attach i =>
      refine forall_congr' fun hup => forall_congr' fun htried => ?_
      constructor
      · rintro ⟨m, hresult⟩
        obtain ⟨-, -, ⟨hne, -⟩ | ⟨-, -, -, segment, hsegment, -⟩⟩ := processAttach_cases hresult
        · exact absurd rfl hne
        · by_contra hdetached
          have hgone := h.gone (.inr (by simpa using hdetached))
          rw [managerSegment_attachCall args before, hgone] at hsegment
          cases hsegment
      · intro hdetached
        obtain ⟨memory, hunused⟩ := h.untried _ htried
        have hmanager : (j.attachCall args i).managerSegment.isSome := by
          rw [managerSegment_attachCall args before, h.present hup hdetached, hstarted.manager]
          rfl
        have hown : (j.attachCall args i).processSegment.isSome := by
          rw [processSegment_attachCall args before, h.elsewhere _ (processPath_ne _ i)]
          exact hstarted.process i
        rw [hunused]
        obtain ⟨m, hm, -⟩ :=
          processAttach_ok (m := (Life.unused memory).module) rfl rfl hmanager hown
        exact ⟨m, hm⟩
  | detach i => exact Iff.rfl
  | finalize => exact Iff.rfl

/-- In every interleaving of a job, the first attaches of the listed processes all succeed while
the manager is up if and only if each comes before every detach: `dynpm_shm_process_detach`
unlinks the manager's name. -/
theorem first_attach_succeeds_iff {j : Job} (h : (job args before).initial j)
    (actions : List (JobAction n)) :
    (job args before).Respecting (FirstAttachSucceeds args) j actions ↔
      (job args before).Respecting (FirstAttachBeforeDetach args) j actions := by
  obtain ⟨hstarted, hinv, -⟩ := jobInv_of_initial h
  exact System.respecting_congr (I := JobInv args before j.names)
    (fun s a t hs ht => hs.step hstarted ht)
    (fun s a t hs _ => hs.firstAttachSucceeds_iff hstarted a) hinv actions

theorem step_attach {j : Job} {i : Fin n} (h : (j.process (args.pidList i)).aborted = false) :
    (job args before).step j (.attach i) = some (j.attach args i) :=
  if_neg (by simp [h])

theorem step_detach {j : Job} {i : Fin n} (h : (j.process (args.pidList i)).attached = true)
    (hlive : (j.process (args.pidList i)).aborted = false) :
    (job args before).step j (.detach i) = some (j.detach (args.pidList i)) :=
  if_pos ⟨h, by simp [hlive]⟩

theorem pairJob_both_attach_first :
    (job pairArgs fun _ => none).Respecting (FirstAttachSucceeds pairArgs) pairJob
      [.attach 0, .attach 1, .detach 0, .detach 1, .finalize] := by
  refine (first_attach_succeeds_iff (startJob_initial pairArgs (fun _ => none) (default, default))
    _).mpr ?_
  intro t ht
  obtain rfl := Option.some.inj ((step_attach rfl).symm.trans ht)
  refine ⟨fun _ _ => rfl, ?_⟩
  intro t ht
  obtain rfl := Option.some.inj ((step_attach (by decide +kernel)).symm.trans ht)
  exact ⟨fun _ _ => rfl, fun _ _ => ⟨trivial, fun _ _ => ⟨trivial, fun _ _ => ⟨trivial, trivial⟩⟩⟩⟩

/-- The second process comes after the first one has detached. -/
theorem pairJob_attach_after_detach :
    ¬ (job pairArgs fun _ => none).Respecting (FirstAttachSucceeds pairArgs) pairJob
      [.attach 0, .detach 0, .attach 1] := by
  intro h
  obtain ⟨-, h⟩ := h _ (step_attach rfl)
  obtain ⟨-, h⟩ := h _ (step_detach (by decide +kernel) (by decide +kernel))
  obtain ⟨h, -⟩ := h _ (step_attach (by decide +kernel))
  obtain ⟨m, hresult⟩ := h (by decide +kernel) (by decide +kernel)
  obtain ⟨-, -, ⟨hne, -⟩ | ⟨-, -, -, segment, hsegment, -⟩⟩ := processAttach_cases hresult
  · exact absurd rfl hne
  · have hgone : (((pairJob.attach pairArgs 0).detach (pairArgs.pidList 0)).attachCall
        pairArgs 1).managerSegment = none := by
      decide +kernel
    rw [hgone] at hsegment
    cases hsegment

/-! ### What a finished job leaves -/

/-- Every process that attached has detached, and the manager has finalised. -/
def Finished (args : InitArgs n) (j : Job) : Prop :=
  ¬ j.Up ∧ ∀ i, (j.process (args.pidList i)).attached = false

/-- None of the names of a job. -/
def Fresh (args : InitArgs n) (before : Namespace) : Prop :=
  before (jobInit args before).managerPath = none ∧
    ∀ i, before ((jobInit args before).processPath i) = none

/-- A job that started without any of its names in the namespace leaves the namespace as it was
if and only if it has no processes: nobody unlinks the name of a process. -/
theorem finished_job_restores_names_iff {j t : Job} {actions : List (JobAction n)}
    (hinit : (job args before).initial j) (hfresh : Fresh args before)
    (hrun : (job args before).run j actions = some t) (hfinished : Finished args t) :
    t.names = before ↔ n = 0 := by
  obtain ⟨hstarted, hinv, -⟩ := jobInv_of_initial hinit
  have ht : JobInv args before j.names t :=
    System.invariant_of_run (fun s a t hs ht => hs.step hstarted ht) hinv hrun
  constructor
  · intro hnames
    by_contra hpos
    let first : Fin n := ⟨0, Nat.pos_of_ne_zero hpos⟩
    have hleft := hstarted.process first
    rw [← ht.elsewhere _ (processPath_ne _ first), hnames, hfresh.2 first] at hleft
    cases hleft
  · rintro rfl
    funext name
    by_cases hname : name = (jobInit args before).managerPath
    · rw [hname, ht.gone (.inl hfinished.1), hfresh.1]
    · rw [ht.elsewhere name hname]
      exact hstarted.other name hname fun i => i.elim0

/-- A job without processes. -/
def emptyArgs : InitArgs 0 := ⟨1, 0, 1, 1, fun _ => 0, 41⟩

theorem emptyJob_restores_names :
    ∃ t, (job emptyArgs fun _ => none).run
        (startJob emptyArgs (fun _ => none) (default, default)) [.finalize] = some t ∧
      t.names = fun _ => none := by
  have hrun : (job emptyArgs fun _ => none).run
      (startJob emptyArgs (fun _ => none) (default, default)) [.finalize] = some _ := rfl
  refine ⟨_, hrun, ?_⟩
  exact (finished_job_restores_names_iff (startJob_initial emptyArgs (fun _ => none) _)
    ⟨rfl, fun i => i.elim0⟩ hrun ⟨by decide, fun i => i.elim0⟩).mpr rfl

/-- Both processes attach and detach, the manager finalises, and the name of the first process
is still there. -/
theorem pairJob_leaves_names :
    (job pairArgs fun _ => none).initial pairJob ∧
    ∃ t, (job pairArgs fun _ => none).run pairJob
        [.attach 0, .attach 1, .detach 0, .detach 1, .finalize] = some t ∧
      Finished pairArgs t ∧ Fresh pairArgs (fun _ => none) ∧ t.names ≠ fun _ => none := by
  have hend : ((job pairArgs fun _ => none).run pairJob
      [.attach 0, .attach 1, .detach 0, .detach 1, .finalize]).map (fun t =>
        (decide t.Up, List.ofFn fun i => (t.process (pairArgs.pidList i)).attached,
          (t.names ((jobInit pairArgs fun _ => none).processPath 0)).isSome)) =
      some (false, [false, false], true) := by
    decide +kernel
  obtain ⟨t, hrun, hend⟩ := Option.map_eq_some_iff.mp hend
  simp only [Prod.mk.injEq, decide_eq_false_iff_not] at hend
  obtain ⟨hdown, hattached, hleft⟩ := hend
  refine ⟨startJob_initial _ _ _, t, hrun, ⟨hdown, ?_⟩, ⟨rfl, fun _ => rfl⟩, ?_⟩
  · simpa [List.ofFn_succ, Fin.forall_fin_two] using hattached
  · intro hnames
    rw [hnames] at hleft
    cases hleft

/-! ## Repeated calls in one OS process -/

section Repeated

variable {ε : Type} {enter : ε → Module → Except Fault (ℤ × Module)}
  {leave : Module → Except Fault (Name × Module)}

/-- No assertion fails and no `NULL` is followed; a call that sets up the channel in vain leaves
both pointers as they were. -/
def Clean (enter : ε → Module → Except Fault (ℤ × Module))
    (leave : Module → Except Fault (Name × Module)) (life : Life) : LifeCall ε → Prop
  | .enter call => ∃ code m, enter call life.module = .ok (code, m) ∧
      (code ≠ 0 → m.managerControl = life.module.managerControl ∧
        m.processControl = life.module.processControl)
  | .leave => ∃ name m, leave life.module = .ok (name, m)

/-- A condition on the calls that set up the channel. -/
def OnEnter (condition : ε → Module → Prop) (life : Life) : LifeCall ε → Prop
  | .enter call => condition call life.module
  | .leave => True

/-- The manager's block is allocated exactly while the process is attached, as long as no call
has failed. -/
structure Balanced (life : Life) : Prop where
  live : life.aborted = false
  attached : life.attached = true ↔ life.module.managerControl.isSome

theorem balanced_unused (memory : ManagerControl × ProcessControl) :
    Balanced (Life.unused memory) := ⟨rfl, by simp [Life.unused, Module.unused]⟩

/-- A call that meets the condition is clean and keeps the balance. -/
theorem Balanced.clean_step {condition : ε → Module → Prop}
    (hgood : ∀ call m, m.managerControl = none → condition call m →
      ∃ m', enter call m = .ok (0, m') ∧ m'.managerControl.isSome)
    (hleave : ∀ m, m.managerControl.isSome →
      ∃ name m', leave m = .ok (name, m') ∧ m'.managerControl = none)
    {life t : Life} {call : LifeCall ε} (hlife : Balanced life)
    (ht : (lifecycle enter leave).step life call = some t) (hcond : OnEnter condition life call) :
    Clean enter leave life call ∧ Balanced t := by
  cases call with
  | enter call =>
      obtain ⟨hidle, ht⟩ := Option.ite_none_left_eq_some.mp ht
      obtain rfl := Option.some.inj ht
      have hnull : life.module.managerControl = none := by
        simpa [hlife.attached] using (not_or.mp hidle).1
      obtain ⟨m, hm, hsome⟩ := hgood call life.module hnull hcond
      refine ⟨⟨0, m, hm, fun hne => absurd rfl hne⟩, ?_⟩
      rw [hm]
      exact ⟨hlife.live, by simpa [Life.enter] using hsome⟩
  | leave =>
      obtain ⟨⟨hattached, -⟩, ht⟩ := Option.ite_none_right_eq_some.mp ht
      obtain rfl := Option.some.inj ht
      obtain ⟨name, m, hm, hnull⟩ := hleave life.module (hlife.attached.mp hattached)
      refine ⟨⟨name, m, hm⟩, ?_⟩
      rw [hm]
      exact ⟨hlife.live, by simp [Life.leave, hnull]⟩

/-- A clean call meets the condition: a call that does not has allocated the manager's block in
vain. -/
theorem Clean.onEnter {condition : ε → Module → Prop}
    (hbad : ∀ call m code m', enter call m = .ok (code, m') → ¬ condition call m →
      m.managerControl = none ∧ code ≠ 0 ∧ m'.managerControl.isSome)
    {life : Life} {call : LifeCall ε} (h : Clean enter leave life call) :
    OnEnter condition life call := by
  cases call with
  | enter call =>
      obtain ⟨code, m, hm, hkeep⟩ := h
      by_contra hnot
      obtain ⟨hnull, hcode, hsome⟩ := hbad call life.module code m hm hnot
      rw [(hkeep hcode).1, hnull] at hsome
      cases hsome
  | leave => trivial

/-- Calls that return with the manager's block allocated, whether or not they succeed, are
repeatable exactly when they all succeed. -/
theorem lifecycle_clean_iff {condition : ε → Module → Prop}
    (hgood : ∀ call m, m.managerControl = none → condition call m →
      ∃ m', enter call m = .ok (0, m') ∧ m'.managerControl.isSome)
    (hbad : ∀ call m code m', enter call m = .ok (code, m') → ¬ condition call m →
      m.managerControl = none ∧ code ≠ 0 ∧ m'.managerControl.isSome)
    (hleave : ∀ m, m.managerControl.isSome →
      ∃ name m', leave m = .ok (name, m') ∧ m'.managerControl = none)
    (memory : ManagerControl × ProcessControl) (calls : List (LifeCall ε)) :
    (lifecycle enter leave).Respecting (Clean enter leave) (Life.unused memory) calls ↔
      (lifecycle enter leave).Respecting (OnEnter condition) (Life.unused memory) calls := by
  constructor
  · refine System.Respecting.imp ?_ (balanced_unused memory)
    intro life call t hlife hcall ht
    have hcond : OnEnter condition life call := hcall.onEnter hbad
    exact ⟨hcond, (hlife.clean_step hgood hleave ht hcond).2⟩
  · refine System.Respecting.imp ?_ (balanced_unused memory)
    intro life call t hlife hcond ht
    exact hlife.clean_step hgood hleave ht hcond

end Repeated

/-- The process has not attached before, and both segments can be opened and mapped. -/
def AttachSucceeds (call : AttachCall) (m : Module) : Prop :=
  m.processControl = none ∧ call.managerSegment.isSome ∧ call.processSegment.isSome

/-- All system calls for the `n + 1` segments succeed. -/
def InitSucceeds (call : Σ n, InitCall n) (_ : Module) : Prop :=
  call.2.manager = .success ∧ ∀ i, call.2.process i = .success

/-- The code of `dynpm_shm_manager_init` is zero exactly when all its system calls have
succeeded, and its blocks are allocated in any case. -/
theorem initPointers_eq (call : Σ n, InitCall n) {m : Module} (h : m.managerControl = none) :
    ∃ code m', initPointers call m = .ok (code, m') ∧ m'.managerControl.isSome ∧
      (code = 0 ↔ InitSucceeds call m) := by
  obtain ⟨n, call⟩ := call
  obtain ⟨hle, hzero⟩ := initSegment_code call.managerPath
    (managerLine (initManagerShm call.args)) call.manager call.names
  have hcode := foldl_initProcess_code call (List.finRange n) (initManager call) hle
  refine ⟨((List.finRange n).foldl (initProcess call) (initManager call)).1,
    { m with
      heap := m.heap + n + 4
      managerControl := some ⟨m.heap, initManagerShm call.args⟩
      processControl := some ⟨m.heap + 1, List.ofFn (initProcessShm call.args)⟩ }, ?_, rfl, ?_⟩
  · simp [initPointers, managerInit, h, Except.map]
  · rw [hcode, InitSucceeds]
    exact and_congr hzero (by simp [List.mem_finRange])

theorem initPointers_of_null {call : Σ n, InitCall n} {m m' : Module} {code : ℤ}
    (h : initPointers call m = .ok (code, m')) : m.managerControl = none := by
  cases hm : m.managerControl with
  | none => rfl
  | some block => simp [initPointers, managerInit, hm, Except.map] at h

theorem unlinkManager_null {m : Module} (h : m.managerControl.isSome) :
    ∃ name m', unlinkManager m = .ok (name, m') ∧ m'.managerControl = none := by
  obtain ⟨block, hblock⟩ := Option.isSome_iff_exists.mp h
  refine ⟨managerShmPath block.contents.jobIndex block.contents.applicationIndex,
    { m with managerControl := none }, ?_, rfl⟩
  simp only [unlinkManager, hblock]

/-- In every sequence of calls of one process, no assertion fails and failed calls leave the
pointers alone if and only if no call fails and, on the side of the processes, none is an attach
after an earlier one: neither the failing exits nor `dynpm_shm_process_detach` reset the
pointers. -/
theorem lifecycle_repeatable_iff (memory : ManagerControl × ProcessControl)
    (attaches : List (LifeCall AttachCall)) (inits : List (LifeCall (Σ n, InitCall n))) :
    (processLife.Respecting (Clean processAttach processDetach) (Life.unused memory) attaches ↔
      processLife.Respecting (OnEnter AttachSucceeds) (Life.unused memory) attaches) ∧
    (managerLife.Respecting (Clean initPointers managerFinalize) (Life.unused memory) inits ↔
      managerLife.Respecting (OnEnter InitSucceeds) (Life.unused memory) inits) := by
  constructor
  · refine lifecycle_clean_iff ?_ ?_ (fun m hm => unlinkManager_null hm) memory attaches
    · rintro call m hnull ⟨hfree, hmanager, hown⟩
      exact processAttach_ok hnull hfree hmanager hown
    · intro call m code m' hm hnot
      obtain ⟨hnull, hsome, ⟨hne, -⟩ | ⟨-, hfree, hown, segment, hsegment, -⟩⟩ :=
        processAttach_cases hm
      · exact ⟨hnull, hne, hsome⟩
      · exact absurd ⟨hfree, by simp [hsegment], hown⟩ hnot
  · refine lifecycle_clean_iff ?_ ?_ (fun m hm => unlinkManager_null hm) memory inits
    · intro call m hnull hcond
      obtain ⟨code, m', hm, hsome, hcode⟩ := initPointers_eq call hnull
      exact ⟨m', by rw [hm, hcode.mpr hcond], hsome⟩
    · intro call m code m' hm hnot
      have hnull := initPointers_of_null hm
      obtain ⟨code', m'', hm', hsome, hcode⟩ := initPointers_eq call hnull
      obtain ⟨rfl, rfl⟩ : code = code' ∧ m' = m'' := by
        simpa using hm.symm.trans hm'
      exact ⟨hnull, fun hzero => hnot (hcode.mp hzero), hsome⟩

/-- An attach before the manager is up. -/
def earlyAttach : AttachCall := ⟨1, 0, 42, fun _ => none, true, true⟩

theorem earlyAttach_not_clean :
    ¬ processLife.Respecting (Clean processAttach processDetach)
        (Life.unused (default, default)) [.enter earlyAttach, .enter earlyAttach] := by
  intro h
  obtain ⟨⟨code, m, hresult, hkeep⟩, -⟩ := h _ rfl
  obtain ⟨hnull, hsome, ⟨hne, -⟩ | ⟨-, -, -, segment, hsegment, -⟩⟩ := processAttach_cases hresult
  · rw [(hkeep hne).1] at hsome
    cases hsome
  · cases hsegment

end Dynpm.Lifecycle
