import Dynpm.Verification.Shm.Frame

/-! # Capacity of the manager's segment

`dynpm_shm_manager_write` compares the size of a payload with `payload_max` by `<`. The last byte
of the mapping is never used, and nothing is written past it.
-/

namespace Dynpm.Shm

open Library

variable {n : ℕ}

/-- The length of the mapping of the manager's segment. -/
def InitArgs.mappedBytes (args : InitArgs n) : ℤ := (args.managerShmPages * 4096).toInt

/-- A size that leaves room for the control line and does not fill the mapping. -/
def InitArgs.Accepts (args : InitArgs n) (payloadBytes : Int32) : Prop :=
  1 ≤ payloadBytes.toInt ∧ 64 + payloadBytes.toInt < args.mappedBytes

/-! ## Sizes -/

section

variable {args : InitArgs n}

/-- A mapping consists of whole pages. -/
theorem mappedBytes_ge (h : 0 < args.mappedBytes) : 4096 ≤ args.mappedBytes := by
  have hmul : args.mappedBytes = (args.managerShmPages.toInt * 4096).bmod (2 ^ 32) :=
    Int32.toInt_mul _ _
  have hdvd : (4096 : ℤ) ∣ args.mappedBytes := by
    rw [hmul, Int.bmod_def]
    split <;> omega
  omega

/-- `payload_max` does not wrap. -/
theorem payloadMax_eq (h : 0 < args.mappedBytes) :
    ((initManagerShm args).payloadMax.toNat : ℤ) = args.mappedBytes - 64 := by
  have hge := mappedBytes_ge h
  have hle : args.mappedBytes ≤ 2 ^ 31 - 1 := Int32.toInt_le _
  have hsub : (args.managerShmPages * 4096 - 64).toInt = args.mappedBytes - 64 := by
    have h64 : (64 : Int32).toInt = 64 := rfl
    rw [Int32.toInt_sub, h64]
    exact Int.bmod_eq_of_le (by change _ ≤ args.mappedBytes - 64; omega)
      (by change args.mappedBytes - 64 < _; omega)
  have hcast := toNat_toUInt32_of_nonneg (args.managerShmPages * 4096 - 64) (by omega)
  change ((args.managerShmPages * 4096 - 64).toUInt32.toNat : ℤ) = _
  omega

/-- The test at the entry of `dynpm_shm_manager_write`. -/
theorem accepts_iff (h : 0 < args.mappedBytes) (payloadBytes : Int32) :
    0 < payloadBytes ∧ payloadBytes.toUInt32 < (initManagerShm args).payloadMax ↔
      args.Accepts payloadBytes := by
  have hmax := payloadMax_eq h
  rw [Int32.lt_iff_toInt_lt, UInt32.lt_iff_toNat_lt, InitArgs.Accepts]
  change 0 < payloadBytes.toInt ∧ _ ↔ _
  constructor
  · rintro ⟨hpos, hlt⟩
    rw [toNat_toUInt32_of_nonneg payloadBytes hpos.le] at hlt
    omega
  · rintro ⟨hpos, hlt⟩
    rw [toNat_toUInt32_of_nonneg payloadBytes (by omega)]
    omega

/-- What is missing between the test and the mapping is the one size that fills it. -/
theorem accepts_exact_iff (h : 0 < args.mappedBytes) (payloadBytes : Int32) :
    (args.Accepts payloadBytes ↔
        1 ≤ payloadBytes.toInt ∧ 64 + payloadBytes.toInt ≤ args.mappedBytes) ↔
      64 + payloadBytes.toInt ≠ args.mappedBytes := by
  have hge := mappedBytes_ge h
  rw [InitArgs.Accepts]
  omega

end

/-! ## Writing within the mapping -/

/-- The write that is under way has passed the test of its size. -/
structure WithinInv (args : InitArgs n) (s : State n) : Prop where
  line : LineInv args s
  accepts : ∀ wargs ∈ s.pc.writing, args.Accepts wargs.payloadBytes

theorem payloadMax_of_lineInv {args : InitArgs n} {s : State n} (h : LineInv args s) :
    s.managerControl.payloadMax = (initManagerShm args).payloadMax := by
  have hmax := congrArg ManagerControl.payloadMax h.manager
  exact hmax

theorem WithinInv.step {args : InitArgs n} (hmapped : 0 < args.mappedBytes) {s t : State n}
    {a : Action n} (h : WithinInv args s) (ht : step s a = some t) : WithinInv args t := by
  refine ⟨h.line.step ht, ?_⟩
  intro wargs hwargs
  rcases (stepFrame_of_step ht).writing wargs hwargs with hbefore | hsize
  · exact h.accepts wargs hbefore
  · rw [payloadMax_of_lineInv h.line] at hsize
    exact (accepts_iff hmapped wargs.payloadBytes).mp hsize

/-- The payload copy stays within the mapping. -/
theorem WithinInv.transmitted_le {args : InitArgs n} {s : State n} (h : WithinInv args s)
    {wargs : WriteArgs} {entry : ManagerSegment × UInt32} (hpc : s.pc = .writeControl wargs entry) :
    64 + (wargs.transmitted.1.length : ℤ) ≤ args.mappedBytes := by
  have haccepts := h.accepts wargs (by simp [hpc, ManagerPc.writing])
  have hlength : wargs.transmitted.1.length ≤ wargs.payloadBytes.toInt.toNat :=
    List.length_take_le _ _
  rw [InitArgs.Accepts] at haccepts
  omega

/-! ## Completing a write -/

/-- The next copy of a call of the manager. -/
def Action.isCopy : Action n → Bool
  | .manager => true
  | _ => false

/-- A write begun in `s`, after `k` copies. Every process that the manager has looked at was
ready. -/
inductive Writing (s : State n) (wargs : WriteArgs) (k : ℕ) (t : State n) : Prop where
  | readReady (entry : ManagerSegment × UInt32) (hpc : t.pc = .readReady wargs entry k k)
      (hk : k ≤ n) (hcalls : t.calls = s.calls) (hsync : ∀ j, t.InSync j)
  | writeControl (entry : ManagerSegment × UInt32) (hpc : t.pc = .writeControl wargs entry)
      (hk : k = n + 1) (hcalls : t.calls = s.calls)
  | returned (call : WriteCall) (hcode : call.code = 0) (hcalls : s.calls ++ [call] <+: t.calls)

theorem Writing.copy {s t u : State n} {wargs : WriteArgs} {k : ℕ} (h : Writing s wargs k t)
    (hinv : Invariant t) (hu : managerStep t = some u) : Writing s wargs (k + 1) u := by
  cases h with
  | readReady entry hpc hk hcalls hsync =>
      unfold managerStep at hu
      simp only [hpc] at hu
      split at hu
      · next hi =>
          obtain rfl := Option.some.inj hu
          have hready := (hinv.readCount_iff ⟨k, hi⟩).mpr (hsync ⟨k, hi⟩)
          refine .readReady entry ?_ hi hcalls hsync
          simp only [allProcessesReadReady]
          rw [if_pos hready]
      · next hi =>
          have hkn : k = n := by omega
          rw [if_pos hkn] at hu
          obtain rfl := Option.some.inj hu
          exact .writeControl entry rfl (by omega) hcalls
  | writeControl entry hpc hk hcalls =>
      unfold managerStep at hu
      simp only [hpc] at hu
      obtain rfl := Option.some.inj hu
      obtain ⟨call, hcode, hcall⟩ : ∃ call : WriteCall, call.code = 0 ∧
          (Shm.writeControl wargs entry t).calls = t.calls ++ [call] := ⟨_, by rfl, rfl⟩
      refine .returned call hcode ?_
      rw [hcall, hcalls]
  | returned call hcode hcalls =>
      exact .returned call hcode (hcalls.trans (stepFrame_of_managerStep hu).calls)

/-- Processes that have read everything have nothing left to read. -/
theorem Writing.moveProcess {s t : State n} {wargs : WriteArgs} {k : ℕ} (h : Writing s wargs k t)
    {i : Fin n} {p : Process} {base : ProcessControl} (hinv : Invariant (t.moveProcess i p base))
    (hgrow : (t.process i).obtained.length ≤ p.obtained.length) :
    Writing s wargs k (t.moveProcess i p base) := by
  cases h with
  | readReady entry hpc hk hcalls hsync =>
      refine .readReady entry hpc hk hcalls ?_
      intro j
      have hle := (hinv.process j).in_order.length_le
      have hj := hsync j
      by_cases hji : j = i
      · subst j
        simp only [State.InSync, process_moveProcess, Function.update_self,
          written_moveProcess] at hle hj ⊢
        omega
      · simpa [State.InSync, hji] using hj
  | writeControl entry hpc hk hcalls => exact .writeControl entry hpc hk hcalls
  | returned call hcode hcalls => exact .returned call hcode hcalls

/-- The manager calls nothing else before the write has returned. -/
theorem Writing.call {s t u : State n} {wargs : WriteArgs} {k : ℕ} {a : Action n}
    (h : Writing s wargs k t) (hidle : t.pc = .idle) (hu : step t a = some u) :
    Writing s wargs k u := by
  cases h with
  | readReady entry hpc hk hcalls hsync => exact absurd (hidle.symm.trans hpc) (by simp)
  | writeControl entry hpc hk hcalls => exact absurd (hidle.symm.trans hpc) (by simp)
  | returned call hcode hcalls =>
      exact .returned call hcode (hcalls.trans (stepFrame_of_step hu).calls)

theorem Writing.step {s t u : State n} {wargs : WriteArgs} {k : ℕ} {a : Action n}
    (h : Writing s wargs k t) (hinv : Invariant t) (hu : step t a = some u) :
    Writing s wargs (k + if a.isCopy then 1 else 0) u := by
  cases step_derivation hu with
  | managerWrite args hpc => exact h.call hpc hu
  | managerGetMalleabilityMode hpc => exact h.call hpc hu
  | manager hu => exact h.copy hinv hu
  | process hp =>
      have hcopy : a.isCopy = false := by cases hp <;> rfl
      rw [hcopy, if_neg Bool.false_ne_true]
      exact h.moveProcess (hinv.processStep hp) hp.obtained_le

theorem Writing.run {s t u : State n} {wargs : WriteArgs} {k : ℕ} {actions : List (Action n)}
    (h : Writing s wargs k t) (hinv : Invariant t) (hrun : (system n).run t actions = some u) :
    Writing s wargs (k + actions.countP Action.isCopy) u := by
  induction actions generalizing t k with
  | nil =>
      obtain rfl := Option.some.inj hrun
      exact h
  | cons a actions ih =>
      obtain ⟨v, hv, hrun⟩ := Option.bind_eq_some_iff.mp hrun
      have hrest := ih (h.step hinv hv) (hinv.step hv) hrun
      rwa [List.countP_cons, Nat.add_comm (actions.countP _), ← Nat.add_assoc]

/-- A write under way can go on, and has not much left to do. -/
theorem Writing.returned_or {s t : State n} {wargs : WriteArgs} {k : ℕ}
    (h : Writing s wargs k t) :
    (∃ call, call.code = 0 ∧ s.calls ++ [call] <+: t.calls) ∨
      t.calls = s.calls ∧ k < n + 2 ∧ ∃ u, managerStep t = some u := by
  cases h with
  | readReady entry hpc hk hcalls hsync =>
      refine Or.inr ⟨hcalls, by omega, ?_⟩
      simp only [managerStep, hpc]
      split
      · exact ⟨_, rfl⟩
      · rw [if_pos (by omega)]
        exact ⟨_, rfl⟩
  | writeControl entry hpc hk hcalls =>
      refine Or.inr ⟨hcalls, by omega, ?_⟩
      simp only [managerStep, hpc]
      exact ⟨_, rfl⟩
  | returned call hcode hcalls => exact Or.inl ⟨call, hcode, hcalls⟩

/-! ## The capacity -/

/-- A write of the given payload returns, after `n + 2` copies at most; it returns zero if and only
if the payload and the control line fit into the mapping, and no copy goes past it. -/
structure WriteExact (args : InitArgs n) (s : State n) (wargs : WriteArgs) : Prop where
  returns : ∀ during t, (system n).run s (.managerWrite wargs :: during) = some t →
    (∃ call, s.calls ++ [call] <+: t.calls) ∨
      during.countP Action.isCopy < n + 2 ∧ ∃ u, (system n).step t .manager = some u
  code : ∀ during t call, (system n).run s (.managerWrite wargs :: during) = some t →
    s.calls ++ [call] <+: t.calls →
    (call.code = 0 ↔
      1 ≤ wargs.payloadBytes.toInt ∧ 64 + wargs.payloadBytes.toInt ≤ args.mappedBytes)
  within : ∀ during t, (system n).run s (.managerWrite wargs :: during) = some t →
    ∀ wargs' entry, t.pc = .writeControl wargs' entry →
    64 + (wargs'.transmitted.1.length : ℤ) ≤ args.mappedBytes

section

variable {args : InitArgs n} {s : State n} {wargs : WriteArgs}

/-- What is known in a state that a run from the initialization has reached. -/
theorem withinInv_of_run (hmapped : 0 < args.mappedBytes) {area : List UInt8}
    {memory : Fin n → ManagerControl × ProcessControl} {before : List (Action n)}
    (hrun : (system n).run (managerInit args area memory) before = some s) :
    WithinInv args s := by
  refine System.invariant_of_run (fun t a u ht hu => ht.step hmapped hu) ?_ hrun
  exact ⟨lineInv_managerInit args area memory, by simp [managerInit, ManagerPc.writing]⟩

/-- At most one call follows the calls completed before. -/
theorem next_call_unique {calls more : List WriteCall} {call call' : WriteCall}
    (h : calls ++ [call] <+: more) (h' : calls ++ [call'] <+: more) : call = call' := by
  have heq := (List.prefix_of_prefix_length_le h h' (by simp)).eq_of_length (by simp)
  simpa using heq

/-- The call of a write as the first step of a run. -/
theorem run_managerWrite {t : State n} {during : List (Action n)}
    (hrun : (system n).run s (.managerWrite wargs :: during) = some t) :
    (system n).run (managerWrite wargs s) during = some t := by
  obtain ⟨u, hu, hrun⟩ := Option.bind_eq_some_iff.mp hrun
  have hstep : step s (.managerWrite wargs) = some u := hu
  cases step_derivation hstep with
  | managerWrite args hpc => exact hrun
  | process hp => nomatch hp

/-- A write that passes the test returns zero. -/
theorem writeExact_of_accepts (hinv : Invariant s) (hsync : ∀ i, s.InSync i)
    (hentry : managerWrite wargs s = { s with pc := .readReady wargs s.published 0 0 })
    (hfits : 1 ≤ wargs.payloadBytes.toInt ∧ 64 + wargs.payloadBytes.toInt ≤ args.mappedBytes)
    (hidle : s.pc = .idle)
    (hwithin : ∀ during t, (system n).run s (.managerWrite wargs :: during) = some t →
      WithinInv args t) : WriteExact args s wargs := by
  have hwriting : ∀ during t, (system n).run s (.managerWrite wargs :: during) = some t →
      Writing s wargs (during.countP Action.isCopy) t := by
    intro during t hrun
    have hstart : Writing s wargs 0 (managerWrite wargs s) := by
      rw [hentry]
      exact .readReady s.published rfl (Nat.zero_le n) rfl hsync
    have hrest := hstart.run (hinv.managerWrite hidle wargs) (run_managerWrite hrun)
    rwa [Nat.zero_add] at hrest
  refine ⟨?_, ?_, ?_⟩
  · intro during t hrun
    rcases (hwriting during t hrun).returned_or with ⟨call, -, hcalls⟩ | ⟨-, hcount, hgoes⟩
    · exact Or.inl ⟨call, hcalls⟩
    · exact Or.inr ⟨hcount, hgoes⟩
  · intro during t call hrun hcalls
    rcases (hwriting during t hrun).returned_or with ⟨call', hcode, hcalls'⟩ | ⟨hnone, -, -⟩
    · rw [next_call_unique hcalls hcalls', hcode]
      exact ⟨fun _ => hfits, fun _ => rfl⟩
    · rw [hnone] at hcalls
      exact absurd hcalls.length_le (by simp)
  · intro during t hrun wargs' entry hpc
    exact (hwithin during t hrun).transmitted_le hpc

/-- A write that does not pass the test has returned at once. -/
theorem writeExact_iff_of_refused {code : ℤ} (hcode : code ≠ 0) (hidle : s.pc = .idle)
    (hentry : managerWrite wargs s = s.returnWrite wargs s.published code)
    (hwithin : ∀ during t, (system n).run s (.managerWrite wargs :: during) = some t →
      WithinInv args t) :
    WriteExact args s wargs ↔
      ¬ (1 ≤ wargs.payloadBytes.toInt ∧ 64 + wargs.payloadBytes.toInt ≤ args.mappedBytes) := by
  have hreturned : ∀ during t, (system n).run s (.managerWrite wargs :: during) = some t →
      ∃ call, call.code = code ∧ s.calls ++ [call] <+: t.calls := by
    intro during t hrun
    have hcalls := calls_run (run_managerWrite hrun)
    rw [hentry] at hcalls
    exact ⟨_, by rfl, hcalls⟩
  constructor
  · intro h hfits
    have hrun : (system n).run s [.managerWrite wargs] = some (managerWrite wargs s) := by
      simp [System.run, system, step, hidle]
    obtain ⟨call, hcall, hcalls⟩ := hreturned [] _ hrun
    exact hcode (hcall.symm.trans ((h.code [] _ call hrun hcalls).mpr hfits))
  · intro hnot
    refine ⟨?_, ?_, ?_⟩
    · intro during t hrun
      obtain ⟨call, -, hcalls⟩ := hreturned during t hrun
      exact Or.inl ⟨call, hcalls⟩
    · intro during t call hrun hcalls
      obtain ⟨call', hcall', hcalls'⟩ := hreturned during t hrun
      rw [next_call_unique hcalls hcalls', hcall']
      exact ⟨fun h => absurd h hcode, fun h => absurd h hnot⟩
    · intro during t hrun wargs' entry hpc
      exact (hwithin during t hrun).transmitted_le hpc

end

/-- The capacity is used exactly for every size but the one that fills the mapping: a payload of
`payload_max` bytes is refused. -/
theorem write_exact_iff (args : InitArgs n) (area : List UInt8)
    (memory : Fin n → ManagerControl × ProcessControl) (before : List (Action n)) (s : State n)
    (wargs : WriteArgs) (hmapped : 0 < args.mappedBytes)
    (hrun : (system n).run (managerInit args area memory) before = some s) (hidle : s.pc = .idle)
    (hsync : ∀ i, s.InSync i) (hpayload : wargs.payload.isSome) :
    WriteExact args s wargs ↔ 64 + wargs.payloadBytes.toInt ≠ args.mappedBytes := by
  have hstart := withinInv_of_run hmapped hrun
  have hwithin : ∀ during t, (system n).run s (.managerWrite wargs :: during) = some t →
      WithinInv args t := by
    intro during t hrun
    exact System.invariant_of_run (fun t a u ht hu => ht.step hmapped hu) hstart hrun
  have haccepts := accepts_iff hmapped wargs.payloadBytes
  have hexact := accepts_exact_iff hmapped wargs.payloadBytes
  rw [← payloadMax_of_lineInv hstart.line] at haccepts
  obtain ⟨bytes, hbytes⟩ := Option.isSome_iff_exists.mp hpayload
  by_cases h : args.Accepts wargs.payloadBytes
  · have hentry : managerWrite wargs s = { s with pc := .readReady wargs s.published 0 0 } := by
      simp only [managerWrite, hbytes]
      exact if_pos (haccepts.mpr h)
    have hfits : 1 ≤ wargs.payloadBytes.toInt ∧
        64 + wargs.payloadBytes.toInt ≤ args.mappedBytes := ⟨h.1, h.2.le⟩
    refine iff_of_true ?_ (hexact.mp (iff_of_true h hfits))
    exact writeExact_of_accepts hstart.line.invariant hsync hentry hfits hidle hwithin
  · have hentry : managerWrite wargs s = s.returnWrite wargs s.published (-3) := by
      simp only [managerWrite, hbytes]
      exact if_neg fun hsize => h (haccepts.mp hsize)
    rw [writeExact_iff_of_refused (by decide) hidle hentry hwithin, ← hexact]
    simp only [h, false_iff]

/-- Two of the 4032 bytes behind the control line of a single page. -/
theorem write_exact_two_bytes :
    WriteExact ⟨1, 0, 1, 1, fun _ => 42, 41⟩ sampleInit ⟨some [7, 8], 2, by decide⟩ :=
  (write_exact_iff _ [] (fun _ => (default, default)) [] sampleInit _ (by decide) rfl rfl
    (fun _ => rfl) rfl).mpr (by decide)

/-- A payload that fills the page. -/
def fullPayload : WriteArgs where
  payload := some (List.replicate 4032 0)
  payloadBytes := 4032
  readable := by
    rintro bytes ⟨⟩
    rw [List.length_replicate]
    decide

theorem full_payload_refused :
    ¬ WriteExact ⟨1, 0, 1, 1, fun _ => 42, 41⟩ sampleInit fullPayload ∧
      (initManagerShm (⟨1, 0, 1, 1, fun _ => 42, 41⟩ : InitArgs 1)).payloadMax = 4032 := by
  refine ⟨?_, rfl⟩
  intro h
  have hrun : (system 1).run sampleInit [.managerWrite fullPayload] =
      some (sampleInit.returnWrite fullPayload sampleInit.published (-3)) := rfl
  have hcode := h.code [] _ _ hrun List.prefix_rfl
  exact absurd (hcode.mpr (by decide)) (by decide)

end Dynpm.Shm
