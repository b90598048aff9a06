import Dynpm.Verification.Shm.Steps
import Dynpm.Library.Word
import Mathlib.Data.List.Infix

/-! # Exactly-once delivery over shared memory

The manager's counter, the shared counters and the private counters of the processes all
count payloads modulo `2 ^ 32`. A process is never more than one payload behind, so comparing
the counters decides whether a payload is still to be read.
-/

namespace Dynpm.Shm

open Library

variable {n : ℕ}

/-! ## Completed writes -/

@[simp] theorem written_returnWrite (s : State n) (args : WriteArgs)
    (entry : ManagerSegment × UInt32) (code : ℤ) :
    (s.returnWrite args entry code).written =
      if code = 0 then s.written ++ [args.transmitted] else s.written := by
  by_cases h : code = 0 <;> simp [State.written, State.returnWrite, h]

/-- A positive size that passes the signed test is the number of bytes transmitted. -/
theorem transmitted_length (args : WriteArgs) {bytes : List UInt8}
    (hp : args.payload = some bytes) (hpos : 0 < args.payloadBytes) :
    args.transmitted.1.length = args.transmitted.2.toNat := by
  have hread := args.readable bytes (by simp [hp])
  have hsign : 0 < args.payloadBytes.toInt := by simpa [Int32.lt_iff_toInt_lt] using hpos
  have hcast := toNat_toUInt32_of_nonneg args.payloadBytes hsign.le
  simp only [WriteArgs.transmitted, hp, Option.getD_some, List.length_take, hcast]
  omega

/-! ## One process -/

/-- How far a process is with the payloads written so far. Its private and its shared read
count agree with the payloads it has obtained, and a read under way is about the only payload
that is missing. -/
structure ProcessInv (written : List Payload) (payloadBytes : UInt32)
    (p : Process) (base : ProcessControl) : Prop where
  in_order : p.obtained <+: written
  behind : written.length ≤ p.obtained.length + 1
  base_count : base.readCount = UInt32.ofNat p.obtained.length
  own_count : p.pc ≠ .detached → p.pc ≠ .attaching → p.pc ≠ .failed →
    p.processControl.readCount = UInt32.ofNat p.obtained.length
  reading : p.pc = .readPayload → p.obtained.length + 1 = written.length ∧
    p.managerControl.payloadBytes = payloadBytes
  publishing : ∀ buffer, p.pc = .publishRead buffer →
    p.obtained ++ [(buffer, p.managerControl.payloadBytes)] = written
  not_missed : p.missed = false

namespace ProcessInv

variable {written : List Payload} {payloadBytes : UInt32} {p : Process} {base : ProcessControl}

theorem attach (h : ProcessInv written payloadBytes p base) (segment : ManagerSegment)
    (mapped : Bool) : ProcessInv written payloadBytes (processAttach segment mapped p) base := by
  cases mapped <;>
    exact ⟨h.in_order, h.behind, h.base_count, by simp [processAttach],
      by simp [processAttach], by simp [processAttach], h.not_missed⟩

theorem attachOwn (h : ProcessInv written payloadBytes p base) (mapped : Bool) :
    ProcessInv written payloadBytes (attachOwn base mapped p) base := by
  cases mapped with
  | false =>
      exact ⟨h.in_order, h.behind, h.base_count, by simp [Shm.attachOwn],
        by simp [Shm.attachOwn], by simp [Shm.attachOwn], h.not_missed⟩
  | true =>
      exact ⟨h.in_order, h.behind, h.base_count, fun _ _ _ => h.base_count,
        by simp [Shm.attachOwn], by simp [Shm.attachOwn], h.not_missed⟩

/-- An attached process that calls `dynpm_shm_process_read` finds itself in sync or exactly
one payload behind. -/
theorem read (h : ProcessInv written payloadBytes p base) (hpc : p.pc = .idle)
    (segment : ManagerSegment) (hcount : segment.control.writeCount = UInt32.ofNat written.length)
    (hbytes : segment.control.payloadBytes = payloadBytes) :
    ProcessInv written payloadBytes (processRead segment p) base := by
  have hown := h.own_count (by simp [hpc]) (by simp [hpc]) (by simp [hpc])
  have hle := h.in_order.length_le
  unfold processRead
  by_cases hsync : p.obtained.length = written.length
  · rw [if_pos (by rw [hown, hcount, hsync])]
    exact ⟨h.in_order, h.behind, h.base_count, h.own_count, by simp [hpc],
      by simp [hpc], h.not_missed⟩
  · have hnext : written.length = p.obtained.length + 1 := by
      have := h.behind
      omega
    rw [if_neg, if_pos]
    · exact ⟨h.in_order, h.behind, h.base_count, fun _ _ _ => hown,
        fun _ => ⟨hnext.symm, hbytes⟩, by simp, h.not_missed⟩
    · rw [hown, hcount, hnext]
      exact ofNat_eq_ofNat_sub_one _
    · rw [hown, hcount, ofNat_eq_ofNat_iff hle h.behind]
      exact hsync

/-- The payload copy fetches the last payload written, as long as the manager has not begun
to overwrite it. -/
theorem readPayload (h : ProcessInv written payloadBytes p base) (hpc : p.pc = .readPayload)
    (segment : ManagerSegment)
    (harea : ∀ last ∈ written.getLast?,
      last = (load segment.payload 0 payloadBytes.toNat, payloadBytes)) :
    ProcessInv written payloadBytes (readPayload segment p) base := by
  obtain ⟨hlen, hbytes⟩ := h.reading hpc
  have hown := h.own_count (by simp [hpc]) (by simp [hpc]) (by simp [hpc])
  refine ⟨h.in_order, h.behind, h.base_count, fun _ _ _ => hown, by simp [Shm.readPayload],
    ?_, h.not_missed⟩
  intro buffer hbuffer
  obtain rfl : load segment.payload 0 p.managerControl.payloadBytes.toNat = buffer := by
    simpa [Shm.readPayload] using hbuffer
  obtain ⟨rest, hrest⟩ := h.in_order
  obtain ⟨last, rfl⟩ : ∃ last, rest = [last] := by
    apply List.length_eq_one_iff.mp
    have := congrArg List.length hrest
    simp only [List.length_append] at this
    omega
  have hlast := harea last (by simp [← hrest])
  simp only [Shm.readPayload, hbytes, ← hlast]
  exact hrest

theorem publishRead (h : ProcessInv written payloadBytes p base) {buffer : List UInt8}
    (hpc : p.pc = .publishRead buffer) :
    ProcessInv written payloadBytes (publishRead buffer p) (readLine p) := by
  have hown := h.own_count (by simp [hpc]) (by simp [hpc]) (by simp [hpc])
  have hobtained := h.publishing buffer hpc
  have hcount :
      (readLine p).readCount = UInt32.ofNat (Shm.publishRead buffer p).obtained.length := by
    simp [readLine, Shm.publishRead, hown, ofNat_add_one]
  refine ⟨?_, ?_, hcount, fun _ _ _ => hcount, by simp [Shm.publishRead],
    by simp [Shm.publishRead], h.not_missed⟩
  · simp [Shm.publishRead, hobtained]
  · simp [Shm.publishRead, hobtained]

theorem setMalleabilityMode (h : ProcessInv written payloadBytes p base) (hpc : p.pc = .idle)
    (mode : UInt32) :
    ProcessInv written payloadBytes { p with processControl := modeLine mode p }
      (modeLine mode p) := by
  have hown := h.own_count (by simp [hpc]) (by simp [hpc]) (by simp [hpc])
  exact ⟨h.in_order, h.behind, hown, fun _ _ _ => hown, by simp [hpc], by simp [hpc],
    h.not_missed⟩

/-- A process that is in sync stays consistent when one more payload is published. -/
theorem published (h : ProcessInv written payloadBytes p base)
    (hsync : p.obtained.length = written.length) (payload : Payload) :
    ProcessInv (written ++ [payload]) payload.2 p base := by
  have heq : p.obtained = written := h.in_order.eq_of_length hsync
  refine ⟨?_, ?_, h.base_count, h.own_count, ?_, ?_, h.not_missed⟩
  · rw [heq]
    exact List.prefix_append _ _
  · simp [hsync]
  · intro hpc
    have := (h.reading hpc).1
    omega
  · intro buffer hpc
    have := congrArg List.length (h.publishing buffer hpc)
    simp only [List.length_append, List.length_singleton] at this
    omega

end ProcessInv

/-! ## The whole system -/

/-- Process `i` has obtained every payload written so far. -/
def State.InSync (s : State n) (i : Fin n) : Prop :=
  (s.process i).obtained.length = s.written.length

/-- What the program point of a write says about the processes already found ready. -/
def PcInv (s : State n) : ManagerPc → Prop
  | .idle => True
  | .syncMeta _ _ => True
  | .readReady args entry i ready =>
      args.transmitted.1.length = args.transmitted.2.toNat ∧ entry = s.published ∧
        i ≤ n ∧ ready ≤ i ∧ (ready = i → ∀ j : Fin n, j < i → s.InSync j)
  | .writeControl args _ =>
      load s.segment.payload 0 args.transmitted.2.toNat = args.transmitted.1 ∧
        ∀ j, s.InSync j

/-- The invariant of the channel. The payload area holds the last payload written except
while the manager is replacing it, which it does only when every process has read it. -/
structure Invariant (s : State n) : Prop where
  line : s.segment.control = s.managerControl
  count : s.managerControl.writeCount = UInt32.ofNat s.written.length
  failed_write : ∀ call ∈ s.calls, call.code ≠ 0 → call.after = call.before
  area : (∀ args entry, s.pc ≠ .writeControl args entry) → ∀ last ∈ s.written.getLast?,
    last = (load s.segment.payload 0 s.managerControl.payloadBytes.toNat,
      s.managerControl.payloadBytes)
  pc : PcInv s s.pc
  process : ∀ i, ProcessInv s.written s.managerControl.payloadBytes (s.process i) (s.processBase i)

theorem invariant_managerInit (args : InitArgs n) (area : List UInt8)
    (memory : Fin n → ManagerControl × ProcessControl) :
    Invariant (managerInit args area memory) where
  line := rfl
  count := rfl
  failed_write := by simp [managerInit]
  area := by simp [managerInit, State.written]
  pc := trivial
  process i := ⟨List.nil_prefix, by simp [managerInit, State.written], rfl, by simp [managerInit],
    by simp [managerInit], by simp [managerInit], rfl⟩

/-! ### Steps of a process -/

/-- A process that moves consistently keeps the invariant: it cannot leave the set of
processes the manager has found ready. -/
theorem Invariant.moveProcess {s : State n} (h : Invariant s) (i : Fin n) {p : Process}
    {base : ProcessControl}
    (hp : ProcessInv s.written s.managerControl.payloadBytes p base)
    (hgrow : (s.process i).obtained.length ≤ p.obtained.length) :
    Invariant (s.moveProcess i p base) := by
  have hsync : ∀ j, s.InSync j → (s.moveProcess i p base).InSync j := by
    intro j hj
    by_cases hji : j = i
    · subst j
      have hle := hp.in_order.length_le
      simp only [State.InSync] at hj
      simp only [State.InSync, process_moveProcess, Function.update_self, written_moveProcess]
      omega
    · simpa [State.InSync, hji] using hj
  refine ⟨h.line, h.count, h.failed_write, h.area, ?_, ?_⟩
  · have hpc := h.pc
    change PcInv (s.moveProcess i p base) s.pc
    cases hs : s.pc with
    | idle => trivial
    | syncMeta => trivial
    | readReady args entry k ready =>
        rw [hs] at hpc
        obtain ⟨hlen, hentry, hk, hready, hall⟩ := hpc
        exact ⟨hlen, hentry, hk, hready, fun he j hj => hsync j (hall he j hj)⟩
    | writeControl args entry =>
        rw [hs] at hpc
        exact ⟨hpc.1, fun j => hsync j (hpc.2 j)⟩
  · intro j
    by_cases hji : j = i
    · subst j
      simpa using hp
    · simpa [hji] using h.process j

/-- The shared write count is the number of payloads written. -/
theorem Invariant.segment_count {s : State n} (h : Invariant s) :
    s.segment.control.writeCount = UInt32.ofNat s.written.length := by
  rw [h.line, h.count]

/-- While a process is about to copy a payload, the manager is not replacing it. -/
theorem Invariant.area_of_reading {s : State n} (h : Invariant s) {i : Fin n}
    (hpc : (s.process i).pc = .readPayload) :
    ∀ last ∈ s.written.getLast?,
      last = (load s.segment.payload 0 s.managerControl.payloadBytes.toNat,
        s.managerControl.payloadBytes) := by
  apply h.area
  intro args entry hwrite
  have hsync : PcInv s (.writeControl args entry) := hwrite ▸ h.pc
  have hbehind := ((h.process i).reading hpc).1
  have := hsync.2 i
  simp only [State.InSync] at this
  omega

/-! ### Steps of the manager -/

/-- A write that returns without success changes nothing that is shared. -/
theorem Invariant.returnWrite {s : State n} (h : Invariant s) (args : WriteArgs)
    {entry : ManagerSegment × UInt32} {code : ℤ} (hcode : code ≠ 0)
    (hentry : entry = s.published)
    (hidle : ∀ args entry, s.pc ≠ .writeControl args entry) :
    Invariant (s.returnWrite args entry code) := by
  have hwritten : (s.returnWrite args entry code).written = s.written := by simp [hcode]
  refine ⟨h.line, ?_, ?_, ?_, trivial, ?_⟩
  · rw [hwritten]
    exact h.count
  · intro call hcall hne
    rcases List.mem_append.mp hcall with hcall | hcall
    · exact h.failed_write call hcall hne
    · obtain rfl := List.mem_singleton.mp hcall
      exact hentry.symm
  · intro _
    rw [hwritten]
    exact h.area hidle
  · rw [hwritten]
    exact h.process

theorem Invariant.managerWrite {s : State n} (h : Invariant s) (hpc : s.pc = .idle)
    (args : WriteArgs) : Invariant (managerWrite args s) := by
  have hidle : ∀ args entry, s.pc ≠ .writeControl args entry := by simp [hpc]
  rcases managerWrite_cases args s with ⟨code, hcode, heq⟩ | ⟨⟨bytes, hp⟩, hsize, heq⟩
  · rw [heq]
    exact h.returnWrite args hcode rfl hidle
  · rw [heq]
    refine ⟨h.line, h.count, h.failed_write, fun _ => h.area hidle, ?_, h.process⟩
    refine ⟨transmitted_length args hp hsize.1, rfl, Nat.zero_le _, le_rfl, ?_⟩
    intro _ j hj
    exact absurd hj (Nat.not_lt_zero _)

/-- Comparing a freshly copied line with the private write count tells whether its process is
in sync, although both are only known modulo `2 ^ 32`. -/
theorem Invariant.readCount_iff {s : State n} (h : Invariant s) (i : Fin n) :
    (s.processBase i).readCount = s.managerControl.writeCount ↔ s.InSync i := by
  rw [(h.process i).base_count, h.count]
  exact ofNat_eq_ofNat_iff (h.process i).in_order.length_le (h.process i).behind

theorem Invariant.allProcessesReadReady {s : State n} (h : Invariant s) {args : WriteArgs}
    {entry : ManagerSegment × UInt32} {i : ℕ} {ready : ℕ}
    (hpc : s.pc = .readReady args entry i ready)
    (hi : i < n) : Invariant (allProcessesReadReady args entry ⟨i, hi⟩ ready s) := by
  have hinv : PcInv s (.readReady args entry i ready) := hpc ▸ h.pc
  obtain ⟨hlen, hentry, -, hready, hall⟩ := hinv
  have hidle : ∀ args entry, s.pc ≠ .writeControl args entry := by simp [hpc]
  refine ⟨h.line, h.count, h.failed_write, fun _ => h.area hidle, ?_, h.process⟩
  refine ⟨hlen, hentry, hi, ?_, ?_⟩
  · change (if (s.processBase ⟨i, hi⟩).readCount = s.managerControl.writeCount
      then ready + 1 else ready) ≤ i + 1
    split <;> omega
  · intro he j hj
    change (if (s.processBase ⟨i, hi⟩).readCount = s.managerControl.writeCount
      then ready + 1 else ready) = i + 1 at he
    change j.val < i + 1 at hj
    split at he
    · rename_i hcount
      by_cases hji : j.val = i
      · obtain rfl : j = ⟨i, hi⟩ := Fin.ext hji
        exact (h.readCount_iff _).mp hcount
      · exact hall (by omega) j (by omega)
    · omega

theorem Invariant.writePayload {s : State n} (h : Invariant s) {args : WriteArgs}
    {entry : ManagerSegment × UInt32} {i : ℕ} {ready : ℕ}
    (hpc : s.pc = .readReady args entry i ready)
    (hi : ¬ i < n) (hready : ready = n) : Invariant (writePayload args entry s) := by
  have hinv : PcInv s (.readReady args entry i ready) := hpc ▸ h.pc
  obtain ⟨hlen, -, hin, -, hall⟩ := hinv
  refine ⟨h.line, h.count, h.failed_write, ?_, ⟨?_, ?_⟩, h.process⟩
  · intro hne
    exact absurd rfl (hne args entry)
  · rw [← hlen]
    exact load_store_self _ _ _ (Nat.zero_le _)
  · intro j
    exact hall (by omega) j (by omega)

theorem Invariant.writeControl {s : State n} (h : Invariant s) {args : WriteArgs}
    {entry : ManagerSegment × UInt32} (hpc : s.pc = .writeControl args entry) :
    Invariant (writeControl args entry s) := by
  have hinv : PcInv s (.writeControl args entry) := hpc ▸ h.pc
  obtain ⟨hload, hsync⟩ := hinv
  have hwritten : (Shm.writeControl args entry s).written = s.written ++ [args.transmitted] := by
    simp [Shm.writeControl]
    rfl
  refine ⟨rfl, ?_, ?_, ?_, trivial, ?_⟩
  · rw [hwritten, List.length_append, List.length_singleton, ofNat_add_one, ← h.count]
    rfl
  · intro call hcall hne
    rcases List.mem_append.mp hcall with hcall | hcall
    · exact h.failed_write call hcall hne
    · obtain rfl := List.mem_singleton.mp hcall
      exact absurd rfl hne
  · intro _ last hlast
    rw [hwritten] at hlast
    obtain rfl : args.transmitted = last := by simpa using hlast
    exact Prod.ext hload.symm rfl
  · intro i
    rw [hwritten]
    exact (h.process i).published (hsync i) args.transmitted

/-- The two metadata operations of the manager change its read count at most. -/
theorem Invariant.syncMeta {s t : State n} (h : Invariant s)
    (hidle : ∀ args entry, s.pc ≠ .writeControl args entry)
    (hsegment : t.segment.payload = s.segment.payload)
    (hline : t.segment.control = t.managerControl)
    (hcount : t.managerControl.writeCount = s.managerControl.writeCount)
    (hbytes : t.managerControl.payloadBytes = s.managerControl.payloadBytes)
    (hcalls : t.calls = s.calls) (hprocess : t.process = s.process)
    (hbase : t.processBase = s.processBase)
    (hpc : PcInv t t.pc) : Invariant t := by
  have hwritten : t.written = s.written := by simp [State.written, hcalls]
  refine ⟨hline, ?_, ?_, ?_, hpc, ?_⟩
  · rw [hcount, hwritten, h.count]
  · rw [hcalls]
    exact h.failed_write
  · intro _
    rw [hwritten, hbytes, hsegment]
    exact h.area hidle
  · rw [hwritten, hbytes, hprocess, hbase]
    exact h.process

theorem Invariant.getMalleabilityMode {s t : State n} (h : Invariant s) {i metaUpdates : ℕ}
    (hpc : s.pc = .syncMeta i metaUpdates) (ht : getMalleabilityMode metaUpdates s = some t) :
    Invariant t := by
  have hidle : ∀ args entry, s.pc ≠ .writeControl args entry := by simp [hpc]
  obtain ⟨result, rfl | rfl, -⟩ := getMalleabilityMode_cases ht
  · exact h.syncMeta hidle rfl h.line rfl rfl rfl rfl rfl trivial
  · exact h.syncMeta hidle rfl rfl rfl rfl rfl rfl rfl trivial

theorem Invariant.managerStep {s t : State n} (h : Invariant s) (ht : managerStep s = some t) :
    Invariant t := by
  cases managerStep_derivation ht with
  | readReady hpc hi => exact h.allProcessesReadReady hpc hi
  | writePayload hpc hi hready => exact h.writePayload hpc hi hready
  | @notReady args entry i ready hpc hi hready =>
      have hinv : PcInv s (.readReady args entry i ready) := hpc ▸ h.pc
      exact h.returnWrite args (by decide) hinv.2.1 (by simp [hpc])
  | writeControl hpc => exact h.writeControl hpc
  | syncMeta hpc hi => exact h.syncMeta (by simp [hpc]) rfl h.line rfl rfl rfl rfl rfl trivial
  | getMalleabilityMode hpc hi ht => exact h.getMalleabilityMode hpc ht

/-! ### Runs -/

theorem Invariant.processStep {s : State n} (h : Invariant s) {a : Action n} {i : Fin n}
    {p : Process} {base : ProcessControl} (hp : ProcessDerivation s i a p base) :
    Invariant (s.moveProcess i p base) := by
  refine h.moveProcess i ?_ hp.obtained_le
  have hprocess := h.process i
  cases hp with
  | processAttach mapped hpc => exact hprocess.attach _ mapped
  | attachOwn mapped hpc => exact hprocess.attachOwn mapped
  | processRead hpc => exact hprocess.read hpc _ h.segment_count (by rw [h.line])
  | readPayload hpc => exact hprocess.readPayload hpc _ (h.area_of_reading hpc)
  | publishRead buffer hpc => exact hprocess.publishRead hpc
  | processSetMalleabilityMode mode hpc => exact hprocess.setMalleabilityMode hpc mode

theorem Invariant.step {s t : State n} {a : Action n} (h : Invariant s)
    (ht : step s a = some t) : Invariant t := by
  cases step_derivation ht with
  | managerWrite args hpc => exact h.managerWrite hpc args
  | managerGetMalleabilityMode hpc =>
      exact h.syncMeta (by simp [hpc]) rfl h.line rfl rfl rfl rfl rfl trivial
  | manager ht => exact h.managerStep ht
  | process hp => exact h.processStep hp

theorem invariant_of_reachable {s : State n} (h : (system n).Reachable s) : Invariant s := by
  refine h.invariant ?_ ?_
  · rintro s ⟨args, area, memory, rfl⟩
    exact invariant_managerInit args area memory
  · intro s a t hs ht
    exact hs.step ht

/-- In every reachable state each process has obtained a prefix of the payloads written,
which lacks at most the last one; no read has found a message missing, and the writes that
were refused have left the segment and the write count alone. -/
theorem broadcast_exactly_once {s : State n} (h : (system n).Reachable s) :
    (∀ i, (s.process i).obtained <+: s.written ∧
      s.written.length ≤ (s.process i).obtained.length + 1 ∧
      (s.process i).missed = false) ∧
    ∀ call ∈ s.calls, call.code ≠ 0 → call.after = call.before := by
  have hinv := invariant_of_reachable h
  refine ⟨?_, hinv.failed_write⟩
  intro i
  have hp := hinv.process i
  exact ⟨hp.in_order, hp.behind, hp.not_missed⟩

/-- A manager with one page per segment and one process. -/
def sampleInit : State 1 :=
  managerInit ⟨1, 0, 1, 1, fun _ => 42, 41⟩ [] fun _ => (default, default)

/-- A write of two bytes that the process reads after a late attach. -/
def sampleRun : List (Action 1) :=
  [.managerWrite ⟨some [7, 8], 2, by decide⟩, .manager, .manager, .processAttach 0 true, .manager,
    .attachOwn 0 true, .processRead 0, .readPayload 0, .publishRead 0]

theorem broadcast_exactly_once_sample :
    ∃ s : State 1, (system 1).run sampleInit sampleRun = some s ∧
      (s.process 0).obtained = [([7, 8], 2)] ∧ (s.process 0).obtained <+: s.written := by
  have hstart : (system 1).Reachable sampleInit := .initial ⟨_, _, _, rfl⟩
  refine ⟨_, rfl, rfl, ?_⟩
  have hrun : (system 1).run sampleInit sampleRun = some _ := rfl
  exact ((broadcast_exactly_once (hstart.run hrun)).1 0).1

end Dynpm.Shm
