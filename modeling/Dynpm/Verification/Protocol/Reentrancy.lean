import Dynpm.Model.Decoders
import Dynpm.Verification.Protocol.Capacities
import Dynpm.Verification.Protocol.ManagerDeterminism

/-! # Effects of `strtok`

The decoder of the process manager registration takes its frame apart with `strtok`. The calls
overwrite the frame, which no other decoder does, and they keep their position in a cursor that
all threads share.
-/

namespace Dynpm.Protocol

open Library Library.Stdio

/-! ## The frame after decoding -/

/-- What a decoder returns. -/
inductive Decoded where
  | header (header : Header)
  | text (msg : TextMessage)
  | resourceOffer (msg : ResourceOfferMsg)
  | payload (msg : PayloadMessage)
  | registerProcessManager (msg : RegisterProcessManagerMsg)

namespace Message

/-- The matching deserialiser of a message, with what it returns and the frame that it leaves. All
but the last only call `sscanf` and `memcpy` on the frame. These two take it as `const`, so they
cannot write to it, and the frame is left as it was. -/
def decode (malloc : ℕ → Garbage) (frame : Frame) : Message → Except Fault (Decoded × Frame)
  | .header => (deserializeHeader (malloc 0) frame).map fun h => (.header h, frame)
  | .text msg => (msg.kind.deserialize (malloc 0) frame).map fun m => (.text m, frame)
  | .resourceOffer _ =>
      (deserializeResourceOfferMsg (malloc 0) frame).map fun m => (.resourceOffer m, frame)
  | .payload msg => (msg.kind.deserialize (malloc 0) frame).map fun m => (.payload m, frame)
  | .registerProcessManager _ =>
      (deserializeRegisterProcessManagerMsg malloc frame).map fun result =>
        (.registerProcessManager result.1, result.2)

/-- The registration of a process manager. -/
def IsRegistration : Message → Prop
  | .registerProcessManager _ => True
  | .header | .text _ | .resourceOffer _ | .payload _ => False

end Message

/-- The bytes that are NUL stay so. -/
def KeepsNuls (frame out : Frame) : Prop :=
  ∀ position : ℕ, frame.bytes[position]? = some 0 → out.bytes[position]? = some 0

theorem KeepsNuls.trans {frame middle out : Frame} (h : KeepsNuls frame middle)
    (h' : KeepsNuls middle out) : KeepsNuls frame out :=
  fun position hzero => h' position (h position hzero)

theorem keepsNuls_of_strtok {frame out : Frame} {delimiters : List UInt8} {cursor next : ℕ}
    {line : Option (List UInt8)} (h : frame.strtok delimiters cursor = .ok (line, out, next)) :
    KeepsNuls frame out := by
  obtain ⟨result, _, hresult⟩ := bind_eq_ok h
  obtain ⟨-, hout, -⟩ : line = result.token ∧ out = frame.terminate result.overwritten ∧
      next = result.cursor := by simpa using (Except.ok.inj hresult).symm
  intro position hzero
  rw [hout, frame.terminate_bytes, Strtok.left]
  cases result.overwritten with
  | none => exact hzero
  | some overwritten =>
      have hlt : position < frame.bytes.length := by
        by_contra hle
        rw [List.getElem?_eq_none (Nat.not_lt.mp hle)] at hzero
        exact absurd hzero (by simp)
      rw [List.getElem?_set]
      split
      · next heq =>
          rw [heq, if_pos hlt]
      · exact hzero

/-- One iteration of the loop over the applications that returns. -/
theorem deserializeApplications_succ {malloc : ℕ → Garbage} {remaining app : ℕ}
    {frame after : Frame} {cursor : ℕ} {applications : List Application}
    (h : deserializeApplications malloc (remaining + 1) app frame cursor =
      .ok (applications, after)) :
    ∃ line middle next values others, frame.strtok [13, 10] cursor = .ok (line, middle, next) ∧
      scanLine line "%d %d %d %s" [512] = .ok values ∧
      deserializeApplications malloc remaining (app + 1) middle next = .ok (others, after) ∧
      applications = applicationOf (malloc (app + 1)) values :: others := by
  obtain ⟨⟨line, middle, next⟩, hstrtok, h⟩ := bind_eq_ok h
  obtain ⟨values, hscan, h⟩ := bind_eq_ok h
  obtain ⟨⟨others, last⟩, hloop, h⟩ := bind_eq_ok h
  obtain ⟨rfl, rfl⟩ := Prod.mk.inj (Except.ok.inj h)
  exact ⟨line, middle, next, values, others, hstrtok, hscan, hloop, rfl⟩

theorem keepsNuls_of_deserializeApplications {malloc : ℕ → Garbage} {remaining app : ℕ}
    {frame out : Frame} {cursor : ℕ} {applications : List Application}
    (h : deserializeApplications malloc remaining app frame cursor = .ok (applications, out)) :
    KeepsNuls frame out := by
  induction remaining generalizing app frame cursor applications with
  | zero =>
      obtain ⟨-, rfl⟩ : [] = applications ∧ frame = out := by simpa using Except.ok.inj h
      exact fun _ hzero => hzero
  | succ remaining ih =>
      obtain ⟨_, _, _, _, _, hstrtok, _, hloop, _⟩ := deserializeApplications_succ h
      exact (keepsNuls_of_strtok hstrtok).trans (ih hloop)

namespace RegisterProcessManagerMsg

variable {header : Header} {msg : RegisterProcessManagerMsg}

/-- The frame of a registration begins with its first line, whatever the loop over the applications
has appended. -/
theorem holds_of_appendApplications {applications : List Application} (indices : List ℕ)
    {frame out : Frame} {front : List UInt8} (hfront : frame.Holds front)
    (h : indices.foldlM (appendApplication applications) frame = .ok out) :
    ∃ lines, out.Holds (front ++ lines) := by
  induction indices generalizing frame front with
  | nil =>
      obtain rfl := Except.ok.inj h
      exact ⟨[], by rwa [List.append_nil]⟩
  | cons app indices ih =>
      rw [List.foldlM_cons] at h
      obtain ⟨middle, happend, h⟩ := bind_eq_ok h
      rw [appendApplication] at happend
      split at happend
      · exact absurd happend (by simp)
      · next application _ =>
          dsimp only at happend
          split at happend
          · have hmiddle := hfront.holds_of_strcat
              (fun b hb => applicationText_ne_zero hb) happend
            obtain ⟨lines, hlines⟩ := ih hmiddle h
            exact ⟨applicationText application ++ lines, by rwa [← List.append_assoc]⟩
          · exact absurd happend (by simp)

theorem holds_of_serialize {app : Int32} {buffer out : Frame}
    (h : serializeRegisterProcessManagerMsg app header msg buffer = .ok out) :
    ∃ lines, out.Holds (registerProcessManagerText header msg ++ lines) := by
  obtain ⟨first, hputs, h⟩ := bind_eq_ok h
  have hfirst := Frame.holds_of_puts (fun b hb => registerProcessManagerText_ne_zero hb) hputs
  exact holds_of_appendApplications _ hfirst h

/-- The text begins with a number, and the first line has an end. -/
theorem head_not_delimiter (lines : List UInt8) {b : UInt8}
    (hb : b ∈ (registerProcessManagerText header msg ++ lines).head?) :
    b ∉ ([13, 10] : List UInt8) := by
  obtain ⟨more, htext⟩ : ∃ more, registerProcessManagerText header msg ++ lines =
      printInt header.sourceType ++ more := by
    rw [registerProcessManagerText_eq, args, Header.args, List.cons_append, line, Arg.text]
    simp only [List.append_assoc]
    exact ⟨_, rfl⟩
  have hmem : b ∈ printInt header.sourceType := by
    rw [htext] at hb
    cases hprint : printInt header.sourceType with
    | nil => exact absurd hprint (printInt_ne_nil _)
    | cons first others =>
        rw [hprint, List.cons_append, List.head?_cons, Option.mem_some_iff] at hb
        exact hb ▸ List.mem_cons_self
  have hspace := isSpace_of_mem_printInt hmem
  intro hdelimiter
  simp only [List.mem_cons, List.not_mem_nil, or_false] at hdelimiter
  rcases hdelimiter with rfl | rfl
  · exact absurd hspace (by decide)
  · exact absurd hspace (by decide)

theorem newline_mem (lines : List UInt8) : 10 ∈ registerProcessManagerText header msg ++ lines := by
  rw [registerProcessManagerText_eq]
  simp

/-- The end of the first line is overwritten for good. -/
theorem frame_changed (malloc : ℕ → Garbage) {frame after : Frame} {lines : List UInt8}
    {received : RegisterProcessManagerMsg}
    (hholds : frame.Holds (registerProcessManagerText header msg ++ lines))
    (hdecode : deserializeRegisterProcessManagerMsg malloc frame = .ok (received, after)) :
    after ≠ frame := by
  obtain ⟨hzero, rest, hbytes⟩ := hholds
  obtain ⟨result, position, hresult, hoverwritten, hlt⟩ :=
    @strtok_cut [13, 10] _ rest (by decide) hzero (fun b hb => head_not_delimiter lines hb)
      ⟨10, newline_mem lines, by decide⟩
  rw [← hbytes] at hresult
  obtain ⟨⟨line, cut, next⟩, hstrtok, hdecode⟩ := bind_eq_ok hdecode
  obtain ⟨values, _, hdecode⟩ := bind_eq_ok hdecode
  obtain ⟨⟨applications, last⟩, hloop, hdecode⟩ := bind_eq_ok hdecode
  obtain ⟨-, rfl⟩ : _ ∧ last = after := by simpa using Except.ok.inj hdecode
  have hlength : position < frame.bytes.length := by
    rw [hbytes, List.length_append]
    omega
  have hcut : cut.bytes[position]? = some 0 := by
    rw [Frame.strtok, hresult] at hstrtok
    obtain ⟨-, rfl, -⟩ : _ ∧ frame.terminate result.overwritten = cut ∧ _ := by
      simpa using Except.ok.inj hstrtok
    rw [hoverwritten, Frame.terminate, List.getElem?_set_self hlength]
  have hafter := keepsNuls_of_deserializeApplications hloop position hcut
  rintro rfl
  rw [hbytes, List.getElem?_append_left hlt] at hafter
  exact hzero 0 (List.mem_of_getElem? hafter) rfl

end RegisterProcessManagerMsg

theorem snd_of_map_eq_ok {α : Type} {f : α → Decoded} {frame after : Frame} {x : Except Fault α}
    {received : Decoded} (h : x.map (fun a => (f a, frame)) = .ok (received, after)) :
    after = frame := by
  obtain ⟨a, _, heq⟩ := map_eq_ok_iff.mp h
  exact (congrArg Prod.snd heq).symm

/-- Decoding leaves a serialised frame as it was, so that it can be decoded again or forwarded, if
and only if the message is not the registration of a process manager. -/
theorem decoding_keeps_frame_iff (app : Int32) (malloc : ℕ → Garbage) (header : Header)
    (buffer : Frame) (msg : Message) {out after : Frame} {received : Decoded}
    (hout : msg.serialize app header buffer = .ok out)
    (hdecode : msg.decode malloc out = .ok (received, after)) :
    (after = out ∧ ∀ malloc', msg.decode malloc' after = msg.decode malloc' out) ↔
      ¬ msg.IsRegistration := by
  have hkept : after = out →
      after = out ∧ ∀ malloc', msg.decode malloc' after = msg.decode malloc' out := by
    rintro rfl
    exact ⟨rfl, fun _ => rfl⟩
  cases msg with
  | header => exact iff_of_true (hkept (snd_of_map_eq_ok hdecode)) id
  | text msg => exact iff_of_true (hkept (snd_of_map_eq_ok hdecode)) id
  | resourceOffer msg => exact iff_of_true (hkept (snd_of_map_eq_ok hdecode)) id
  | payload msg => exact iff_of_true (hkept (snd_of_map_eq_ok hdecode)) id
  | registerProcessManager msg =>
      refine iff_of_false ?_ (not_not_intro trivial)
      obtain ⟨lines, hholds⟩ := RegisterProcessManagerMsg.holds_of_serialize hout
      obtain ⟨⟨manager, last⟩, hmanager, heq⟩ := map_eq_ok_iff.mp hdecode
      obtain rfl : last = after := congrArg Prod.snd heq
      rintro ⟨hkeep, -⟩
      exact RegisterProcessManagerMsg.frame_changed malloc hholds hmanager hkeep

/-- A frame that holds only a header is still there after it has been decoded. -/
theorem header_keeps_frame :
    ∃ out received after, Message.header.serialize 0 ⟨4, 1⟩ zeroFrame = .ok out ∧
      Message.header.decode (fun _ => zeroGarbage) out = .ok (received, after) ∧ after = out := by
  obtain ⟨out, hout, hheader⟩ := serializeHeader_round_trip zeroGarbage zeroFrame ⟨4, 1⟩
  have hdecode : Message.header.decode (fun _ => zeroGarbage) out =
      .ok (.header ⟨4, 1⟩, out) := by
    rw [Message.decode, hheader]
    rfl
  exact ⟨out, _, out, hout, hdecode,
    ((decoding_keeps_frame_iff 0 _ ⟨4, 1⟩ zeroFrame .header hout hdecode).mpr id).1⟩

/-- The registration of a process manager with one application is lost by decoding it: a second
decoding does not find the line of the application. -/
theorem sampleManager_consumed :
    ∃ out received after,
      (Message.registerProcessManager sampleManager).serialize 0 ⟨4, 3⟩ zeroFrame = .ok out ∧
      (Message.registerProcessManager sampleManager).decode (fun _ => zeroGarbage) out =
        .ok (received, after) ∧
      after ≠ out ∧
      (Message.registerProcessManager sampleManager).decode (fun _ => zeroGarbage) after =
        .error .nullPointer := by
  have htwice : ((serializeRegisterProcessManagerMsg 0 ⟨4, 3⟩ sampleManager zeroFrame >>= fun out =>
      deserializeRegisterProcessManagerMsg (fun _ => zeroGarbage) out >>= fun result =>
        deserializeRegisterProcessManagerMsg (fun _ => zeroGarbage) result.2).map
          Prod.fst) = .error .nullPointer := by decide +kernel
  obtain ⟨out, hout, hholds⟩ := sampleManager_wellFormed.serialize_ok 0 zeroFrame
  obtain ⟨after, hdecode⟩ := sampleManager_wellFormed.deserialize_ok (fun _ => zeroGarbage) hholds
  refine ⟨out, .registerProcessManager sampleManager, after, hout, ?_, ?_, ?_⟩
  · rw [Message.decode, hdecode]
    rfl
  · exact RegisterProcessManagerMsg.frame_changed _ hholds hdecode
  · rw [hout] at htwice
    simp only [bind, Except.bind, hdecode] at htwice
    rw [Message.decode]
    cases hagain : deserializeRegisterProcessManagerMsg (fun _ => zeroGarbage) after with
    | error fault =>
        rw [hagain] at htwice
        simpa [Except.map] using htwice
    | ok result =>
        rw [hagain] at htwice
        exact absurd htwice (by simp [Except.map])

/-! ## Two decoders at a time -/

namespace Thread

theorem other_ne (thread : Thread) : thread.other ≠ thread := by
  cases thread <;> decide

theorem eq_or_eq_other (thread t : Thread) : t = thread ∨ t = thread.other := by
  cases thread <;> cases t <;> decide

theorem other_other (thread : Thread) : thread.other.other = thread := by
  cases thread <;> rfl

theorem count_add_count_other (thread : Thread) (schedule : List Thread) :
    schedule.count thread + schedule.count thread.other = schedule.length := by
  induction schedule with
  | nil => rfl
  | cons t schedule ih =>
      have hother := thread.other_ne
      rcases eq_or_eq_other thread t with rfl | rfl
      · rw [List.count_cons_self, List.count_cons_of_ne hother.symm, List.length_cons]
        omega
      · rw [List.count_cons_self, List.count_cons_of_ne hother, List.length_cons]
        omega

end Thread

theorem length_of_deserializeApplications {malloc : ℕ → Garbage} {remaining app cursor : ℕ}
    {frame after : Frame} {applications : List Application}
    (h : deserializeApplications malloc remaining app frame cursor = .ok (applications, after)) :
    applications.length = remaining := by
  induction remaining generalizing app frame cursor applications with
  | zero =>
      obtain ⟨rfl, -⟩ := Prod.mk.inj (Except.ok.inj h)
      rfl
  | succ remaining ih =>
      obtain ⟨_, _, _, _, _, _, _, hloop, rfl⟩ := deserializeApplications_succ h
      rw [List.length_cons, ih hloop]

namespace Decoders

variable {malloc : Thread → ℕ → Garbage} {decoders : Decoders} {thread : Thread}

/-- The number of applications that the first line of a thread has announced. -/
def announced (malloc : Thread → ℕ → Garbage) (thread : Thread) (values : List Arg) : ℕ :=
  ((malloc thread 0).intAt values 5).toNat

/-- A call leaves the rest of the frame in which it stands and its position. -/
def afterCall (decoders : Decoders) (owner : Thread) (buffer : Frame) (cursor : ℕ) : Decoders :=
  { decoders with
    frame := Function.update decoders.frame owner buffer
    saved := some (owner, cursor) }

theorem afterCall_frame (owner : Thread) (buffer : Frame) (cursor : ℕ) :
    (decoders.afterCall owner buffer cursor).frame owner = buffer := Function.update_self _ _ _

theorem strtokFirst_ok {line : Option (List UInt8)} {buffer : Frame} {next : ℕ}
    (h : (decoders.frame thread).strtok [13, 10] 0 = .ok (line, buffer, next)) :
    decoders.strtokFirst thread = .ok (line, decoders.afterCall thread buffer next) := by
  rw [strtokFirst, h]
  rfl

theorem strtokNext_ok {owner : Thread} {cursor : ℕ} (hsaved : decoders.saved = some (owner, cursor))
    {line : Option (List UInt8)} {buffer : Frame} {next : ℕ}
    (h : (decoders.frame owner).strtok [13, 10] cursor = .ok (line, buffer, next)) :
    decoders.strtokNext = .ok (line, decoders.afterCall owner buffer next) := by
  simp only [strtokNext, hsaved, h]
  rfl

theorem progress_of_strtokFirst {line : Option (List UInt8)} {d : Decoders}
    (h : decoders.strtokFirst thread = .ok (line, d)) : d.progress = decoders.progress := by
  obtain ⟨⟨_, _, _⟩, _, h⟩ := bind_eq_ok h
  obtain ⟨-, rfl⟩ := Prod.mk.inj (Except.ok.inj h)
  rfl

theorem progress_of_strtokNext {line : Option (List UInt8)} {d : Decoders}
    (h : decoders.strtokNext = .ok (line, d)) : d.progress = decoders.progress := by
  rw [strtokNext] at h
  split at h
  · exact absurd h (by simp)
  · obtain ⟨⟨_, _, _⟩, _, h⟩ := bind_eq_ok h
    obtain ⟨-, rfl⟩ := Prod.mk.inj (Except.ok.inj h)
    rfl

section

variable {format : String} {capacities : List ℕ} {next : List Arg → Progress}
  {call : Except Fault (Option (List UInt8) × Decoders)} {line : Option (List UInt8)}
  {d : Decoders}

theorem advance_ok {values : List Arg} (hcall : call = .ok (line, d))
    (hscan : scanLine line format capacities = .ok values) :
    decoders.advance thread format capacities call next =
      d.setProgress thread (next values) := by
  simp only [advance, hcall, hscan]

/-- A call whose line cannot be scanned leaves the thread without a message. -/
theorem advance_fault {fault : Fault} (hcall : call = .ok (line, d))
    (hscan : scanLine line format capacities = .error fault) :
    decoders.advance thread format capacities call next =
      d.setProgress thread (.faulted fault) := by
  simp only [advance, hcall, hscan]

theorem advance_progress_other {other : Thread} (hne : other ≠ thread)
    (hcall : ∀ line d, call = .ok (line, d) → d.progress = decoders.progress) :
    (decoders.advance thread format capacities call next).progress other =
      decoders.progress other := by
  cases call with
  | error fault => exact Function.update_of_ne hne _ _
  | ok result =>
      obtain ⟨line, d⟩ := result
      rw [← hcall line d rfl]
      cases hscan : scanLine line format capacities with
      | error fault =>
          rw [advance_fault rfl hscan]
          exact Function.update_of_ne hne _ _
      | ok values =>
          rw [advance_ok rfl hscan]
          exact Function.update_of_ne hne _ _

end

theorem step_started (h : decoders.progress thread = .started) :
    step malloc decoders thread =
      decoders.advance thread "%d %d %d %s %d %d" [256] (decoders.strtokFirst thread)
        fun values => .reading values [] := by
  rw [step, h]

theorem step_reading {values : List Arg} {applications : List Application}
    (h : decoders.progress thread = .reading values applications)
    (hlt : applications.length < announced malloc thread values) :
    step malloc decoders thread =
      decoders.advance thread "%d %d %d %s" [512] decoders.strtokNext fun line =>
        .reading values
          (applications ++ [applicationOf (malloc thread (applications.length + 1)) line]) := by
  rw [step, h]
  exact if_pos hlt

/-- A step leaves the progress of the other thread. -/
theorem step_progress_other {other : Thread} (hne : other ≠ thread) :
    (step malloc decoders thread).progress other = decoders.progress other := by
  rw [step]
  split
  · exact advance_progress_other hne fun _ _ => progress_of_strtokFirst
  · split
    · exact advance_progress_other hne fun _ _ => progress_of_strtokNext
    · rfl
  · rfl

/-- A thread that has faulted stays so. -/
theorem step_faulted {t : Thread} {fault : Fault} (h : decoders.progress t = .faulted fault) :
    (step malloc decoders thread).progress t = .faulted fault := by
  by_cases heq : t = thread
  · subst heq
    rw [step, h]
    exact h
  · rw [step_progress_other heq, h]

/-! ### A thread that runs alone -/

/-- The given thread is about to read the applications that remain, and would read `others` if it
went on alone. -/
structure Reads (malloc : Thread → ℕ → Garbage) (thread : Thread) (values : List Arg)
    (decoders : Decoders) (applications others : List Application) (after : Frame) : Prop where
  progress_eq : decoders.progress thread = .reading values applications
  count_eq : applications.length + others.length = announced malloc thread values
  alone : ∃ cursor, decoders.saved = some (thread, cursor) ∧
    deserializeApplications (malloc thread) others.length applications.length
      (decoders.frame thread) cursor = .ok (others, after)

/-- The other thread and its frame are as before. -/
def Untouched (thread : Thread) (before after : Decoders) : Prop :=
  after.frame thread = before.frame thread ∧ after.progress thread = before.progress thread

theorem Untouched.trans {a b c : Decoders} (h : Untouched thread a b) (h' : Untouched thread b c) :
    Untouched thread a c := ⟨h'.1.trans h.1, h'.2.trans h.2⟩

variable {values : List Arg} {applications others : List Application} {after : Frame}

/-- A call of the thread reads its next application. -/
theorem Reads.step {application : Application}
    (h : Reads malloc thread values decoders applications (application :: others) after) :
    Reads malloc thread values (step malloc decoders thread) (applications ++ [application]) others
        after ∧
      Untouched thread.other decoders (step malloc decoders thread) := by
  obtain ⟨cursor, hsaved, halone⟩ := h.alone
  have hcount := h.count_eq
  rw [List.length_cons] at hcount
  obtain ⟨line, buffer, next, scanned, rest, hstrtok, hscan, hrest, hcons⟩ :=
    deserializeApplications_succ halone
  obtain ⟨happlication, rfl⟩ := List.cons.inj hcons
  rw [step_reading h.progress_eq (by omega), advance_ok (strtokNext_ok hsaved hstrtok) hscan]
  refine ⟨⟨?_, ?_, next, rfl, ?_⟩, ?_, ?_⟩
  · rw [happlication]
    exact Function.update_self _ _ _
  · rw [List.length_append, List.length_singleton]
    omega
  · rw [List.length_append, List.length_singleton]
    dsimp only [setProgress]
    rw [afterCall_frame]
    exact hrest
  · exact Function.update_of_ne thread.other_ne _ _
  · exact Function.update_of_ne thread.other_ne _ _

/-- The thread reads some of its applications. -/
theorem Reads.run {read : List Application}
    (h : Reads malloc thread values decoders applications (read ++ others) after) :
    Reads malloc thread values (run malloc decoders (List.replicate read.length thread))
        (applications ++ read) others after ∧
      Untouched thread.other decoders
        (run malloc decoders (List.replicate read.length thread)) := by
  induction read generalizing decoders applications with
  | nil => exact ⟨by simpa [Decoders.run] using h, rfl, rfl⟩
  | cons application read ih =>
      obtain ⟨hstep, huntouched⟩ := h.step
      obtain ⟨hrun, huntouched'⟩ := ih hstep
      rw [List.append_assoc] at hrun
      exact ⟨hrun, huntouched.trans huntouched'⟩

/-- The first call of a thread, which finds the first line of its own frame. -/
theorem reads_of_started {received : RegisterProcessManagerMsg}
    (hstarted : decoders.progress thread = .started)
    (halone : deserializeRegisterProcessManagerMsg (malloc thread) (decoders.frame thread) =
      .ok (received, after)) :
    ∃ values, Reads malloc thread values (step malloc decoders thread) [] received.applications
        after ∧
      announced malloc thread values = received.applicationCount.toNat ∧
      (Progress.reading values received.applications).message? (malloc thread) = some received ∧
      Untouched thread.other decoders (step malloc decoders thread) := by
  obtain ⟨⟨line, buffer, next⟩, hstrtok, halone⟩ := bind_eq_ok halone
  obtain ⟨values, hscan, halone⟩ := bind_eq_ok halone
  obtain ⟨⟨applications, last⟩, hloop, halone⟩ := bind_eq_ok halone
  obtain ⟨rfl, rfl⟩ := Prod.mk.inj (Except.ok.inj halone)
  have hlength := length_of_deserializeApplications hloop
  rw [step_started hstarted, advance_ok (strtokFirst_ok hstrtok) hscan]
  refine ⟨values, ⟨?_, ?_, next, rfl, ?_⟩, rfl, ?_, ?_, ?_⟩
  · exact Function.update_self _ _ _
  · rw [List.length_nil, Nat.zero_add]
    exact hlength
  · dsimp only [setProgress]
    rw [afterCall_frame, hlength]
    exact hloop
  · exact if_pos hlength
  · exact Function.update_of_ne thread.other_ne _ _
  · exact Function.update_of_ne thread.other_ne _ _

/-- A thread that makes all its calls one after the other returns its message and does not touch
the other one. -/
theorem run_alone {received : RegisterProcessManagerMsg}
    (hstarted : decoders.progress thread = .started)
    (halone : deserializeRegisterProcessManagerMsg (malloc thread) (decoders.frame thread) =
      .ok (received, after)) :
    let last := run malloc decoders
      (List.replicate (received.applicationCount.toNat + 1) thread)
    (last.progress thread).message? (malloc thread) = some received ∧
      Untouched thread.other decoders last := by
  obtain ⟨values, hreads, hcount, hmessage, huntouched⟩ := reads_of_started hstarted halone
  have hlength : received.applications.length = received.applicationCount.toNat := by
    have hsum := hreads.count_eq
    rw [List.length_nil, Nat.zero_add] at hsum
    exact hsum.trans hcount
  have hall := hreads
  rw [← List.append_nil received.applications] at hall
  obtain ⟨hlast, huntouched'⟩ := hall.run
  rw [← hlength, List.replicate_succ]
  refine ⟨?_, huntouched.trans huntouched'⟩
  rw [← hmessage]
  exact congrArg _ hlast.progress_eq

/-! ### Threads that share the cursor -/

/-- The lines behind the saved position. -/
def linesLeft (decoders : Decoders) : List (List UInt8) :=
  match decoders.saved with
  | none => []
  | some (owner, cursor) => linesOf (cstring ((decoders.frame owner).bytes.drop cursor))

/-- Both threads have made their first call, and the calls that they still have to make in the
given schedule are more than the lines behind the position that they share. -/
structure Starving (malloc : Thread → ℕ → Garbage) (schedule : List Thread) (decoders : Decoders) :
    Prop where
  saved : ∃ owner cursor, decoders.saved = some (owner, cursor) ∧
    0 ∈ (decoders.frame owner).bytes.drop cursor
  lines_lt : decoders.linesLeft.length < schedule.length
  reading : ∀ thread, ∃ values applications,
    decoders.progress thread = .reading values applications ∧
      applications.length + schedule.count thread = announced malloc thread values

/-- Some thread has dereferenced a null pointer or overrun a buffer. -/
def Faulted (decoders : Decoders) : Prop :=
  ∃ thread fault, decoders.progress thread = .faulted fault

theorem strtokNext_lines {owner : Thread} {cursor : ℕ}
    (hsaved : decoders.saved = some (owner, cursor))
    (hnul : 0 ∈ (decoders.frame owner).bytes.drop cursor) :
    ∃ d : Decoders, decoders.strtokNext = .ok (decoders.linesLeft.head?, d) ∧
      (∃ cursor', d.saved = some (owner, cursor') ∧ 0 ∈ (d.frame owner).bytes.drop cursor') ∧
      d.linesLeft = decoders.linesLeft.tail ∧ d.progress = decoders.progress := by
  obtain ⟨out, next, hstrtok, hnul', htail⟩ := strtok_lines hnul
  refine ⟨decoders.afterCall owner out next, ?_, ⟨next, rfl, ?_⟩, ?_, rfl⟩
  · rw [strtokNext_ok hsaved hstrtok, linesLeft, hsaved]
  · rwa [afterCall_frame]
  · simp only [linesLeft, hsaved, afterCall, Function.update_self, htail]

/-- A call takes one of the lines, or finds none and faults. -/
theorem Starving.step {schedule : List Thread}
    (h : Starving malloc (thread :: schedule) decoders) :
    Starving malloc schedule (step malloc decoders thread) ∨
      Faulted (step malloc decoders thread) := by
  obtain ⟨owner, cursor, hsaved, hnul⟩ := h.saved
  obtain ⟨values, applications, hprogress, hcount⟩ := h.reading thread
  rw [List.count_cons_self] at hcount
  obtain ⟨d, hcall, ⟨cursor', hsaved', hnul'⟩, hlines, hsame⟩ := strtokNext_lines hsaved hnul
  have hlt := h.lines_lt
  rw [List.length_cons] at hlt
  rw [step_reading hprogress (by omega)]
  cases hscan : scanLine decoders.linesLeft.head? "%d %d %d %s" [512] with
  | error fault =>
      rw [advance_fault hcall hscan]
      exact Or.inr ⟨thread, fault, Function.update_self _ _ _⟩
  | ok scanned =>
      rw [advance_ok hcall hscan]
      have hsome : decoders.linesLeft ≠ [] := by
        intro hnil
        rw [hnil] at hscan
        exact absurd hscan (by simp [scanLine])
      refine Or.inl ⟨⟨owner, cursor', hsaved', hnul'⟩, ?_, ?_⟩
      · change d.linesLeft.length < _
        have hpos := List.length_pos_iff.mpr hsome
        rw [hlines, List.length_tail]
        omega
      · intro t
        rcases thread.eq_or_eq_other t with rfl | rfl
        · refine ⟨values, _, Function.update_self _ _ _, ?_⟩
          rw [List.length_append, List.length_singleton]
          omega
        · obtain ⟨values', applications', hprogress', hcount'⟩ := h.reading thread.other
          rw [List.count_cons_of_ne thread.other_ne.symm] at hcount'
          refine ⟨values', applications', ?_, hcount'⟩
          rw [← hprogress', ← hsame]
          exact Function.update_of_ne thread.other_ne _ _

theorem Faulted.run (schedule : List Thread) (h : Faulted decoders) :
    Faulted (run malloc decoders schedule) := by
  induction schedule generalizing decoders with
  | nil => exact h
  | cons thread schedule ih =>
      obtain ⟨t, fault, hfault⟩ := h
      exact ih ⟨t, fault, step_faulted hfault⟩

/-- Threads that have too few lines left do not both return. -/
theorem Starving.run {schedule : List Thread} (h : Starving malloc schedule decoders) :
    Faulted (run malloc decoders schedule) := by
  induction schedule generalizing decoders with
  | nil => exact absurd h.lines_lt (Nat.not_lt_zero _)
  | cons thread schedule ih =>
      rcases h.step with hstarving | hfaulted
      · exact ih hstarving
      · exact hfaulted.run schedule

/-- The first call of the other thread moves the shared position to its own frame, which has no more
lines than the other thread needs. -/
theorem linesLeft_of_started (hstarted : decoders.progress thread = .started)
    {values : List Arg} {applications others : List Application} {after : Frame}
    (hreads : Reads malloc thread values (step malloc decoders thread) applications others after)
    (hnul : 0 ∈ (decoders.frame thread).bytes) :
    (step malloc decoders thread).linesLeft =
        (linesOf (cstring (decoders.frame thread).bytes)).tail ∧
      ∃ owner cursor, (step malloc decoders thread).saved = some (owner, cursor) ∧
        0 ∈ ((step malloc decoders thread).frame owner).bytes.drop cursor := by
  obtain ⟨out, next, hstrtok, hnul', htail⟩ := @strtok_lines _ 0 hnul
  have hcall := strtokFirst_ok hstrtok
  have hprogress := hreads.progress_eq
  rw [step_started hstarted] at hprogress ⊢
  cases hscan : scanLine (linesOf (cstring ((decoders.frame thread).bytes.drop 0))).head?
      "%d %d %d %s %d %d" [256] with
  | error fault =>
      rw [advance_fault hcall hscan] at hprogress
      exact absurd ((Function.update_self _ _ _).symm.trans hprogress) (by simp)
  | ok scanned =>
      rw [advance_ok hcall hscan]
      refine ⟨?_, thread, next, rfl, ?_⟩
      · rw [List.drop_zero] at htail
        simp only [linesLeft, setProgress, afterCall, Function.update_self, htail]
      · dsimp only [setProgress]
        rwa [afterCall_frame]

/-- The other thread begins while the first one has calls left. -/
theorem starving_of_overlap {received : Thread → RegisterProcessManagerMsg}
    {after : Thread → Frame} (hstarted : ∀ t, decoders.progress t = .started)
    (halone : ∀ t, deserializeRegisterProcessManagerMsg (malloc t) (decoders.frame t) =
      .ok (received t, after t))
    (hlines : ∀ t, 0 ∈ (decoders.frame t).bytes ∧
      (linesOf (cstring (decoders.frame t).bytes)).tail.length ≤
        (received t).applicationCount.toNat)
    {early : ℕ} {rest : List Thread}
    (hthread : early + rest.count thread = (received thread).applicationCount.toNat)
    (hother : rest.count thread.other = (received thread.other).applicationCount.toNat)
    (hleft : 0 < rest.count thread) :
    Starving malloc rest (run malloc decoders
      (List.replicate (early + 1) thread ++ [thread.other])) := by
  obtain ⟨values, hreads, hcount, -, huntouched⟩ :=
    reads_of_started (hstarted thread) (halone thread)
  have hlength := hreads.count_eq
  rw [List.length_nil, Nat.zero_add, hcount] at hlength
  -- the applications that the first thread reads before it is interrupted
  have hread : ((received thread).applications.take early).length = early :=
    List.length_take_of_le (by omega)
  rw [← List.take_append_drop early (received thread).applications] at hreads
  obtain ⟨hpart, huntouched'⟩ := hreads.run
  rw [hread, List.nil_append] at hpart
  rw [hread] at huntouched'
  have hsame := huntouched.trans huntouched'
  have hfirst : run malloc (Decoders.step malloc decoders thread) (List.replicate early thread) =
      run malloc decoders (List.replicate (early + 1) thread) := rfl
  rw [hfirst] at hpart hsame
  have hrun : run malloc decoders (List.replicate (early + 1) thread ++ [thread.other]) =
      Decoders.step malloc (run malloc decoders (List.replicate (early + 1) thread))
        thread.other := by
    rw [run, List.foldl_append]
    rfl
  obtain ⟨values', hreads', hcount', -, huntouched''⟩ := @reads_of_started malloc _ thread.other _ _
    (hsame.2.trans (hstarted thread.other))
    ((congrArg _ hsame.1).trans (halone thread.other))
  obtain ⟨hleftLines, hsaved⟩ := linesLeft_of_started
    (hsame.2.trans (hstarted thread.other)) hreads' (hsame.1 ▸ (hlines thread.other).1)
  rw [hrun]
  refine ⟨hsaved, ?_, ?_⟩
  · have hle := (hlines thread.other).2
    have hsum := thread.count_add_count_other rest
    rw [hleftLines, hsame.1]
    omega
  · intro t
    rcases thread.eq_or_eq_other t with rfl | rfl
    · rw [t.other_other] at huntouched''
      refine ⟨values, _, huntouched''.2.trans hpart.progress_eq, ?_⟩
      rw [hread, hthread, hcount]
    · exact ⟨values', [], hreads'.progress_eq, by rw [List.length_nil, hcount']; omega⟩

end Decoders

/-- One thread makes all its calls before the other one makes its first. -/
def Serial (calls : Thread → ℕ) (schedule : List Thread) : Prop :=
  ∃ thread, schedule =
    List.replicate (calls thread) thread ++ List.replicate (calls thread.other) thread.other

/-- A schedule begins with calls of one thread, behind which the other one comes. -/
theorem exists_first_calls (thread : Thread) (schedule : List Thread) :
    ∃ early rest, thread :: schedule = List.replicate (early + 1) thread ++ rest ∧
      (rest = [] ∨ ∃ rest', rest = thread.other :: rest') := by
  induction schedule with
  | nil => exact ⟨0, [], rfl, Or.inl rfl⟩
  | cons t schedule ih =>
      rcases thread.eq_or_eq_other t with rfl | rfl
      · obtain ⟨early, rest, heq, hrest⟩ := ih
        exact ⟨early + 1, rest, congrArg (t :: ·) heq, hrest⟩
      · exact ⟨0, thread.other :: schedule, rfl, Or.inr ⟨schedule, rfl⟩⟩

/-- Unless these are all its calls, the other thread interrupts it. -/
theorem serial_or_overlap {calls : Thread → ℕ} {schedule : List Thread}
    (hcalls : ∀ thread, schedule.count thread = calls thread) (hpos : ∀ thread, 0 < calls thread) :
    Serial calls schedule ∨ ∃ thread early rest, schedule =
      List.replicate (early + 1) thread ++ thread.other :: rest ∧ early + 1 < calls thread := by
  cases schedule with
  | nil =>
      have hfirst := hcalls .first
      have hfirst' := hpos .first
      rw [List.count_nil] at hfirst
      omega
  | cons thread schedule =>
      obtain ⟨early, rest, heq, hrest⟩ := exists_first_calls thread schedule
      rw [heq] at hcalls ⊢
      have hthread := hcalls thread
      have hother := hcalls thread.other
      have hother' := hpos thread.other
      rw [List.count_append, List.count_replicate_self] at hthread
      rw [List.count_append, List.count_replicate, if_neg (by simpa using thread.other_ne.symm),
        Nat.zero_add] at hother
      rcases hrest with rfl | ⟨rest', rfl⟩
      · rw [List.count_nil] at hother
        omega
      · by_cases hlt : early + 1 < calls thread
        · exact Or.inr ⟨thread, early, rest', rfl, hlt⟩
        · refine Or.inl ⟨thread, ?_⟩
          have hnone : (thread.other :: rest').count thread = 0 := by omega
          have hlength := thread.count_add_count_other (thread.other :: rest')
          have hall : thread.other :: rest' =
              List.replicate (calls thread.other) thread.other := by
            rw [List.eq_replicate_iff]
            refine ⟨by omega, ?_⟩
            intro t ht
            refine (thread.eq_or_eq_other t).resolve_left ?_
            rintro rfl
            exact List.count_eq_zero.mp hnone ht
          have hearly : early + 1 = calls thread := by omega
          rw [hall, hearly]

namespace RegisterProcessManagerMsg

variable {header : Header} {msg : RegisterProcessManagerMsg}

/-- A serialised registration has at most as many lines behind the first one as it announces, and a
decoder that returns has received this number. -/
theorem WellFormed.lines_le (h : msg.WellFormed header) {malloc : ℕ → Garbage} {app : Int32}
    {buffer frame after : Frame} {received : RegisterProcessManagerMsg}
    (hframe : serializeRegisterProcessManagerMsg app header msg buffer = .ok frame)
    (halone : deserializeRegisterProcessManagerMsg malloc frame = .ok (received, after)) :
    0 ∈ frame.bytes ∧
      (linesOf (cstring frame.bytes)).tail.length ≤ received.applicationCount.toNat := by
  obtain ⟨out, hout, hholds⟩ := h.serialize_ok app buffer
  obtain rfl := Except.ok.inj (hout.symm.trans hframe)
  obtain ⟨_, _, _, _, hdecode⟩ := h.deserialize_eq malloc hholds
  obtain ⟨result, _, heq⟩ := map_eq_ok_iff.mp (hdecode.symm.trans halone)
  have hcount : msg.applicationCount = received.applicationCount :=
    congrArg (fun result => result.1.applicationCount) heq
  have hnodes : ∀ application ∈ msg.applications.drop app.toUInt32.toNat,
      Token application.nodes :=
    fun application hmem => (h.applications_fit application (List.mem_of_mem_drop hmem)).1
  refine ⟨hholds.nul_mem, ?_⟩
  rw [hholds.cstring_eq, registerProcessManagerText_eq,
    linesOf_line_append (tokens_args h.hostname_token), List.tail_cons,
    linesOf_applicationLines hnodes, List.length_map, List.length_drop, ← hcount, h.count_eq]
  omega

end RegisterProcessManagerMsg

/-- Two workers that decode registrations at the same time both return the message that they would
return alone if and only if one of them finishes before the other one begins: `strtok` keeps its
position for the whole process, so that the workers share the lines of the frame in which the later
one has begun. -/
theorem concurrent_decoders_iff (malloc : Thread → ℕ → Garbage) (app : Thread → Int32)
    (header : Thread → Header) (msg received : Thread → RegisterProcessManagerMsg)
    (buffer frame after : Thread → Frame) (saved : Option (Thread × ℕ)) (schedule : List Thread)
    (hwell : ∀ thread, (msg thread).WellFormed (header thread))
    (hframe : ∀ thread, serializeRegisterProcessManagerMsg (app thread) (header thread)
      (msg thread) (buffer thread) = .ok (frame thread))
    (halone : ∀ thread, deserializeRegisterProcessManagerMsg (malloc thread) (frame thread) =
      .ok (received thread, after thread))
    (hcalls : ∀ thread,
      schedule.count thread = (received thread).applicationCount.toNat + 1) :
    (∀ thread, ((Decoders.run malloc (.start frame saved) schedule).progress thread).message?
      (malloc thread) = some (received thread)) ↔
    Serial (fun thread => (received thread).applicationCount.toNat + 1) schedule := by
  constructor
  · intro hreturn
    refine (serial_or_overlap hcalls fun _ => Nat.succ_pos _).resolve_right ?_
    rintro ⟨thread, early, rest, rfl, hearly⟩
    have hthread := hcalls thread
    have hother := hcalls thread.other
    rw [List.count_append, List.count_replicate_self,
      List.count_cons_of_ne thread.other_ne] at hthread
    rw [List.count_append, List.count_replicate, if_neg (by simpa using thread.other_ne.symm),
      List.count_cons_self] at hother
    have hstarving := @Decoders.starving_of_overlap malloc (.start frame saved) thread received
      after (fun _ => rfl) halone (fun t => (hwell t).lines_le (hframe t) (halone t)) early rest
      (by omega) (by omega) (by omega)
    obtain ⟨t, fault, hfault⟩ := hstarving.run
    have hreturn' := hreturn t
    rw [← List.singleton_append, ← List.append_assoc, Decoders.run, List.foldl_append] at hreturn'
    exact absurd ((congrArg _ hfault).symm.trans hreturn') (by simp [Progress.message?])
  · rintro ⟨thread, rfl⟩ t
    obtain ⟨hfirst, huntouched⟩ :=
      @Decoders.run_alone malloc (.start frame saved) thread _ _ rfl (halone thread)
    obtain ⟨hsecond, huntouched'⟩ := @Decoders.run_alone malloc _ thread.other _ _
      huntouched.2 ((congrArg _ huntouched.1).trans (halone thread.other))
    rw [Decoders.run, List.foldl_append]
    rcases thread.eq_or_eq_other t with rfl | rfl
    · rw [t.other_other] at huntouched'
      exact (congrArg _ huntouched'.2).trans hfirst
    · exact hsecond

/-- Two workers that decode the same registration one after the other. -/
theorem sampleManagers_decoded :
    ∃ frame after,
      serializeRegisterProcessManagerMsg 0 ⟨4, 3⟩ sampleManager zeroFrame = .ok frame ∧
      deserializeRegisterProcessManagerMsg (fun _ => zeroGarbage) frame =
        .ok (sampleManager, after) ∧
      ∀ thread, ((Decoders.run (fun _ _ => zeroGarbage) (.start (fun _ => frame) none)
        [.first, .first, .second, .second]).progress thread).message? (fun _ => zeroGarbage) =
          some sampleManager := by
  obtain ⟨frame, hframe, hholds⟩ := sampleManager_wellFormed.serialize_ok 0 zeroFrame
  obtain ⟨after, halone⟩ := sampleManager_wellFormed.deserialize_ok (fun _ => zeroGarbage) hholds
  have hcalls : ∀ thread : Thread, [Thread.first, .first, .second, .second].count thread =
      sampleManager.applicationCount.toNat + 1 := by
    intro thread
    cases thread <;> decide
  exact ⟨frame, after, hframe, halone,
    (concurrent_decoders_iff (fun _ _ => zeroGarbage) (fun _ => 0) (fun _ => ⟨4, 3⟩)
      (fun _ => sampleManager) (fun _ => sampleManager) (fun _ => zeroFrame) (fun _ => frame)
      (fun _ => after) none _ (fun _ => sampleManager_wellFormed) (fun _ => hframe)
      (fun _ => halone) hcalls).mpr ⟨.first, rfl⟩⟩

/-- When the workers take turns, the first one reads the application of the second one, which then
finds no line and dereferences the null pointer that `strtok` returns. -/
theorem sampleManagers_interfere :
    ∃ frame after,
      serializeRegisterProcessManagerMsg 0 ⟨4, 3⟩ sampleManager zeroFrame = .ok frame ∧
      deserializeRegisterProcessManagerMsg (fun _ => zeroGarbage) frame =
        .ok (sampleManager, after) ∧
      (Decoders.run (fun _ _ => zeroGarbage) (.start (fun _ => frame) none)
        [.first, .second, .first, .second]).progress .second = .faulted .nullPointer ∧
      ((Decoders.run (fun _ _ => zeroGarbage) (.start (fun _ => frame) none)
        [.first, .second, .first, .second]).progress .second).message? (fun _ => zeroGarbage) ≠
          some sampleManager := by
  have hrun : (serializeRegisterProcessManagerMsg 0 ⟨4, 3⟩ sampleManager zeroFrame).map
      (fun frame => (Decoders.run (fun _ _ => zeroGarbage) (.start (fun _ => frame) none)
        [.first, .second, .first, .second]).progress .second) =
      .ok (.faulted .nullPointer) := by decide +kernel
  obtain ⟨frame, hframe, hholds⟩ := sampleManager_wellFormed.serialize_ok 0 zeroFrame
  obtain ⟨after, halone⟩ := sampleManager_wellFormed.deserialize_ok (fun _ => zeroGarbage) hholds
  rw [hframe] at hrun
  have hfault := Except.ok.inj hrun
  refine ⟨frame, after, hframe, halone, hfault, ?_⟩
  intro hreturn
  exact absurd ((congrArg _ hfault).symm.trans hreturn) (by simp [Progress.message?])

end Dynpm.Protocol
