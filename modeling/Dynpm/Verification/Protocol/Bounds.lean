import Dynpm.Verification.Protocol.ManagerDeterminism
import Dynpm.Verification.Protocol.PayloadRoundTrip

/-! # Accesses outside the frame

The size of a payload is a number that the caller passes or that the peer has sent, and neither the
serialisers nor the deserialisers compare it with the size of the frame. The number of
applications is not compared with the lines that the frame contains either.
-/

namespace Dynpm.Protocol

open Library Library.Stdio

/-! ## Writing a payload -/

namespace PayloadMessage

/-- The text that the serialiser of the message prints. -/
def text (header : Header) : PayloadMessage → List UInt8
  | .dynamicPmLaunch msg => dynamicPmLaunchText header msg
  | .dynamicIoOut msg => dynamicIoOutText header msg
  | .reportProcessData msg => reportProcessDataText header msg

/-- The fields behind the header. -/
def args : PayloadMessage → List Arg
  | .dynamicPmLaunch msg => [.int msg.id, .int msg.type, .int msg.payloadBytes]
  | .dynamicIoOut msg => [.int msg.id, .str msg.host, .int msg.payloadBytes]
  | .reportProcessData msg =>
      [.int msg.id, .int msg.jobIndex, .int msg.applicationIndex, .int msg.malleabilityMode,
        .int msg.payloadBytes]

/-- What the serialiser prints behind the last field. -/
def lineEnd : PayloadMessage → List UInt8
  | .dynamicPmLaunch _ | .dynamicIoOut _ => [32, 10]
  | .reportProcessData _ => [10]

theorem text_eq (header : Header) (msg : PayloadMessage) :
    msg.text header = line (header.args ++ msg.args) ++ msg.lineEnd := by
  cases msg with
  | dynamicPmLaunch msg => exact sprintf_line _ rfl
  | dynamicIoOut msg => exact sprintf_line _ rfl
  | reportProcessData msg => exact sprintf_line _ rfl

theorem isSpace_of_mem_lineEnd (msg : PayloadMessage) : ∀ b ∈ msg.lineEnd, isSpace b = true := by
  cases msg with
  | dynamicPmLaunch msg => simp [lineEnd, isSpace]
  | dynamicIoOut msg => simp [lineEnd, isSpace]
  | reportProcessData msg => simp [lineEnd, isSpace]

theorem serialize_eq (header : Header) (msg : PayloadMessage) (buffer : Frame) :
    msg.serialize header buffer =
      buffer.puts (msg.text header) >>= storePayload msg.payload msg.payloadBytes := by
  cases msg with
  | dynamicPmLaunch msg => rfl
  | dynamicIoOut msg => rfl
  | reportProcessData msg => rfl

end PayloadMessage

/-- The size of the payload that the text of a frame announces. -/
def PayloadKind.announcedBytes (malloc : Garbage) (text : List UInt8) : PayloadKind → ℕ
  | .dynamicPmLaunch => announced malloc "%d %d %d %d %d" [] text 4
  | .dynamicIoOut => announced malloc "%d %d %d %s %d " [256] text 4
  | .reportProcessData => announced malloc "%d %d %d %d %d %d %d" [] text 6

/-- A frame that passes the assertion begins with a string shorter than the offset. -/
theorem length_lt_of_assertText {frame : Frame} (h : assertText frame = .ok ()) :
    0 ∈ frame.bytes ∧ (cstring frame.bytes).length < payloadOffset := by
  obtain ⟨text, htext, hassert⟩ := bind_eq_ok h
  rw [Frame.text] at htext
  split at htext
  · next hnul =>
      obtain rfl := Except.ok.inj htext
      refine ⟨hnul, ?_⟩
      by_contra hlong
      rw [if_neg hlong] at hassert
      exact absurd hassert (by simp [throw, throwThe, MonadExceptOf.throw])
  · exact absurd htext (by simp)

theorem loadPayload_in_bounds_iff {frame : Frame} (h : assertText frame = .ok ())
    (payloadBytes : UInt32) :
    loadPayload payloadBytes frame ≠ .error .outOfBounds ↔
      payloadOffset + payloadBytes.toNat ≤ maxMessageSize := by
  by_cases hpos : 0 < payloadBytes
  · simp only [loadPayload, h, bind, Except.bind, hpos, if_true, Frame.read]
    by_cases hfits : payloadOffset + payloadBytes.toNat ≤ maxMessageSize
    · simp [hfits, pure, Except.pure]
    · simp [hfits]
  · obtain rfl : payloadBytes = 0 := by simpa [UInt32.pos_iff_ne_zero] using hpos
    rw [loadPayload, h]
    exact iff_of_true (by simp [bind, Except.bind, pure, Except.pure]) (by decide)

/-- The argument shared by the three deserialisers: `build` is the message that they return. -/
theorem sscanf_loadPayload_in_bounds_iff {α β : Type} {frame : Frame}
    (h : assertText frame = .ok ()) (malloc : Garbage) {format : String} {capacities : List ℕ}
    (position : ℕ) (build : List Arg → Option (List UInt8) → α) (kind : α → β)
    (hblank : Blank (parseFormat format.toList))
    (hcount : (parseFormat format.toList).count .str ≤ capacities.length)
    (hcapacities : ∀ capacity ∈ capacities, payloadOffset ≤ capacity) :
    kind <$> (frame.sscanf format capacities >>= fun values =>
        loadPayload (malloc.intAt values position) frame >>= fun payload =>
          pure (build values payload)) ≠ .error .outOfBounds ↔
      payloadOffset + announced malloc format capacities (cstring frame.bytes) position ≤
        maxMessageSize := by
  obtain ⟨hnul, hlen⟩ := length_lt_of_assertText h
  have hfits : ¬ Overlong (parseFormat format.toList) capacities (cstring frame.bytes) := by
    apply not_overlong_of_length_lt hcount
    intro capacity hmem
    exact Nat.lt_of_lt_of_le hlen (hcapacities capacity hmem)
  obtain ⟨values, hscan, -⟩ := scan_of_not_overlong hblank hfits
  rw [announced_of_scan malloc hscan, ← loadPayload_in_bounds_iff h, sscanf_eq hnul, hscan]
  simp only [bind, Except.bind]
  cases loadPayload (malloc.intAt values position) frame with
  | error fault => simp [Functor.map, Except.map]
  | ok payload => simp [Functor.map, Except.map, pure, Except.pure]

theorem deserialize_in_bounds_iff (malloc : Garbage) {frame : Frame} (kind : PayloadKind)
    (h : assertText frame = .ok ()) :
    kind.deserialize malloc frame ≠ .error .outOfBounds ↔
      payloadOffset + kind.announcedBytes malloc (cstring frame.bytes) ≤ maxMessageSize := by
  cases kind with
  | dynamicPmLaunch =>
      exact sscanf_loadPayload_in_bounds_iff h malloc 4 (fun values payload =>
        (⟨malloc.intAt values 2, malloc.intAt values 3, malloc.intAt values 4, payload⟩ :
          DynamicPmLaunchMsg)) _ (by decide) (by decide) (by simp)
  | dynamicIoOut =>
      exact sscanf_loadPayload_in_bounds_iff h malloc 4 (fun values payload =>
        (⟨malloc.intAt values 2, malloc.strAt values 3, malloc.intAt values 4, payload⟩ :
          DynamicIoOutMsg)) _ (by decide) (by decide) (by simp [payloadOffset])
  | reportProcessData =>
      exact sscanf_loadPayload_in_bounds_iff h malloc 6 (fun values payload =>
        (⟨malloc.intAt values 2, malloc.intAt values 3, malloc.intAt values 4,
          malloc.intAt values 5, malloc.intAt values 6, payload⟩ : ReportProcessDataMsg)) _
        (by decide) (by decide) (by simp)

/-! ## Reading the lines of the applications -/

/-- The lines that end inside the memory. -/
def linesIn (memory : List UInt8) : List (List UInt8) := tokensIn [13, 10] memory

/-- `strtok` returns the next line and leaves the others. Without a line it returns NULL or leaves
the frame. -/
theorem strtok_linesIn {buffer : Frame} {cursor : ℕ} (hcursor : cursor ≤ buffer.bytes.length) :
    (buffer.strtok [13, 10] cursor = .error .outOfBounds ∧
      linesIn (buffer.bytes.drop cursor) = []) ∨
    ∃ out next, buffer.strtok [13, 10] cursor =
        .ok ((linesIn (buffer.bytes.drop cursor)).head?, out, next) ∧
      next ≤ out.bytes.length ∧
      linesIn (out.bytes.drop next) = (linesIn (buffer.bytes.drop cursor)).tail := by
  have hdelimiters : 0 ∉ ([13, 10] : List UInt8) := by decide
  rcases strtok_tokensIn hdelimiters hcursor with ⟨hfault, _, hnil⟩ | ⟨result, hresult, hadvances⟩
  · refine Or.inl ⟨?_, hnil⟩
    rw [Frame.strtok, hfault]
    rfl
  · refine Or.inr ⟨buffer.terminate result.overwritten, result.cursor, ?_, ?_, ?_⟩
    · rw [Frame.strtok, hresult, linesIn, ← hadvances.token_eq]
      rfl
    · rw [Frame.length_eq, ← buffer.length_eq]
      exact hadvances.cursor_le
    · rw [buffer.terminate_bytes result]
      exact hadvances.left_eq

/-- The loop over the applications scans a line that the frame does not contain: `strtok` has
returned NULL or has left the frame, after it has found a line for each application before. What
`sscanf` makes of these lines does not end the loop. -/
inductive ScansMissingLine : ℕ → Frame → ℕ → Prop
  | null {remaining cursor next : ℕ} {buffer out : Frame}
      (hstrtok : buffer.strtok [13, 10] cursor = .ok (none, out, next)) :
      ScansMissingLine (remaining + 1) buffer cursor
  | outside {remaining cursor : ℕ} {buffer : Frame}
      (hstrtok : buffer.strtok [13, 10] cursor = .error .outOfBounds) :
      ScansMissingLine (remaining + 1) buffer cursor
  | next {remaining cursor next : ℕ} {buffer out : Frame} {line : List UInt8}
      (hstrtok : buffer.strtok [13, 10] cursor = .ok (some line, out, next))
      (hrest : ScansMissingLine remaining out next) :
      ScansMissingLine (remaining + 1) buffer cursor

/-- A loop that scans a missing line does not return. -/
theorem ScansMissingLine.not_ok {remaining cursor : ℕ} {buffer : Frame}
    (h : ScansMissingLine remaining buffer cursor) (malloc : ℕ → Garbage) (app : ℕ) :
    ∃ fault, deserializeApplications malloc remaining app buffer cursor = .error fault := by
  induction h generalizing app with
  | null hstrtok =>
      rw [deserializeApplications, hstrtok]
      exact ⟨.nullPointer, rfl⟩
  | outside hstrtok =>
      rw [deserializeApplications, hstrtok]
      exact ⟨.outOfBounds, rfl⟩
  | @next _ _ _ _ _ line hstrtok _ ih =>
      obtain ⟨fault, hfault⟩ := ih (app + 1)
      rw [deserializeApplications, hstrtok, ok_bind]
      dsimp only
      cases hscan : scanLine (some line) "%d %d %d %s" [512] with
      | error fault' => exact ⟨fault', rfl⟩
      | ok values =>
          refine ⟨fault, ?_⟩
          simp only [ok_bind, hfault, error_bind]

/-- A loop that dereferences a null pointer scans a missing line. -/
theorem scansMissingLine_of_nullPointer {malloc : ℕ → Garbage} {remaining app cursor : ℕ}
    {buffer : Frame} (hcursor : cursor ≤ buffer.bytes.length)
    (h : deserializeApplications malloc remaining app buffer cursor = .error .nullPointer) :
    ScansMissingLine remaining buffer cursor := by
  induction remaining generalizing app buffer cursor with
  | zero => exact absurd h (by simp [deserializeApplications])
  | succ remaining ih =>
      rcases strtok_linesIn hcursor with ⟨hfault, _⟩ | ⟨out, next, hstrtok, hnext, _⟩
      · exact .outside hfault
      · cases hhead : (linesIn (buffer.bytes.drop cursor)).head? with
        | none => exact .null (hhead ▸ hstrtok)
        | some line =>
            rw [hhead] at hstrtok
            rw [deserializeApplications, hstrtok] at h
            simp only [bind, Except.bind, scanLine_application] at h
            by_cases hlong : Overlong applicationDirectives [512] line
            · rw [scan_of_overlong blank_applicationDirectives hlong] at h
              exact absurd h (by simp)
            · obtain ⟨values, hscan, -⟩ := scan_of_not_overlong blank_applicationDirectives hlong
              refine .next hstrtok (@ih (app + 1) next out hnext ?_)
              simp only [hscan] at h
              cases hrest : deserializeApplications malloc remaining (app + 1) out next with
              | error fault => simpa [hrest] using h
              | ok result => simp [hrest, pure, Except.pure] at h

/-- The number of applications that the first line announces. The scan goes on behind a hostname of
any length that a frame can hold, also where it exceeds its buffer of 256 bytes. -/
def announcedLines (malloc : ℕ → Garbage) (first : List UInt8) : ℕ :=
  announced (malloc 0) "%d %d %d %s %d %d" [maxMessageSize] first 5

/-- Where the hostname fits its buffer, this is the number that the deserialiser stores. -/
theorem announcedLines_eq (malloc : ℕ → Garbage) {first : List UInt8} {values : List Arg}
    (hscan : scanLine (some first) "%d %d %d %s %d %d" [256] = .ok values) :
    announcedLines malloc first = ((malloc 0).intAt values 5).toNat := by
  have hlarger : List.Forall₂ (· ≤ ·) [256] [maxMessageSize] := by decide
  exact announced_of_scan (malloc 0) (scan_of_larger hlarger hscan) 5

/-- The deserialiser of the registration scans an application line that the frame does not
contain. -/
def ScansOutside (malloc : ℕ → Garbage) (frame : Frame) : Prop :=
  ∃ first out next, frame.strtok [13, 10] 0 = .ok (some first, out, next) ∧
    ScansMissingLine (announcedLines malloc first) out next

/-- A deserialiser that scans such a line does not return. -/
theorem ScansOutside.not_ok {malloc : ℕ → Garbage} {frame : Frame}
    (h : ScansOutside malloc frame) :
    ∃ fault, deserializeRegisterProcessManagerMsg malloc frame = .error fault := by
  obtain ⟨first, out, next, hstrtok, hmissing⟩ := h
  rw [deserializeRegisterProcessManagerMsg, hstrtok, ok_bind]
  dsimp only
  cases hscan : scanLine (some first) "%d %d %d %s %d %d" [256] with
  | error fault => exact ⟨fault, rfl⟩
  | ok values =>
      rw [announcedLines_eq malloc hscan] at hmissing
      obtain ⟨fault, hfault⟩ := hmissing.not_ok malloc 0
      refine ⟨fault, ?_⟩
      simp only [ok_bind, hfault, error_bind]

/-- A deserialiser that finds a first line and dereferences a null pointer scans such a line. -/
theorem scansOutside_of_nullPointer {malloc : ℕ → Garbage} {frame out : Frame}
    {first : List UInt8} {next : ℕ}
    (hstrtok : frame.strtok [13, 10] 0 = .ok (some first, out, next))
    (h : deserializeRegisterProcessManagerMsg malloc frame = .error .nullPointer) :
    ScansOutside malloc frame := by
  refine ⟨first, out, next, hstrtok, ?_⟩
  have hcursor : next ≤ out.bytes.length := by
    rcases @strtok_linesIn frame 0 (Nat.zero_le _) with
      ⟨hfault, _⟩ | ⟨out', next', hstrtok', hnext, _⟩
    · exact absurd (hstrtok.symm.trans hfault) (by simp)
    · simp only [hstrtok, Except.ok.injEq, Prod.mk.injEq] at hstrtok'
      obtain ⟨_, rfl, rfl⟩ := hstrtok'
      exact hnext
  rw [deserializeRegisterProcessManagerMsg, hstrtok, ok_bind] at h
  by_cases hlong : Overlong managerDirectives [256] first
  · simp only [scanLine_manager, scan_of_overlong blank_managerDirectives hlong, error_bind] at h
    exact absurd h (by simp)
  · obtain ⟨values, hscan, -⟩ := scan_of_not_overlong blank_managerDirectives hlong
    rw [announcedLines_eq malloc ((scanLine_manager first).trans hscan)]
    simp only [scanLine_manager, hscan, ok_bind] at h
    apply @scansMissingLine_of_nullPointer malloc _ 0 _ _ hcursor
    cases hloop : deserializeApplications malloc ((malloc 0).intAt values 5).toNat 0 out next with
    | error fault => simpa [hloop, error_bind] using h
    | ok result => simp [hloop, ok_bind, pure, Except.pure] at h

end Dynpm.Protocol
