import Dynpm.Verification.Protocol.Bounds
import Dynpm.Verification.Protocol.RegisterProcessManager

/-! # Sizes of the string buffers

The deserialisers read each string into a buffer of a fixed size, and the serialiser of the
registration prints each application to such a buffer. The serialisers do not compare their strings
with any of these sizes, so that the frame admits strings that the peer has no room for.
-/

namespace Dynpm.Protocol

open Library Library.Stdio

/-! ## Scans of a printed line -/

/-- A scan exceeds a buffer exactly when a string of the text is too long. -/
theorem sscanf_eq_outOfBounds_iff {frame : Frame} {text : List UInt8} (h : frame.Holds text)
    {format : String} (hblank : Blank (parseFormat format.toList)) (capacities : List ℕ) :
    frame.sscanf format capacities = .error .outOfBounds ↔
      Overlong (parseFormat format.toList) capacities text := by
  rw [sscanf_eq h.nul_mem, h.cstring_eq]
  by_cases hlong : Overlong (parseFormat format.toList) capacities text
  · exact iff_of_true (scan_of_overlong hblank hlong) hlong
  · obtain ⟨values, hscan, -⟩ := scan_of_not_overlong hblank hlong
    exact iff_of_false (by simp [hscan]) hlong

/-- What a deserialiser does with the values of its scan adds no fault. -/
theorem map_bind_eq_error_iff {α β γ : Type} (scanned : Except Fault α) (build : α → β)
    (kind : β → γ) (fault : Fault) :
    kind <$> (scanned >>= fun values => pure (build values)) = .error fault ↔
      scanned = .error fault := by
  cases scanned with
  | error fault' => simp [bind, Except.bind, Functor.map, Except.map]
  | ok values => simp [bind, Except.bind, Functor.map, Except.map, pure, Except.pure]

/-- A scan of numbers has no buffer to exceed. -/
theorem sscanf_numbers_ne_outOfBounds {frame : Frame} {text : List UInt8} (h : frame.Holds text)
    {format : String} (hblank : Blank (parseFormat format.toList))
    (hnumbers : ∀ directive ∈ parseFormat format.toList, directive ≠ .str) :
    frame.sscanf format [] ≠ .error .outOfBounds := by
  rw [ne_eq, sscanf_eq_outOfBounds_iff h hblank]
  exact not_overlong_of_no_str hnumbers [] text

/-! ## Messages of text -/

namespace TextKind

theorem blank_format (kind : TextKind) : Blank (parseFormat kind.format.toList) := by
  cases kind <;> decide

theorem deserialize_eq_error_iff (malloc : Garbage) (frame : Frame) (kind : TextKind)
    (fault : Fault) :
    kind.deserialize malloc frame = .error fault ↔
      frame.sscanf kind.format kind.capacities = .error fault := by
  cases kind <;> exact map_bind_eq_error_iff _ _ _ fault

end TextKind

namespace TextMessage

/-- A printed message is received without exceeding a buffer if and only if its strings are
shorter than the buffers. -/
theorem deserialize_ne_outOfBounds_iff (malloc : Garbage) (header : Header) (msg : TextMessage)
    {frame : Frame} (hholds : frame.Holds (msg.text header)) (htokens : Tokens msg.args) :
    msg.kind.deserialize malloc frame ≠ .error .outOfBounds ↔ msg.StringsFit := by
  obtain ⟨rest, hformat, _, hnumbers⟩ := msg.parseFormat_eq header
  have hrest := not_overlong_of_no_str hnumbers
  have htokens' : Tokens (header.args ++ msg.args) := by
    intro s hs
    exact htokens s (by simpa [Header.args] using hs)
  rw [ne_eq, TextKind.deserialize_eq_error_iff,
    sscanf_eq_outOfBounds_iff hholds msg.kind.blank_format, hformat, msg.text_eq,
    overlong_line_iff hrest (separated_of_isSpace msg.isSpace_of_mem_lineEnd) htokens', not_not,
    ← msg.fits_iff]
  rfl

end TextMessage

/-! ## Messages with a binary payload -/

/-- A serialiser that returns has printed a text that ends before the payload, and has written the
payload inside the frame. -/
theorem holds_of_storePayload {frame out : Frame} {text : List UInt8} (h : frame.Holds text)
    {payload : Option (List UInt8)} {payloadBytes : UInt32}
    (hstore : storePayload payload payloadBytes frame = .ok out) :
    text.length < payloadOffset ∧ out.Holds text ∧
      payloadOffset + payloadBytes.toNat ≤ maxMessageSize := by
  obtain ⟨_, hassert, hcopy⟩ := bind_eq_ok hstore
  obtain ⟨_, hlen⟩ := length_lt_of_assertText hassert
  rw [h.cstring_eq] at hlen
  refine ⟨hlen, ?_⟩
  by_cases hpos : 0 < payloadBytes
  · simp only [hpos, if_true] at hcopy
    cases payload with
    | none => exact absurd hcopy (by simp [throw, throwThe, MonadExceptOf.throw])
    | some data =>
        dsimp only at hcopy
        split at hcopy
        · next hreadable =>
            rw [Frame.write] at hcopy
            split at hcopy
            · next hfits =>
                rw [List.length_take_of_le hreadable] at hfits
                obtain rfl := Except.ok.inj hcopy
                exact ⟨holds_of_store h hlen rfl, hfits⟩
            · exact absurd hcopy (by simp)
        · exact absurd hcopy (by simp [throw, throwThe, MonadExceptOf.throw])
  · obtain rfl : payloadBytes = 0 := by simpa [UInt32.pos_iff_ne_zero] using hpos
    obtain rfl : frame = out := Except.ok.inj hcopy
    exact ⟨h, by decide⟩

/-- A number of a printed line is read back. -/
theorem announced_line (malloc : Garbage) {args : List Arg} {capacities : List ℕ}
    (hfits : Fits args capacities) {format : String} {rest : List Directive}
    (hformat : parseFormat format.toList = lineDirectives args ++ rest)
    (hrest : ∀ capacities text, scan rest capacities text = .ok []) {tail : List UInt8}
    (htail : Separated tail) {position : ℕ} {v : UInt32}
    (hv : args[position]? = some (.int v)) :
    announced malloc format capacities (line args ++ tail) position = v.toNat := by
  have hscan := scan_line hfits hrest htail
  rw [← hformat] at hscan
  rw [announced_of_scan malloc hscan, Garbage.intAt, hv]

namespace PayloadMessage

/-- The size of the payload is read back from a printed message. -/
theorem announcedBytes_eq (malloc : Garbage) (header : Header) (msg : PayloadMessage)
    (htokens : Tokens msg.args) (hlen : (msg.text header).length < payloadOffset) :
    msg.kind.announcedBytes malloc (msg.text header) = msg.payloadBytes.toNat := by
  have hseparated := separated_of_isSpace msg.isSpace_of_mem_lineEnd
  rw [msg.text_eq] at hlen ⊢
  cases msg with
  | dynamicPmLaunch msg =>
      have hfits : Fits (header.args ++ args (.dynamicPmLaunch msg)) [] := trivial
      exact announced_line malloc hfits rfl scan_nil hseparated rfl
  | dynamicIoOut msg =>
      have htoken : Token msg.host := htokens _ (by simp [args])
      have hmem : Arg.str msg.host ∈ header.args ++ args (.dynamicIoOut msg) := by simp [args]
      have hhost := length_text_le_line hmem
      rw [Arg.text, cstring_eq_self fun b hb => (htoken.2 b hb).1] at hhost
      rw [List.length_append, payloadOffset] at hlen
      have hfits : Fits (header.args ++ args (.dynamicIoOut msg)) [256] :=
        ⟨htoken, by omega, trivial⟩
      exact announced_line malloc hfits rfl scan_blank hseparated rfl
  | reportProcessData msg =>
      have hfits : Fits (header.args ++ args (.reportProcessData msg)) [] := trivial
      exact announced_line malloc hfits rfl scan_nil hseparated rfl

/-- A message that has been sent is received: its host is shorter than the text, which ends before
the payload. -/
theorem deserialize_ne_outOfBounds (malloc : Garbage) (header : Header) (msg : PayloadMessage)
    (htokens : Tokens msg.args) (htext : (msg.text header).length < maxMessageSize)
    {buffer out : Frame} (hout : msg.serialize header buffer = .ok out) :
    msg.kind.deserialize malloc out ≠ .error .outOfBounds := by
  rw [msg.text_eq] at htext
  obtain ⟨frame, hputs, hholds⟩ := puts_line buffer msg.isSpace_of_mem_lineEnd htext
  rw [msg.serialize_eq, msg.text_eq, hputs] at hout
  obtain ⟨hlen, hholds', hfits⟩ := holds_of_storePayload hholds hout
  have hassert := assertText_of_holds hholds' hlen
  rw [← msg.text_eq] at hlen hholds'
  rw [deserialize_in_bounds_iff malloc _ hassert, hholds'.cstring_eq,
    msg.announcedBytes_eq malloc header htokens hlen]
  exact hfits

end PayloadMessage

/-! ## The process manager registration -/

/-- A printed line that ends with a blank, behind which the next lines follow. -/
theorem linesOf_line_append {args : List Arg} (htokens : Tokens args) (rest : List UInt8) :
    linesOf (line args ++ [32, 10] ++ rest) = (line args ++ [32]) :: linesOf rest := by
  have hsplit : line args ++ [32, 10] ++ rest = (line args ++ [32]) ++ 10 :: rest := by simp
  have hfree := fun b hb => (@line_blank_free args htokens b hb).2
  rw [linesOf, hsplit, tokens_token_append (by simp) hfree (by decide)]
  rfl

/-- The lines of the applications. -/
theorem linesOf_applicationLines {applications : List Application}
    (htokens : ∀ application ∈ applications, Token application.nodes) :
    linesOf (applicationLines applications) =
      applications.map fun application => line application.args ++ [32] := by
  induction applications with
  | nil => rfl
  | cons application applications ih =>
      obtain ⟨hfirst, hrest⟩ := List.forall_mem_cons.mp htokens
      have hargs : Tokens application.args := by
        intro s hs
        obtain rfl : s = application.nodes := by simpa [Application.args] using hs
        exact hfirst
      have hlines : applicationLines (application :: applications) =
          line application.args ++ [32, 10] ++ applicationLines applications := by
        rw [← applicationText_eq]
        rfl
      rw [hlines, linesOf_line_append hargs, ih hrest, List.map_cons]

/-- Lines none of which exceeds its buffer are scanned, or there are too few of them. -/
theorem scanLines_ne_outOfBounds {count : ℕ} {lines : List (List UInt8)}
    (h : ∀ line ∈ lines, ¬ Overlong applicationDirectives [512] line) :
    scanLines count lines ≠ .error .outOfBounds := by
  induction count generalizing lines with
  | zero => simp [scanLines]
  | succ count ih =>
      cases lines with
      | nil => simp [scanLines, scanLine, bind, Except.bind]
      | cons line lines =>
          obtain ⟨hline, hlines⟩ := List.forall_mem_cons.mp h
          obtain ⟨values, hscan, -⟩ := scan_of_not_overlong blank_applicationDirectives hline
          have hscan' : scanLine (some line) "%d %d %d %s" [512] = .ok values := hscan
          simp only [scanLines, List.head?_cons, List.tail_cons, hscan', bind, Except.bind]
          cases hrest : scanLines count lines with
          | error fault =>
              intro heq
              apply ih hlines
              rw [hrest, Except.error.inj heq]
          | ok rest => simp [pure, Except.pure]

/-- A line of the registration, with a blank behind it, has a string that is too long exactly when
its strings do not fit. -/
theorem overlong_blank_line_iff {args : List Arg} (htokens : Tokens args) (capacities : List ℕ) :
    Overlong (lineDirectives args) capacities (line args ++ [32]) ↔ ¬ Fits args capacities := by
  have hrest : ∀ capacities text, ¬ Overlong [] capacities text := by simp [Overlong]
  have hblank : Separated [32] := by simp [Separated, isSpace]
  have hiff := overlong_line_iff hrest hblank htokens capacities
  rwa [List.append_nil] at hiff

theorem not_overlong_application {application : Application} (h : application.Fits) :
    ¬ Overlong applicationDirectives [512] (line application.args ++ [32]) := by
  intro hlong
  exact (overlong_blank_line_iff h.args_fit.tokens [512]).mp hlong h.args_fit

namespace RegisterProcessManagerMsg

variable {header : Header} {msg : RegisterProcessManagerMsg}

theorem tokens_args (hhost : Token msg.hostname) : Tokens (msg.args header) := by
  intro s hs
  obtain rfl : s = msg.hostname := by simpa [args, Header.args] using hs
  exact hhost

theorem overlong_manager_iff (hhost : Token msg.hostname) :
    Overlong managerDirectives [256] (line (msg.args header) ++ [32]) ↔
      ¬ msg.hostname.length < 256 := by
  have hdirectives : managerDirectives = lineDirectives (msg.args header) := rfl
  have hfits : Fits (msg.args header) [256] ↔ msg.hostname.length < 256 :=
    ⟨fun h => h.2.1, fun h => ⟨hhost, h, trivial⟩⟩
  rw [hdirectives, overlong_blank_line_iff (tokens_args hhost) [256], hfits]

/-- A registration whose lines fit the temporary buffer is received without exceeding a buffer if
and only if its hostname fits, however many of its lines are missing. -/
theorem deserialize_ne_outOfBounds_iff (malloc : ℕ → Garbage) {frame : Frame}
    {applications : List Application}
    (hholds : frame.Holds (registerProcessManagerText header msg ++
      applicationLines applications))
    (hhost : Token msg.hostname) (hfits : ∀ application ∈ applications, application.Fits) :
    deserializeRegisterProcessManagerMsg malloc frame ≠ .error .outOfBounds ↔
      msg.hostname.length < 256 := by
  have hlines : linesOf (cstring frame.bytes) = (line (msg.args header) ++ [32]) ::
      applications.map fun application => line application.args ++ [32] := by
    rw [hholds.cstring_eq, registerProcessManagerText_eq, linesOf_line_append (tokens_args hhost),
      linesOf_applicationLines fun application hmem => (hfits application hmem).1]
  have hdecode : deserializeRegisterProcessManagerMsg malloc frame = .error .outOfBounds ↔
      decodeManager frame malloc = .error .outOfBounds := by
    rw [decodeManager]
    cases deserializeRegisterProcessManagerMsg malloc frame with
    | error fault => simp [Except.map]
    | ok result => simp [Except.map]
  rw [ne_eq, hdecode, decodeManager_eq hholds.nul_mem, hlines, List.head?_cons, List.tail_cons,
    scanLine_manager]
  by_cases hlong : Overlong managerDirectives [256] (line (msg.args header) ++ [32])
  · rw [scan_of_overlong blank_managerDirectives hlong]
    exact iff_of_false (not_not_intro rfl) ((overlong_manager_iff hhost).mp hlong)
  · obtain ⟨values, hscan, -⟩ := scan_of_not_overlong blank_managerDirectives hlong
    refine iff_of_true ?_ (not_not.mp (mt (overlong_manager_iff hhost).mpr hlong))
    have hshort : ∀ text ∈ applications.map fun application => line application.args ++ [32],
        ¬ Overlong applicationDirectives [512] text := by
      intro text htext
      obtain ⟨application, hmem, rfl⟩ := List.mem_map.mp htext
      exact not_overlong_application (hfits application hmem)
    have hscanned := @scanLines_ne_outOfBounds ((malloc 0).intAt values 5).toNat _ hshort
    rw [hscan]
    simp only [bind, Except.bind]
    cases hall : scanLines ((malloc 0).intAt values 5).toNat
        (applications.map fun application => line application.args ++ [32]) with
    | error fault =>
        intro heq
        apply hscanned
        rw [hall]
        simpa [Except.map] using heq
    | ok all => simp [Except.map]

end RegisterProcessManagerMsg

/-! ## All messages -/

/-- A message of any kind. -/
inductive Message where
  | header
  | text (msg : TextMessage)
  | resourceOffer (msg : ResourceOfferMsg)
  | payload (msg : PayloadMessage)
  | registerProcessManager (msg : RegisterProcessManagerMsg)

namespace Message

/-- The serialiser of the message, where `app` is what the counter of the registration happens to
hold. -/
def serialize (app : Int32) (header : Header) (buffer : Frame) : Message → Except Fault Frame
  | .header => serializeHeader header buffer
  | .text msg => msg.serialize header buffer
  | .resourceOffer msg => serializeResourceOfferMsg header msg buffer
  | .payload msg => msg.serialize header buffer
  | .registerProcessManager msg => serializeRegisterProcessManagerMsg app header msg buffer

/-- The matching deserialiser, without what it returns. -/
def deserialize (malloc : ℕ → Garbage) (frame : Frame) : Message → Except Fault Unit
  | .header => (fun _ => ()) <$> deserializeHeader (malloc 0) frame
  | .text msg => (fun _ => ()) <$> msg.kind.deserialize (malloc 0) frame
  | .resourceOffer _ => (fun _ => ()) <$> deserializeResourceOfferMsg (malloc 0) frame
  | .payload msg => (fun _ => ()) <$> msg.kind.deserialize (malloc 0) frame
  | .registerProcessManager _ =>
      (fun _ => ()) <$> deserializeRegisterProcessManagerMsg malloc frame

/-- The text that the serialiser prints. -/
def serializedText (app : Int32) (header : Header) : Message → List UInt8
  | .header => headerText header
  | .text msg => msg.text header
  | .resourceOffer msg => resourceOfferText header msg
  | .payload msg => msg.text header
  | .registerProcessManager msg =>
      registerProcessManagerText header msg ++
        applicationLines (msg.applications.drop app.toUInt32.toNat)

/-- The strings of the message are non-empty and free of whitespace and NUL. -/
def StringsAreTokens : Message → Prop
  | .header | .resourceOffer _ => True
  | .text msg => Tokens msg.args
  | .payload msg => Tokens msg.args
  | .registerProcessManager msg =>
      Token msg.hostname ∧ ∀ application ∈ msg.applications, Token application.nodes

/-- The count of a registration is the number of its applications. -/
def CountsApplications : Message → Prop
  | .registerProcessManager msg => msg.applicationCount.toNat = msg.applications.length
  | .header | .text _ | .resourceOffer _ | .payload _ => True

/-- The only serialiser with a line buffer is that of the registration. -/
def LineBufferSuffices (app : Int32) (header : Header) (buffer : Frame) : Message → Prop
  | .registerProcessManager msg =>
      serializeRegisterProcessManagerMsg app header msg buffer ≠ .error .outOfBounds
  | .header | .text _ | .resourceOffer _ | .payload _ => True

/-- Neither the line buffer of the serialiser nor a string buffer of the deserialiser is
exceeded. -/
def BuffersSuffice (app : Int32) (malloc : ℕ → Garbage) (header : Header) (buffer : Frame)
    (msg : Message) : Prop :=
  msg.LineBufferSuffices app header buffer ∧
    ∀ out, msg.serialize app header buffer = .ok out →
      msg.deserialize malloc out ≠ .error .outOfBounds

/-- The strings of a text message are shorter than the buffers of the deserialiser. The hostname
of a registration and the line of each application that is printed are shorter than 256 bytes. -/
def StringsShort (app : Int32) : Message → Prop
  | .header | .resourceOffer _ | .payload _ => True
  | .text msg => msg.StringsFit
  | .registerProcessManager msg =>
      msg.hostname.length < 256 ∧
        ∀ application ∈ msg.applications.drop app.toUInt32.toNat,
          (applicationText application).length < 256

theorem map_unit_ne_error_iff {α : Type} (x : Except Fault α) (fault : Fault) :
    (fun _ => ()) <$> x ≠ .error fault ↔ x ≠ .error fault := by
  cases x with
  | error fault' => simp [Functor.map, Except.map]
  | ok a => simp [Functor.map, Except.map]

section

variable (app : Int32) (malloc : ℕ → Garbage) (header : Header) (buffer : Frame)

/-- A message of numbers has no string that could exceed a buffer. -/
theorem numbers_ne_outOfBounds {α : Type} {args : List Arg} {text : List UInt8}
    (htext : text = line args) {format : String} (hblank : Blank (parseFormat format.toList))
    (hnumbers : ∀ directive ∈ parseFormat format.toList, directive ≠ .str)
    (build : List Arg → α) {out : Frame} (hout : buffer.puts text = .ok out) :
    (fun _ => ()) <$> (out.sscanf format [] >>= fun values => pure (build values)) ≠
      .error .outOfBounds := by
  have hholds : out.Holds text := by
    refine Frame.holds_of_puts ?_ hout
    intro b hb
    exact line_ne_zero args (htext ▸ hb)
  rw [ne_eq, map_bind_eq_error_iff]
  exact sscanf_numbers_ne_outOfBounds hholds hblank hnumbers

theorem buffersSuffice_registerProcessManager_iff (msg : RegisterProcessManagerMsg)
    (hcount : msg.applicationCount.toNat = msg.applications.length)
    (hhost : Token msg.hostname)
    (hnodes : ∀ application ∈ msg.applications, Token application.nodes)
    (hlen : (registerProcessManagerText header msg ++
      applicationLines (msg.applications.drop app.toUInt32.toNat)).length < maxMessageSize) :
    BuffersSuffice app malloc header buffer (.registerProcessManager msg) ↔
      StringsShort app (.registerProcessManager msg) := by
  rcases RegisterProcessManagerMsg.serialize_cases app buffer hcount hlen with
    ⟨hshort, out, hout, hholds⟩ | ⟨⟨application, hmem, hlong⟩, hfault⟩
  · have hfits : ∀ application ∈ msg.applications.drop app.toUInt32.toNat,
        application.Fits := by
      intro application hmem
      exact ⟨hnodes application (List.mem_of_mem_drop hmem), hshort application hmem⟩
    have hreceive := msg.deserialize_ne_outOfBounds_iff malloc hholds hhost hfits
    rw [BuffersSuffice, LineBufferSuffices, StringsShort]
    simp only [serialize, deserialize, hout, map_unit_ne_error_iff]
    constructor
    · rintro ⟨-, h⟩
      exact ⟨hreceive.mp (h out rfl), hshort⟩
    · rintro ⟨h, -⟩
      refine ⟨by simp, ?_⟩
      rintro out' heq
      obtain rfl := Except.ok.inj heq
      exact hreceive.mpr h
  · refine iff_of_false (fun h => h.1 hfault) ?_
    rintro ⟨-, hshort⟩
    exact absurd (hshort application hmem) (Nat.not_lt.mpr hlong)

end

end Message

/-- A message whose strings are tokens and whose text fits the frame exceeds no line buffer of the
serialiser and no string buffer of the deserialiser if and only if its strings are shorter than
these buffers, which the frame does not enforce. -/
theorem buffers_suffice_iff (app : Int32) (malloc : ℕ → Garbage) (header : Header)
    (buffer : Frame) (msg : Message) (hcount : msg.CountsApplications)
    (htokens : msg.StringsAreTokens)
    (hlen : (msg.serializedText app header).length < maxMessageSize) :
    msg.BuffersSuffice app malloc header buffer ↔ msg.StringsShort app := by
  cases msg with
  | header =>
      refine iff_of_true ⟨trivial, ?_⟩ trivial
      intro out hout
      have htext : headerText header = line header.args ++ [] := sprintf_line [] rfl
      rw [List.append_nil] at htext
      exact Message.numbers_ne_outOfBounds buffer htext (by decide) (by decide) _ hout
  | text msg =>
      obtain ⟨out, hout, hholds⟩ := msg.serialize_holds header buffer hlen
      have hreceive := msg.deserialize_ne_outOfBounds_iff (malloc 0) header hholds htokens
      simp only [Message.BuffersSuffice, Message.LineBufferSuffices, Message.StringsShort,
        Message.serialize, Message.deserialize, hout,
        Message.map_unit_ne_error_iff, true_and]
      constructor
      · intro h
        exact hreceive.mp (h out rfl)
      · intro h out' heq
        obtain rfl := Except.ok.inj heq
        exact hreceive.mpr h
  | resourceOffer msg =>
      refine iff_of_true ⟨trivial, ?_⟩ trivial
      intro out hout
      have htext : resourceOfferText header msg = line (header.args ++
          [.int msg.applicationIndex, .int msg.partitionIndex, .int msg.nodeCount,
            .int msg.creationTime.toUInt32, .int msg.endTime.toUInt32]) ++ [] :=
        sprintf_line [] rfl
      rw [List.append_nil] at htext
      exact Message.numbers_ne_outOfBounds buffer htext (by decide) (by decide) _ hout
  | payload msg =>
      refine iff_of_true ⟨trivial, ?_⟩ trivial
      intro out hout
      rw [Message.deserialize, Message.map_unit_ne_error_iff]
      exact msg.deserialize_ne_outOfBounds (malloc 0) header htokens hlen hout
  | registerProcessManager msg =>
      exact Message.buffersSuffice_registerProcessManager_iff app malloc header buffer msg hcount
        htokens.1 htokens.2 hlen

/-- A process manager on host `n1` with one application on node `n2` is sent and received. -/
theorem sampleManager_buffers_suffice :
    (Message.registerProcessManager sampleManager).CountsApplications ∧
      (Message.registerProcessManager sampleManager).StringsAreTokens ∧
      ((Message.registerProcessManager sampleManager).serializedText 0 ⟨4, 3⟩).length <
        maxMessageSize ∧
      (Message.registerProcessManager sampleManager).BuffersSuffice 0 (fun _ => zeroGarbage)
        ⟨4, 3⟩ zeroFrame := by
  have hcount : (Message.registerProcessManager sampleManager).CountsApplications := rfl
  have htokens : (Message.registerProcessManager sampleManager).StringsAreTokens := by
    refine ⟨by decide, ?_⟩
    intro application hmem
    obtain rfl := List.mem_singleton.mp hmem
    decide
  have hlen : ((Message.registerProcessManager sampleManager).serializedText 0 ⟨4, 3⟩).length <
      maxMessageSize := by decide +kernel
  have hshort : (Message.registerProcessManager sampleManager).StringsShort 0 := by
    refine ⟨by decide, ?_⟩
    intro application hmem
    obtain rfl := List.mem_singleton.mp hmem
    decide +kernel
  exact ⟨hcount, htokens, hlen,
    (buffers_suffice_iff 0 _ ⟨4, 3⟩ _ _ hcount htokens hlen).mpr hshort⟩

/-- A node list of the given length. -/
def nodeList (length : ℕ) : List UInt8 := List.replicate length 110

theorem token_nodeList {length : ℕ} (h : 0 < length) : Token (nodeList length) := by
  refine ⟨?_, ?_⟩
  · simp only [nodeList, ne_eq, List.replicate_eq_nil_iff]
    omega
  · intro b hb
    rw [List.eq_of_mem_replicate hb]
    decide

/-- A tree whose node list is as long as the buffer of the receiver. -/
def longTbon : TextMessage := .createTbon ⟨0, 2, 1, nodeList 256⟩

/-- A process manager with an application whose line is longer than the line buffer. -/
def longManager : RegisterProcessManagerMsg := ⟨7, [110, 49], 2, 1, [⟨0, 1, 1, nodeList 250⟩]⟩

/-- The node list of a tree can be sent but not received, and the line of an application overruns
the line buffer of the serialiser, although both texts are far shorter than the frame. -/
theorem longTbon_not_received :
    (Tokens longTbon.args ∧ (longTbon.text ⟨2, 5⟩).length < 300 ∧
      ¬ (Message.text longTbon).BuffersSuffice 0 (fun _ => zeroGarbage) ⟨2, 5⟩ zeroFrame) ∧
    (Message.registerProcessManager longManager).CountsApplications ∧
      (Message.registerProcessManager longManager).StringsAreTokens ∧
      ((Message.registerProcessManager longManager).serializedText 0 ⟨4, 3⟩).length < 300 ∧
      serializeRegisterProcessManagerMsg 0 ⟨4, 3⟩ longManager zeroFrame =
        .error .outOfBounds := by
  have htokens : Tokens longTbon.args := by
    intro s hs
    obtain rfl : s = nodeList 256 := by simpa [longTbon, TextMessage.args] using hs
    exact token_nodeList (by decide)
  have hlen : (longTbon.text ⟨2, 5⟩).length < 300 := by decide +kernel
  have hcount : (Message.registerProcessManager longManager).CountsApplications := rfl
  have hmanager : ((Message.registerProcessManager longManager).serializedText 0
      ⟨4, 3⟩).length < 300 := by decide +kernel
  refine ⟨⟨htokens, hlen, ?_⟩, hcount, ⟨by decide, ?_⟩, hmanager, ?_⟩
  · rintro ⟨-, h⟩
    obtain ⟨out, hout, hholds⟩ := longTbon.serialize_holds ⟨2, 5⟩ zeroFrame
      (hlen.trans (by decide))
    have hreceive := longTbon.deserialize_ne_outOfBounds_iff zeroGarbage ⟨2, 5⟩ hholds htokens
    have hne := h out hout
    rw [Message.deserialize, Message.map_unit_ne_error_iff] at hne
    have hfits := hreceive.mp hne
    exact absurd hfits.2 (by decide +kernel)
  · intro application hmem
    obtain rfl := List.mem_singleton.mp hmem
    exact token_nodeList (by decide)
  · rcases @RegisterProcessManagerMsg.serialize_cases ⟨4, 3⟩ longManager 0 zeroFrame hcount
      (hmanager.trans (by decide)) with ⟨hshort, _⟩ | ⟨_, hfault⟩
    · exact absurd (hshort _ List.mem_cons_self) (by decide +kernel)
    · exact hfault

end Dynpm.Protocol
