import Dynpm.Verification.Protocol.TextRoundTrip

/-! # Round trip of the process manager registration

The serialiser appends one line for each application, starting at the index that its loop
counter happens to hold. The deserialiser cuts the text into lines and reads one for each
application that the first line announces.
-/

namespace Dynpm.Protocol

open Library Library.Stdio

/-! ## Lines in a frame -/

/-- `strtok` returns the next line of the frame and ends it with a NUL. -/
theorem strtok_of_bytes {frame : Frame} {front text rest : List UInt8}
    (hbytes : frame.bytes = front ++ text ++ 10 :: rest) (htext : text ≠ [])
    (hfree : ∀ b ∈ text, b ≠ 0 ∧ b ∉ ([13, 10] : List UInt8)) :
    ∃ out, frame.strtok [13, 10] front.length =
        .ok (some text, out, (front ++ text ++ [0]).length) ∧
      out.bytes = (front ++ text ++ [0]) ++ rest := by
  have hdelimiters : 0 ∉ ([13, 10] : List UInt8) := by decide
  have hdelimiter : 10 ∈ ([13, 10] : List UInt8) := by decide
  have hstrtok := @strtok_line _ front text rest 10 hdelimiters htext hfree hdelimiter
  refine ⟨frame.terminate (some (front.length + text.length)), ?_, ?_⟩
  · rw [Frame.strtok, hbytes, hstrtok]
    simp only [List.length_append, List.length_singleton]
    rfl
  · have hset : (front ++ text ++ 10 :: rest).set (front.length + text.length) 0 =
        front ++ text ++ 0 :: rest := by
      rw [List.set_append_right _ _ (by simp)]
      simp
    simp only [Frame.terminate, hbytes, hset]
    simp

/-- At the end of the text there is no further line. -/
theorem strtok_of_end {frame : Frame} {front rest : List UInt8}
    (hbytes : frame.bytes = front ++ 0 :: rest) :
    frame.strtok [13, 10] front.length = .ok (none, frame, front.length) := by
  rw [Frame.strtok, hbytes, strtok_end (by decide)]
  rfl

/-- A line of fields, and the blank behind it, has no NUL and no end of a line in it. -/
theorem line_blank_free {args : List Arg} (htokens : Tokens args) {b : UInt8}
    (hb : b ∈ line args ++ [32]) : b ≠ 0 ∧ b ∉ ([13, 10] : List UInt8) := by
  have hspace : b = 32 ∨ isSpace b = false := by
    rcases List.mem_append.mp hb with hb | hb
    · exact mem_line htokens hb
    · exact Or.inl (List.mem_singleton.mp hb)
  rcases hspace with rfl | hspace
  · decide
  · constructor
    · rcases List.mem_append.mp hb with hb | hb
      · exact line_ne_zero _ hb
      · obtain rfl := List.mem_singleton.mp hb
        decide
    · intro hmem
      simp only [List.mem_cons, List.not_mem_nil, or_false] at hmem
      rcases hmem with rfl | rfl
      · exact absurd hspace (by decide)
      · exact absurd hspace (by decide)

/-- `strtok` and `sscanf` on a line of fields that ends with a blank and a newline. -/
theorem scan_strtok {frame : Frame} {front rest : List UInt8} {args : List Arg}
    (hbytes : frame.bytes = front ++ (line args ++ [32, 10]) ++ rest)
    {capacities : List ℕ} (hfits : Fits args capacities) (format : String)
    (hformat : parseFormat format.toList = lineDirectives args) :
    ∃ text out next, frame.strtok [13, 10] front.length = .ok (text, out, next.length) ∧
      scanLine text format capacities = .ok args ∧ out.bytes = next ++ rest := by
  have hbytes' : frame.bytes = front ++ (line args ++ [32]) ++ 10 :: rest := by
    simp [hbytes]
  have hfree := fun b hb => @line_blank_free args hfits.tokens b hb
  obtain ⟨out, hstrtok, hout⟩ := strtok_of_bytes hbytes' (by simp) hfree
  refine ⟨_, out, _, hstrtok, ?_, hout⟩
  have hblank : Separated [32] := by simp [Separated, isSpace]
  have hscan := scan_line hfits scan_nil hblank
  rw [List.append_nil] at hscan
  rw [scanLine, hformat]
  exact hscan

/-! ## The two loops -/

def Application.args (application : Application) : List Arg :=
  [.int application.applicationIndex, .int application.malleabilityMode,
    .int application.nodeCount, .str application.nodes]

theorem applicationText_eq (application : Application) :
    applicationText application = line application.args ++ [32, 10] :=
  sprintf_line [32, 10] rfl

/-- The lines of a list of applications. -/
def applicationLines (applications : List Application) : List UInt8 :=
  applications.flatMap applicationText

/-- The node list is a token, and the line fits the temporary buffer. -/
def Application.Fits (application : Application) : Prop :=
  Token application.nodes ∧ (applicationText application).length < 256

theorem Application.Fits.args_fit {application : Application} (h : application.Fits) :
    Stdio.Fits application.args [512] := by
  have hnodes : cstring application.nodes = application.nodes :=
    cstring_eq_self fun b hb => (h.1.2 b hb).1
  have hlen := h.2
  have hmem : Arg.str application.nodes ∈ application.args := by simp [Application.args]
  have hle := length_text_le_line hmem
  rw [Arg.text, hnodes] at hle
  rw [applicationText_eq, List.length_append] at hlen
  exact ⟨h.1, by omega, trivial⟩

theorem applicationText_ne_zero {application : Application} {b : UInt8}
    (hb : b ∈ applicationText application) : b ≠ 0 := by
  rw [applicationText_eq] at hb
  exact line_blanks_ne_zero (by simp [isSpace]) hb

/-- The loop of the serialiser appends the lines from the index `first` on, unless one of them
exceeds the temporary buffer. -/
theorem appendApplications_eq {applications : List Application} (count first : ℕ)
    (hcount : count = applications.length - first) {frame : Frame} {front : List UInt8}
    (hholds : frame.Holds front)
    (hlen : (front ++ applicationLines (applications.drop first)).length < maxMessageSize) :
    ((∀ application ∈ applications.drop first, (applicationText application).length < 256) ∧
      ∃ out, (List.range' first count).foldlM (appendApplication applications) frame = .ok out ∧
        out.Holds (front ++ applicationLines (applications.drop first))) ∨
    (∃ application ∈ applications.drop first, 256 ≤ (applicationText application).length) ∧
      (List.range' first count).foldlM (appendApplication applications) frame =
        .error .outOfBounds := by
  induction count generalizing first frame front with
  | zero =>
      rw [List.drop_of_length_le (by omega)]
      refine Or.inl ⟨by simp, frame, rfl, ?_⟩
      simpa [applicationLines] using hholds
  | succ count ih =>
      have hfirst : first < applications.length := by omega
      have hget : applications[first]? = some applications[first] := List.getElem?_eq_getElem hfirst
      have hdrop := List.drop_eq_getElem_cons hfirst
      have hlines : applicationLines (applications.drop first) =
          applicationText applications[first] ++
            applicationLines (applications.drop (first + 1)) := by
        rw [hdrop]
        rfl
      rw [hlines, ← List.append_assoc] at hlen ⊢
      rw [hdrop, List.forall_mem_cons, List.exists_mem_cons_iff, List.range'_succ,
        List.foldlM_cons]
      by_cases hshort : (applicationText applications[first]).length < 256
      · have hlen' : (front ++ applicationText applications[first]).length < maxMessageSize := by
          rw [List.length_append] at hlen
          omega
        obtain ⟨next, hstrcat, hnext⟩ :=
          hholds.strcat_ok (fun b hb => applicationText_ne_zero hb) hlen'
        have hstep : appendApplication applications frame first = .ok next := by
          rw [appendApplication, hget]
          simp only [hshort, if_true]
          exact hstrcat
        rw [hstep]
        rcases ih (first + 1) (by omega) hnext hlen with ⟨hrest, hout⟩ | ⟨hlong, hfault⟩
        · exact Or.inl ⟨⟨hshort, hrest⟩, hout⟩
        · exact Or.inr ⟨Or.inr hlong, hfault⟩
      · have hstep : appendApplication applications frame first = .error .outOfBounds := by
          rw [appendApplication, hget]
          simp only [hshort, if_false]
        rw [hstep]
        exact Or.inr ⟨Or.inl (Nat.not_lt.mp hshort), rfl⟩

/-- The loop of the deserialiser reads the lines that are there, in order, and continues behind
them with the applications for which there is no line. -/
theorem deserializeApplications_lines (malloc : ℕ → Garbage) {applications : List Application}
    (hfits : ∀ application ∈ applications, application.Fits) (missing app : ℕ) {frame : Frame}
    {front rest : List UInt8}
    (hbytes : frame.bytes = front ++ applicationLines applications ++ 0 :: rest) :
    ∃ out next, out.bytes = next ++ 0 :: rest ∧
      deserializeApplications malloc (applications.length + missing) app frame front.length =
        (deserializeApplications malloc missing (app + applications.length) out next.length).map
          fun result => (applications ++ result.1, result.2) := by
  induction applications generalizing app frame front with
  | nil =>
      refine ⟨frame, front, by simpa [applicationLines] using hbytes, ?_⟩
      rw [List.length_nil, Nat.zero_add]
      cases deserializeApplications malloc missing app frame front.length with
      | error fault => rfl
      | ok result => rfl
  | cons application applications ih =>
      have hbytes' : frame.bytes = front ++ (line application.args ++ [32, 10]) ++
          (applicationLines applications ++ 0 :: rest) := by
        rw [hbytes, applicationLines, List.flatMap_cons, applicationText_eq]
        simp [applicationLines]
      obtain ⟨text, out, next, hstrtok, hscan, hout⟩ := scan_strtok hbytes'
        (hfits application List.mem_cons_self).args_fit "%d %d %d %s" rfl
      rw [← List.append_assoc] at hout
      obtain ⟨out', next', hout', hloop⟩ :=
        ih (fun a ha => hfits a (List.mem_cons_of_mem _ ha)) (app + 1) hout
      refine ⟨out', next', hout', ?_⟩
      have hcount : (application :: applications).length + missing =
          (applications.length + missing) + 1 := by
        rw [List.length_cons]
        omega
      have happ : app + (application :: applications).length = app + 1 + applications.length := by
        rw [List.length_cons]
        omega
      rw [hcount, happ, deserializeApplications, hstrtok]
      simp only [bind, Except.bind, hscan, hloop]
      cases deserializeApplications malloc missing (app + 1 + applications.length) out'
        next'.length with
      | error fault => rfl
      | ok result => rfl

/-! ## Whole messages -/

/-- A message whose count is the number of its applications, whose strings are tokens and whose
text fits the frame. -/
structure RegisterProcessManagerMsg.WellFormed (header : Header)
    (msg : RegisterProcessManagerMsg) : Prop where
  hostname_token : Token msg.hostname
  hostname_lt : msg.hostname.length < 256
  applications_fit : ∀ application ∈ msg.applications, application.Fits
  count_eq : msg.applicationCount.toNat = msg.applications.length
  text_lt : (registerProcessManagerText header msg ++ applicationLines msg.applications).length <
    maxMessageSize

namespace RegisterProcessManagerMsg

def args (header : Header) (msg : RegisterProcessManagerMsg) : List Arg :=
  header.args ++
    [.int msg.pid, .str msg.hostname, .int msg.jobIndex, .int msg.applicationCount]

variable {header : Header} {msg : RegisterProcessManagerMsg}

theorem registerProcessManagerText_eq :
    registerProcessManagerText header msg = line (msg.args header) ++ [32, 10] :=
  sprintf_line [32, 10] rfl

theorem registerProcessManagerText_ne_zero {b : UInt8}
    (hb : b ∈ registerProcessManagerText header msg) : b ≠ 0 := by
  rw [registerProcessManagerText_eq] at hb
  exact line_blanks_ne_zero (by simp [isSpace]) hb

theorem length_applicationLines_drop (applications : List Application) (first : ℕ) :
    (applicationLines (applications.drop first)).length ≤
      (applicationLines applications).length := by
  have hsplit : applicationLines applications =
      applicationLines (applications.take first) ++ applicationLines (applications.drop first) := by
    rw [applicationLines, applicationLines, applicationLines, ← List.flatMap_append,
      List.take_append_drop]
  rw [hsplit, List.length_append]
  omega

/-- The serialised text has a line for each application from the index of the uninitialised
counter on, unless one of these lines exceeds the temporary buffer. -/
theorem serialize_cases (app : Int32) (buffer : Frame)
    (hcount : msg.applicationCount.toNat = msg.applications.length)
    (hlen : (registerProcessManagerText header msg ++
      applicationLines (msg.applications.drop app.toUInt32.toNat)).length < maxMessageSize) :
    ((∀ application ∈ msg.applications.drop app.toUInt32.toNat,
        (applicationText application).length < 256) ∧
      ∃ out, serializeRegisterProcessManagerMsg app header msg buffer = .ok out ∧
        out.Holds (registerProcessManagerText header msg ++
          applicationLines (msg.applications.drop app.toUInt32.toNat))) ∨
    (∃ application ∈ msg.applications.drop app.toUInt32.toNat,
        256 ≤ (applicationText application).length) ∧
      serializeRegisterProcessManagerMsg app header msg buffer = .error .outOfBounds := by
  have hhead : (registerProcessManagerText header msg).length < maxMessageSize := by
    rw [List.length_append] at hlen
    omega
  obtain ⟨first, hputs, hfirst⟩ :=
    buffer.puts_ok (fun b hb => registerProcessManagerText_ne_zero hb) hhead
  rw [serializeRegisterProcessManagerMsg, hputs, hcount]
  exact appendApplications_eq _ _ rfl hfirst hlen

theorem WellFormed.serialize_ok (h : msg.WellFormed header) (app : Int32) (buffer : Frame) :
    ∃ out, serializeRegisterProcessManagerMsg app header msg buffer = .ok out ∧
      out.Holds (registerProcessManagerText header msg ++
        applicationLines (msg.applications.drop app.toUInt32.toNat)) := by
  have hlen := h.text_lt
  have hdrop := length_applicationLines_drop msg.applications app.toUInt32.toNat
  rw [List.length_append] at hlen
  rcases @serialize_cases header msg app buffer h.count_eq (by rw [List.length_append]; omega) with
    ⟨_, hout⟩ | ⟨⟨application, hmem, hlong⟩, _⟩
  · exact hout
  · have hshort := (h.applications_fit application (List.mem_of_mem_drop hmem)).2
    omega

theorem WellFormed.args_fit (h : msg.WellFormed header) : Fits (msg.args header) [256] :=
  ⟨h.hostname_token, h.hostname_lt, trivial⟩

/-- The first line is read back, and the deserialiser goes on with the lines behind it. -/
theorem WellFormed.deserialize_eq (h : msg.WellFormed header) (malloc : ℕ → Garbage)
    {frame : Frame} {applications : List Application}
    (hholds : frame.Holds (registerProcessManagerText header msg ++
      applicationLines applications)) :
    ∃ out next rest, out.bytes = next ++ applicationLines applications ++ 0 :: rest ∧
      deserializeRegisterProcessManagerMsg malloc frame =
        (deserializeApplications malloc msg.applications.length 0 out next.length).map
          fun result => ({ msg with applications := result.1 }, result.2) := by
  obtain ⟨_, rest, hbytes⟩ := hholds
  have hbytes' : frame.bytes = [] ++ (line (msg.args header) ++ [32, 10]) ++
      (applicationLines applications ++ 0 :: rest) := by
    rw [hbytes, registerProcessManagerText_eq]
    simp
  obtain ⟨text, out, next, hstrtok, hscan, hout⟩ := scan_strtok hbytes'
    h.args_fit "%d %d %d %s %d %d" rfl
  refine ⟨out, next, rest, by rw [hout, List.append_assoc], ?_⟩
  rw [List.length_nil] at hstrtok
  rw [deserializeRegisterProcessManagerMsg, hstrtok, ← h.count_eq]
  have hcount : (malloc 0).intAt (msg.args header) 5 = msg.applicationCount := rfl
  simp only [bind, Except.bind, hscan, hcount]
  cases deserializeApplications malloc msg.applicationCount.toNat 0 out next.length with
  | error fault => rfl
  | ok result => rfl

/-- All lines are there: the message is read back. -/
theorem WellFormed.deserialize_ok (h : msg.WellFormed header) (malloc : ℕ → Garbage)
    {frame : Frame} (hholds : frame.Holds (registerProcessManagerText header msg ++
      applicationLines msg.applications)) :
    ∃ after, deserializeRegisterProcessManagerMsg malloc frame = .ok (msg, after) := by
  obtain ⟨out, next, rest, hbytes, hmsg⟩ := h.deserialize_eq malloc hholds
  obtain ⟨out', next', _, hloop⟩ :=
    deserializeApplications_lines malloc h.applications_fit 0 0 hbytes
  rw [Nat.add_zero] at hloop
  rw [hmsg, hloop, deserializeApplications]
  simp only [Except.map, List.append_nil]
  exact ⟨out', rfl⟩

/-- Some lines are missing: the deserialiser scans a line that `strtok` did not find. -/
theorem WellFormed.deserialize_missing (h : msg.WellFormed header) (malloc : ℕ → Garbage)
    {frame : Frame} {first : ℕ} (hfirst : 0 < first) (hne : msg.applications ≠ [])
    (hholds : frame.Holds (registerProcessManagerText header msg ++
      applicationLines (msg.applications.drop first))) :
    deserializeRegisterProcessManagerMsg malloc frame = .error .nullPointer := by
  obtain ⟨out, next, rest, hbytes, hmsg⟩ := h.deserialize_eq malloc hholds
  have hpos := List.length_pos_iff.mpr hne
  obtain ⟨missing, hmissing⟩ : ∃ missing, msg.applications.length =
      (msg.applications.drop first).length + (missing + 1) := by
    refine ⟨msg.applications.length - (msg.applications.drop first).length - 1, ?_⟩
    rw [List.length_drop]
    omega
  obtain ⟨out', next', hbytes', hloop⟩ := deserializeApplications_lines malloc
    (fun a ha => h.applications_fit a (List.mem_of_mem_drop ha)) (missing + 1) 0 hbytes
  rw [hmsg, hmissing, hloop, deserializeApplications, strtok_of_end hbytes']
  rfl

/-- A counter that does not start at zero loses the lines of the first applications. -/
theorem WellFormed.round_trip_fails (h : msg.WellFormed header) (malloc : ℕ → Garbage)
    (buffer : Frame) {app : Int32} (happ : app ≠ 0) (hne : msg.applications ≠ []) :
    ¬ ∃ out after, serializeRegisterProcessManagerMsg app header msg buffer = .ok out ∧
      deserializeRegisterProcessManagerMsg malloc out = .ok (msg, after) := by
  rintro ⟨out, after, hserialize, hdeserialize⟩
  obtain ⟨out', hserialize', hholds⟩ := h.serialize_ok app buffer
  obtain rfl := Except.ok.inj (hserialize.symm.trans hserialize')
  have hfirst : 0 < app.toUInt32.toNat := by
    rw [Nat.pos_iff_ne_zero]
    intro hzero
    exact happ (congrArg Int32.ofUInt32 (UInt32.toNat_inj.mp hzero))
  rw [h.deserialize_missing malloc hfirst hne hholds] at hdeserialize
  exact absurd hdeserialize (by simp)

end RegisterProcessManagerMsg

/-- A registration of a process manager is read back if and only if the uninitialised loop
counter of the serialiser happens to be zero or there is no application to send. -/
theorem register_process_manager_round_trip_iff (malloc : ℕ → Garbage) (buffer : Frame)
    (app : Int32) (header : Header) (msg : RegisterProcessManagerMsg)
    (h : msg.WellFormed header) :
    (∃ out after, serializeRegisterProcessManagerMsg app header msg buffer = .ok out ∧
      deserializeRegisterProcessManagerMsg malloc out = .ok (msg, after)) ↔
        app = 0 ∨ msg.applications = [] := by
  constructor
  · intro hround
    by_contra hcond
    rw [not_or] at hcond
    exact h.round_trip_fails malloc buffer hcond.1 hcond.2 hround
  · intro hcond
    obtain ⟨out, hserialize, hholds⟩ := h.serialize_ok app buffer
    have hdrop : msg.applications.drop app.toUInt32.toNat = msg.applications := by
      rcases hcond with rfl | hnil
      · rfl
      · rw [hnil, List.drop_nil]
    rw [hdrop] at hholds
    obtain ⟨after, hdeserialize⟩ := h.deserialize_ok malloc hholds
    exact ⟨out, after, hserialize, hdeserialize⟩

/-- A process manager on host `n1` with one application on node `n2`. -/
def sampleManager : RegisterProcessManagerMsg :=
  ⟨7, [110, 49], 2, 1, [⟨0, 1, 1, [110, 50]⟩]⟩

theorem sampleManager_wellFormed : sampleManager.WellFormed ⟨4, 3⟩ where
  hostname_token := by decide
  hostname_lt := by decide
  applications_fit := by
    intro application hmem
    obtain rfl := List.mem_singleton.mp hmem
    exact ⟨by decide, by decide⟩
  count_eq := rfl
  text_lt := by decide

/-- A counter that holds zero sends the line of the application. -/
theorem sampleManager_round_trip :
    ∃ out after, serializeRegisterProcessManagerMsg 0 ⟨4, 3⟩ sampleManager zeroFrame = .ok out ∧
      deserializeRegisterProcessManagerMsg (fun _ => zeroGarbage) out =
        .ok (sampleManager, after) :=
  (register_process_manager_round_trip_iff _ _ 0 _ _ sampleManager_wellFormed).mpr (Or.inl rfl)

/-- A counter that happens to hold one sends no line for the only application. -/
theorem sampleManager_not_received :
    ¬ ∃ out after, serializeRegisterProcessManagerMsg 1 ⟨4, 3⟩ sampleManager zeroFrame = .ok out ∧
      deserializeRegisterProcessManagerMsg (fun _ => zeroGarbage) out =
        .ok (sampleManager, after) :=
  sampleManager_wellFormed.round_trip_fails _ _ (by decide) (by decide)

end Dynpm.Protocol
