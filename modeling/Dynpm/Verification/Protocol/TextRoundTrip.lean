import Dynpm.Verification.Protocol.Frame

/-! # Round trip of the text messages

Every message is a line of fields that starts with the header. The formats of a serialiser and
of its deserialiser agree up to what follows the last field, so that one argument covers them
all.
-/

namespace Dynpm.Protocol

open Library Library.Stdio

/-- The fields of the header, with which every message begins. -/
def Header.args (header : Header) : List Arg := [.int header.sourceType, .int header.messageType]

section

variable {header : Header} {args : List Arg} {tail : List UInt8}

theorem separated_of_isSpace (htail : ∀ b ∈ tail, isSpace b = true) : Separated tail := by
  intro b hb
  exact htail b (List.mem_of_mem_head? hb)

theorem line_blanks_ne_zero (htail : ∀ b ∈ tail, isSpace b = true) {b : UInt8}
    (hb : b ∈ line args ++ tail) : b ≠ 0 := by
  rcases List.mem_append.mp hb with hb | hb
  · exact line_ne_zero _ hb
  · rintro rfl
    exact absurd (htail 0 hb) (by decide)

/-- A line of fields with blanks behind it is printed into any frame it fits. -/
theorem puts_line (buffer : Frame) (htail : ∀ b ∈ tail, isSpace b = true)
    (hlen : (line args ++ tail).length < maxMessageSize) :
    ∃ out, buffer.puts (line args ++ tail) = .ok out ∧ out.Holds (line args ++ tail) := by
  apply buffer.puts_ok _ hlen
  intro b hb
  exact line_blanks_ne_zero htail hb

/-- Any frame whose text begins with a header is read back by `deserializeHeader`. -/
theorem deserializeHeader_of_holds (malloc : Garbage) {frame : Frame}
    (h : frame.Holds (line (header.args ++ args) ++ tail))
    (htail : ∀ b ∈ tail, isSpace b = true) : deserializeHeader malloc frame = .ok header := by
  have hscan : frame.sscanf "%d %d" [] = .ok header.args :=
    h.sscanf_line (List.cons_ne_nil _ _) (separated_of_isSpace htail) trivial rfl scan_nil
  rw [deserializeHeader, hscan]
  rfl

/-- The fields of a message are scanned back. `rest` is what the format of the deserialiser has
behind its last conversion. -/
theorem sscanf_of_holds {frame : Frame} (h : frame.Holds (line (header.args ++ args) ++ tail))
    (htail : ∀ b ∈ tail, isSpace b = true) {capacities : List ℕ} (hfits : Fits args capacities)
    {format : String} {rest : List Directive}
    (hformat : parseFormat format.toList = lineDirectives (header.args ++ args) ++ rest)
    (hrest : ∀ capacities text, scan rest capacities text = .ok []) :
    frame.sscanf format capacities = .ok (header.args ++ args) := by
  have hall : frame.Holds (line ((header.args ++ args) ++ []) ++ tail) := by
    rwa [List.append_nil]
  exact hall.sscanf_line (List.cons_ne_nil _ _) (separated_of_isSpace htail) hfits hformat hrest

end

/-- The argument shared by all text messages: `args` are the fields after the header, and `tail`
and `rest` what the two formats have behind the last field. -/
theorem text_round_trip (malloc : Garbage) (buffer : Frame) (header : Header) (args : List Arg)
    (capacities : List ℕ) (format : String) (rest : List Directive) (tail : List UInt8)
    {text : List UInt8} (htext : text = line (header.args ++ args) ++ tail)
    (hlen : text.length < maxMessageSize) (htail : ∀ b ∈ tail, isSpace b = true)
    (hfits : Fits args capacities)
    (hformat : parseFormat format.toList = lineDirectives (header.args ++ args) ++ rest)
    (hrest : ∀ capacities text, scan rest capacities text = .ok []) :
    ∃ out, buffer.puts text = .ok out ∧ deserializeHeader malloc out = .ok header ∧
      out.sscanf format capacities = .ok (header.args ++ args) := by
  subst htext
  obtain ⟨out, hputs, hholds⟩ := puts_line buffer htail hlen
  exact ⟨out, hputs, deserializeHeader_of_holds malloc hholds htail,
    sscanf_of_holds hholds htail hfits hformat hrest⟩

/-- A message that is only a header, such as an acknowledgement, always fits its frame. -/
theorem serializeHeader_round_trip (malloc : Garbage) (buffer : Frame) (header : Header) :
    ∃ out, serializeHeader header buffer = .ok out ∧
      deserializeHeader malloc out = .ok header := by
  have htext : headerText header = line (header.args ++ []) ++ [] := sprintf_line [] rfl
  have hlen : (headerText header).length < maxMessageSize := by
    have hsource := length_printInt_le header.sourceType
    have hmessage := length_printInt_le header.messageType
    have hline : headerText header =
        printInt header.sourceType ++ 32 :: printInt header.messageType := by
      simp [htext, Header.args, line, blankFields, Arg.text]
    rw [hline, List.length_append, List.length_cons, maxMessageSize]
    omega
  obtain ⟨out, hputs, hheader, _⟩ := text_round_trip malloc buffer header [] [] "%d %d" [] []
    htext hlen (by simp) trivial rfl scan_nil
  exact ⟨out, hputs, hheader⟩

/-! ## The family of text messages -/

inductive TextKind where
  | registerConnection
  | deregisterConnection
  | createTbon
  | readyTbon
  | readyDynamicPm
  | processesDone
  | deregisterProcessManager
  | allocationRequest
  | reallocationStart
  | reallocationComplete

inductive TextMessage where
  | registerConnection (msg : RegisterConnectionMsg)
  | deregisterConnection (msg : DeregisterConnectionMsg)
  | createTbon (msg : CreateTbonMsg)
  | readyTbon (msg : ReadyTbonMsg)
  | readyDynamicPm (msg : ReadyDynamicPmMsg)
  | processesDone (msg : ProcessesDoneMsg)
  | deregisterProcessManager (msg : DeregisterProcessManagerMsg)
  | allocationRequest (msg : AllocationRequestMsg)
  | reallocationStart (msg : ReallocationStartMsg)
  | reallocationComplete (msg : ReallocationCompleteMsg)
  deriving DecidableEq

namespace TextMessage

def kind : TextMessage → TextKind
  | .registerConnection _ => .registerConnection
  | .deregisterConnection _ => .deregisterConnection
  | .createTbon _ => .createTbon
  | .readyTbon _ => .readyTbon
  | .readyDynamicPm _ => .readyDynamicPm
  | .processesDone _ => .processesDone
  | .deregisterProcessManager _ => .deregisterProcessManager
  | .allocationRequest _ => .allocationRequest
  | .reallocationStart _ => .reallocationStart
  | .reallocationComplete _ => .reallocationComplete

/-- The text that the serialiser of the message prints. -/
def text (header : Header) : TextMessage → List UInt8
  | .registerConnection msg => registerConnectionText header msg
  | .deregisterConnection msg => deregisterConnectionText header msg
  | .createTbon msg => createTbonText header msg
  | .readyTbon msg => readyText header msg
  | .readyDynamicPm msg => readyText header msg
  | .processesDone msg => readyText header msg
  | .deregisterProcessManager msg => deregisterProcessManagerText header msg
  | .allocationRequest msg => allocationRequestText header msg
  | .reallocationStart msg => reallocationStartText header msg
  | .reallocationComplete msg => reallocationCompleteText header msg

def serialize (header : Header) : TextMessage → Frame → Except Fault Frame
  | .registerConnection msg => serializeRegisterConnectionMsg header msg
  | .deregisterConnection msg => serializeDeregisterConnectionMsg header msg
  | .createTbon msg => serializeCreateTbonMsg header msg
  | .readyTbon msg => serializeReadyTbonMsg header msg
  | .readyDynamicPm msg => serializeReadyDynamicPmMsg header msg
  | .processesDone msg => serializeProcessesDoneMsg header msg
  | .deregisterProcessManager msg => serializeDeregisterProcessManagerMsg header msg
  | .allocationRequest msg => serializeAllocationRequestMsg header msg
  | .reallocationStart msg => serializeReallocationStartMsg header msg
  | .reallocationComplete msg => serializeReallocationCompleteMsg header msg

/-- The strings of the message are non-empty, free of whitespace and NUL, and shorter than the
buffers of the deserialiser. -/
def StringsFit : TextMessage → Prop
  | .registerConnection msg => Token msg.hostname ∧ msg.hostname.length < 256
  | .deregisterConnection msg => Token msg.hostname ∧ msg.hostname.length < 256
  | .createTbon msg => Token msg.nodes ∧ msg.nodes.length < 256
  | .deregisterProcessManager msg => Token msg.hostname ∧ msg.hostname.length < 256
  | .reallocationStart msg =>
      (Token msg.currentNodes ∧ msg.currentNodes.length < 1024) ∧
        (Token msg.deltaNodes ∧ msg.deltaNodes.length < 1024) ∧
        Token msg.updatedNodes ∧ msg.updatedNodes.length < 1024
  | .reallocationComplete msg => Token msg.nodes ∧ msg.nodes.length < 256
  | .readyTbon _ | .readyDynamicPm _ | .processesDone _ | .allocationRequest _ => True

/-- The fields behind the header. -/
def args : TextMessage → List Arg
  | .registerConnection msg => [.int msg.pid, .str msg.hostname]
  | .deregisterConnection msg =>
      [.int msg.pid, .str msg.hostname, .int msg.errorCode.toUInt32]
  | .createTbon msg => [.int msg.id, .int msg.degree, .int msg.total, .str msg.nodes]
  | .readyTbon msg | .readyDynamicPm msg | .processesDone msg =>
      [.int msg.id, .int msg.subtreeReadyCount, .int msg.errorCode]
  | .deregisterProcessManager msg =>
      [.int msg.pid, .str msg.hostname, .int msg.errorCode.toUInt32]
  | .allocationRequest msg =>
      [.int msg.applicationIndex, .int msg.partitionIndex, .int msg.type, .int msg.nodeCount]
  | .reallocationStart msg =>
      [.int msg.applicationIndex, .int msg.partitionIndex, .int msg.type,
        .int msg.currentNodeCount, .str msg.currentNodes, .int msg.deltaNodeCount,
        .str msg.deltaNodes, .int msg.updatedNodeCount, .str msg.updatedNodes]
  | .reallocationComplete msg =>
      [.int msg.applicationIndex, .int msg.partitionIndex, .int msg.type, .int msg.nodeCount,
        .str msg.nodes, .int msg.statusCode]

/-- What the serialiser prints behind the last field. -/
def lineEnd : TextMessage → List UInt8
  | .deregisterProcessManager _ | .allocationRequest _ => [32, 10]
  | .reallocationStart _ | .reallocationComplete _ => [10]
  | .registerConnection _ | .deregisterConnection _ | .createTbon _ | .readyTbon _
  | .readyDynamicPm _ | .processesDone _ => []

theorem text_eq (header : Header) (msg : TextMessage) :
    msg.text header = line (header.args ++ msg.args) ++ msg.lineEnd := by
  cases msg with
  | registerConnection msg => exact sprintf_line _ rfl
  | deregisterConnection msg => exact sprintf_line _ rfl
  | createTbon msg => exact sprintf_line _ rfl
  | readyTbon msg => exact sprintf_line _ rfl
  | readyDynamicPm msg => exact sprintf_line _ rfl
  | processesDone msg => exact sprintf_line _ rfl
  | deregisterProcessManager msg => exact sprintf_line _ rfl
  | allocationRequest msg => exact sprintf_line _ rfl
  | reallocationStart msg => exact sprintf_line _ rfl
  | reallocationComplete msg => exact sprintf_line _ rfl

theorem isSpace_of_mem_lineEnd (msg : TextMessage) : ∀ b ∈ msg.lineEnd, isSpace b = true := by
  cases msg <;> simp [lineEnd, isSpace]

theorem serialize_eq (header : Header) (msg : TextMessage) (buffer : Frame) :
    msg.serialize header buffer = buffer.puts (msg.text header) := by
  cases msg <;> rfl

/-- A message is printed into any frame that its text fits. -/
theorem serialize_holds (header : Header) (msg : TextMessage) (buffer : Frame)
    (hlen : (msg.text header).length < maxMessageSize) :
    ∃ out, msg.serialize header buffer = .ok out ∧ out.Holds (msg.text header) := by
  rw [msg.text_eq] at hlen
  rw [msg.serialize_eq, msg.text_eq]
  exact puts_line buffer msg.isSpace_of_mem_lineEnd hlen

end TextMessage

/-- The deserialiser of each kind of message. -/
def TextKind.deserialize (malloc : Garbage) (buffer : Frame) : TextKind → Except Fault TextMessage
  | .registerConnection => .registerConnection <$> deserializeRegisterConnectionMsg malloc buffer
  | .deregisterConnection =>
      .deregisterConnection <$> deserializeDeregisterConnectionMsg malloc buffer
  | .createTbon => .createTbon <$> deserializeCreateTbonMsg malloc buffer
  | .readyTbon => .readyTbon <$> deserializeReadyTbonMsg malloc buffer
  | .readyDynamicPm => .readyDynamicPm <$> deserializeReadyDynamicPmMsg malloc buffer
  | .processesDone => .processesDone <$> deserializeProcessesDoneMsg malloc buffer
  | .deregisterProcessManager =>
      .deregisterProcessManager <$> deserializeDeregisterProcessManagerMsg malloc buffer
  | .allocationRequest => .allocationRequest <$> deserializeAllocationRequestMsg malloc buffer
  | .reallocationStart => .reallocationStart <$> deserializeReallocationStartMsg malloc buffer
  | .reallocationComplete =>
      .reallocationComplete <$> deserializeReallocationCompleteMsg malloc buffer

namespace TextKind

/-- The format of the deserialiser. -/
def format : TextKind → String
  | .registerConnection => "%d %d %d %s"
  | .deregisterConnection | .deregisterProcessManager => "%d %d %d %s %d"
  | .createTbon => "%d %d %d %d %d %s"
  | .readyTbon | .readyDynamicPm | .processesDone => "%d %d %d %d %d"
  | .allocationRequest => "%d %d %d %d %d %d "
  | .reallocationStart => "%d %d %d %d %d %d %s %d %s %d %s"
  | .reallocationComplete => "%d %d %d %d %d %d %s %d"

/-- The sizes of the buffers that it allocates. -/
def capacities : TextKind → List ℕ
  | .registerConnection | .deregisterConnection | .createTbon | .deregisterProcessManager
  | .reallocationComplete => [256]
  | .reallocationStart => [1024, 1024, 1024]
  | .readyTbon | .readyDynamicPm | .processesDone | .allocationRequest => []

end TextKind

namespace TextMessage

/-- The format of the deserialiser is that of the printed line, apart from a blank at its end that
matches the end of the text too. -/
theorem parseFormat_eq (header : Header) (msg : TextMessage) :
    ∃ rest, parseFormat msg.kind.format.toList =
        lineDirectives (header.args ++ msg.args) ++ rest ∧
      (∀ capacities text, scan rest capacities text = .ok []) ∧
      ∀ directive ∈ rest, directive ≠ .str := by
  cases msg with
  | allocationRequest msg =>
      refine ⟨[.byte 32], ?_, scan_blank, by simp⟩
      dsimp only [kind, TextKind.format]
      rfl
  | _ =>
      refine ⟨[], ?_, scan_nil, by simp⟩
      dsimp only [kind, TextKind.format]
      rfl

/-- Where the strings are tokens, they fit exactly when they are shorter than the buffers. -/
theorem fits_iff (msg : TextMessage) : Fits msg.args msg.kind.capacities ↔ msg.StringsFit := by
  cases msg <;> simp [args, kind, TextKind.capacities, Fits, StringsFit, and_assoc]

end TextMessage

/-- What a deserialiser makes of the values of its scan. -/
theorem map_bind_ok {α β γ : Type} {scanned : Except Fault α} {values : α}
    (h : scanned = .ok values) (build : α → β) (kind : β → γ) :
    kind <$> (scanned >>= fun values => pure (build values)) = .ok (kind (build values)) := by
  rw [h]
  rfl

/-- A text message that has been serialised is read back, header and every field, whatever the
frame and the memory of the receiver held before. -/
theorem text_message_round_trip (malloc : Garbage) (buffer : Frame) (header : Header)
    (msg : TextMessage) (hstrings : msg.StringsFit)
    (hlen : (msg.text header).length < maxMessageSize) :
    ∃ out, msg.serialize header buffer = .ok out ∧ deserializeHeader malloc out = .ok header ∧
      msg.kind.deserialize malloc out = .ok msg := by
  obtain ⟨rest, hformat, hrest, _⟩ := msg.parseFormat_eq header
  obtain ⟨out, hputs, hheader, hscan⟩ := text_round_trip malloc buffer header msg.args
    msg.kind.capacities msg.kind.format rest msg.lineEnd (msg.text_eq header) hlen
    msg.isSpace_of_mem_lineEnd (msg.fits_iff.mpr hstrings) hformat hrest
  refine ⟨out, (msg.serialize_eq header buffer).trans hputs, hheader, ?_⟩
  cases msg with
  | registerConnection msg => exact map_bind_ok hscan _ _
  | deregisterConnection msg => exact map_bind_ok hscan _ _
  | createTbon msg => exact map_bind_ok hscan _ _
  | readyTbon msg => exact map_bind_ok hscan _ _
  | readyDynamicPm msg => exact map_bind_ok hscan _ _
  | processesDone msg => exact map_bind_ok hscan _ _
  | deregisterProcessManager msg => exact map_bind_ok hscan _ _
  | allocationRequest msg => exact map_bind_ok hscan _ _
  | reallocationStart msg => exact map_bind_ok hscan _ _
  | reallocationComplete msg => exact map_bind_ok hscan _ _

/-- The registration of a process on host `n1` whose pid has its highest bit set. -/
def sampleRegistration : TextMessage := .registerConnection ⟨0x80000001, [110, 49]⟩

theorem sampleRegistration_round_trip :
    sampleRegistration.StringsFit ∧ (sampleRegistration.text ⟨4, 1⟩).length < maxMessageSize ∧
      ∃ out, sampleRegistration.serialize ⟨4, 1⟩ zeroFrame = .ok out ∧
        deserializeHeader zeroGarbage out = .ok ⟨4, 1⟩ ∧
        sampleRegistration.kind.deserialize zeroGarbage out = .ok sampleRegistration := by
  have hstrings : sampleRegistration.StringsFit := ⟨by decide, by decide⟩
  have hlen : (sampleRegistration.text ⟨4, 1⟩).length < maxMessageSize := by decide
  exact ⟨hstrings, hlen,
    text_message_round_trip zeroGarbage zeroFrame ⟨4, 1⟩ sampleRegistration hstrings hlen⟩

end Dynpm.Protocol
