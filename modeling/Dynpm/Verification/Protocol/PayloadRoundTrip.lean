import Dynpm.Verification.Protocol.TextRoundTrip

/-! # Round trip of the messages with a binary payload

The text ends before the offset of the payload, so that copying the payload leaves the text and
its NUL as they are.
-/

namespace Dynpm.Protocol

open Library Library.Stdio

/-- The payload has the announced number of bytes and fits behind the text. -/
def PayloadFits (payload : Option (List UInt8)) (payloadBytes : UInt32) : Prop :=
  (payload.getD []).length = payloadBytes.toNat ∧
    payloadOffset + payloadBytes.toNat ≤ maxMessageSize

/-- What the receiver finds: an empty payload is a null pointer. -/
def receivedPayload (payload : Option (List UInt8)) (payloadBytes : UInt32) :
    Option (List UInt8) :=
  if payloadBytes = 0 then none else payload

theorem assertText_of_holds {frame : Frame} {text : List UInt8} (h : frame.Holds text)
    (hlen : text.length < payloadOffset) : assertText frame = .ok () := by
  rw [assertText, h.text_eq]
  simp only [bind, Except.bind, hlen, if_true]
  rfl

/-- A write at the offset of the payload keeps a text that ends before it. -/
theorem holds_of_store {frame out : Frame} {text data : List UInt8} (h : frame.Holds text)
    (hlen : text.length < payloadOffset)
    (hout : out.bytes = store frame.bytes payloadOffset data) : out.Holds text := by
  obtain ⟨hzero, rest, hbytes⟩ := h
  refine ⟨hzero, ?_⟩
  have htake : frame.bytes.take payloadOffset =
      text ++ 0 :: rest.take (payloadOffset - text.length - 1) := by
    rw [hbytes, List.take_append, List.take_of_length_le hlen.le]
    congr 1
    rw [List.take_cons (by omega)]
  rw [hout, store, htake, List.append_assoc, List.append_assoc]
  exact ⟨_, rfl⟩

/-- Storing the payload keeps the text, and loading it returns the payload. -/
theorem storePayload_ok {frame : Frame} {text : List UInt8} (h : frame.Holds text)
    (hlen : text.length < payloadOffset) {payload : Option (List UInt8)} {payloadBytes : UInt32}
    (hfits : PayloadFits payload payloadBytes) :
    ∃ out, storePayload payload payloadBytes frame = .ok out ∧ out.Holds text ∧
      loadPayload payloadBytes out = .ok (receivedPayload payload payloadBytes) := by
  by_cases hzero : payloadBytes = 0
  · subst hzero
    refine ⟨frame, ?_, h, ?_⟩
    · unfold storePayload
      rw [assertText_of_holds h hlen]
      rfl
    · rw [loadPayload, assertText_of_holds h hlen]
      rfl
  · have hpos : 0 < payloadBytes := UInt32.pos_iff_ne_zero.mpr hzero
    have hbytes : 0 < payloadBytes.toNat := hpos
    cases payload with
    | none =>
        have hlength := hfits.1
        simp only [Option.getD_none, List.length_nil] at hlength
        omega
    | some data =>
        have hlength : data.length = payloadBytes.toNat := hfits.1
        obtain ⟨out, hwrite, hout⟩ := frame.write_ok payloadOffset data
          (by rw [hlength]; exact hfits.2)
        have hholds := holds_of_store h hlen hout
        refine ⟨out, ?_, hholds, ?_⟩
        · unfold storePayload
          rw [assertText_of_holds h hlen]
          simp only [bind, Except.bind, hpos, if_true, hlength.ge]
          rw [← hlength, List.take_length]
          exact hwrite
        · have hload : load out.bytes payloadOffset payloadBytes.toNat = data := by
            rw [hout, ← hlength]
            exact load_store_self _ _ _ (by rw [frame.length_eq]; decide)
          rw [loadPayload, assertText_of_holds hholds hlen]
          simp only [bind, Except.bind, hpos, if_true, Frame.read_ok hfits.2, hload]
          rw [receivedPayload, if_neg hzero]
          rfl

/-- The argument shared by the three kinds of message. -/
theorem payload_round_trip (malloc : Garbage) (buffer : Frame) (header : Header) (args : List Arg)
    (capacities : List ℕ) (format : String) (rest : List Directive) (tail : List UInt8)
    {text : List UInt8} (htext : text = line (header.args ++ args) ++ tail)
    (hlen : text.length < payloadOffset) (htail : ∀ b ∈ tail, isSpace b = true)
    (hfits : Fits args capacities)
    (hformat : parseFormat format.toList = lineDirectives (header.args ++ args) ++ rest)
    (hrest : ∀ capacities text, scan rest capacities text = .ok [])
    {payload : Option (List UInt8)} {payloadBytes : UInt32}
    (hpayload : PayloadFits payload payloadBytes) :
    ∃ out, (buffer.puts text >>= storePayload payload payloadBytes) = .ok out ∧
      deserializeHeader malloc out = .ok header ∧
      out.sscanf format capacities = .ok (header.args ++ args) ∧
      loadPayload payloadBytes out = .ok (receivedPayload payload payloadBytes) := by
  subst htext
  have hoffset : payloadOffset < maxMessageSize := by decide
  obtain ⟨out, hputs, hholds⟩ := puts_line buffer htail (hlen.trans hoffset)
  obtain ⟨out', hstore, hholds', hload⟩ := storePayload_ok hholds hlen hpayload
  refine ⟨out', ?_, deserializeHeader_of_holds malloc hholds' htail,
    sscanf_of_holds hholds' htail hfits hformat hrest, hload⟩
  rw [hputs]
  exact hstore

/-! ## The messages one by one -/

/-- What has been serialised is a frame from which the header and the message are read back. -/
def RoundTrip {α : Type} (malloc : Garbage) (header : Header) (serialized : Except Fault Frame)
    (deserialize : Frame → Except Fault α) (msg : α) : Prop :=
  ∃ out, serialized = .ok out ∧ deserializeHeader malloc out = .ok header ∧
    deserialize out = .ok msg

/-- A message of one kind, among the messages of all kinds. -/
theorem RoundTrip.map {α β : Type} {malloc : Garbage} {header : Header}
    {serialized : Except Fault Frame} {deserialize : Frame → Except Fault α} {msg : α}
    (h : RoundTrip malloc header serialized deserialize msg) (kind : α → β) :
    RoundTrip malloc header serialized (fun out => kind <$> deserialize out) (kind msg) := by
  obtain ⟨out, hout, hheader, hmsg⟩ := h
  refine ⟨out, hout, hheader, ?_⟩
  simp only [hmsg]
  rfl

/-- A line of at most ten numbers ends before the payload. -/
theorem length_line_lt_payloadOffset {args : List Arg} {tail : List UInt8}
    (hargs : ∀ arg ∈ args, arg.directive = .int) (hcount : args.length ≤ 10)
    (htail : tail.length ≤ 2) : (line args ++ tail).length < payloadOffset := by
  have hline := length_line_le args hargs
  rw [List.length_append, payloadOffset]
  omega

section

variable (malloc : Garbage) (buffer : Frame)

theorem dynamicPmLaunch_round_trip (header : Header) (msg : DynamicPmLaunchMsg)
    (hpayload : PayloadFits msg.payload msg.payloadBytes) :
    RoundTrip malloc header (serializeDynamicPmLaunchMsg header msg buffer)
      (deserializeDynamicPmLaunchMsg malloc)
      { msg with payload := receivedPayload msg.payload msg.payloadBytes } := by
  have htext : dynamicPmLaunchText header msg = line (header.args ++
      [.int msg.id, .int msg.type, .int msg.payloadBytes]) ++ [32, 10] := sprintf_line _ rfl
  have hlen : (dynamicPmLaunchText header msg).length < payloadOffset := by
    rw [htext]
    exact length_line_lt_payloadOffset (by simp [Header.args, Arg.directive])
      (by simp [Header.args]) (by simp)
  obtain ⟨out, hout, hheader, hscan, hload⟩ := payload_round_trip malloc buffer header _
    [] "%d %d %d %d %d" [] _ htext hlen (by simp [isSpace]) trivial rfl scan_nil hpayload
  refine ⟨out, hout, hheader, ?_⟩
  rw [deserializeDynamicPmLaunchMsg, hscan]
  change (loadPayload msg.payloadBytes out >>= _) = _
  rw [hload]
  rfl

/-- The host is shorter than the text, so that it fits the buffer of the deserialiser. -/
theorem dynamicIoOut_round_trip (header : Header) (msg : DynamicIoOutMsg)
    (htoken : Token msg.host) (hlen : (dynamicIoOutText header msg).length < payloadOffset)
    (hpayload : PayloadFits msg.payload msg.payloadBytes) :
    RoundTrip malloc header (serializeDynamicIoOutMsg header msg buffer)
      (deserializeDynamicIoOutMsg malloc)
      { msg with payload := receivedPayload msg.payload msg.payloadBytes } := by
  have htext : dynamicIoOutText header msg = line (header.args ++
      [.int msg.id, .str msg.host, .int msg.payloadBytes]) ++ [32, 10] := sprintf_line _ rfl
  have hhost : msg.host.length < 256 := by
    have hstring : cstring msg.host = msg.host := cstring_eq_self fun b hb => (htoken.2 b hb).1
    have hmem : Arg.str msg.host ∈
        header.args ++ [.int msg.id, .str msg.host, .int msg.payloadBytes] := by simp
    have hle := length_text_le_line hmem
    rw [Arg.text, hstring] at hle
    rw [htext, List.length_append, payloadOffset] at hlen
    omega
  obtain ⟨out, hout, hheader, hscan, hload⟩ := payload_round_trip malloc buffer header _
    [256] "%d %d %d %s %d " [.byte 32] _ htext hlen (by simp [isSpace]) ⟨htoken, hhost, trivial⟩
    rfl scan_blank hpayload
  refine ⟨out, hout, hheader, ?_⟩
  rw [deserializeDynamicIoOutMsg, hscan]
  change (loadPayload msg.payloadBytes out >>= _) = _
  rw [hload]
  rfl

theorem reportProcessData_round_trip (header : Header) (msg : ReportProcessDataMsg)
    (hpayload : PayloadFits msg.payload msg.payloadBytes) :
    RoundTrip malloc header (serializeReportProcessDataMsg header msg buffer)
      (deserializeReportProcessDataMsg malloc)
      { msg with payload := receivedPayload msg.payload msg.payloadBytes } := by
  have htext : reportProcessDataText header msg = line (header.args ++
      [.int msg.id, .int msg.jobIndex, .int msg.applicationIndex, .int msg.malleabilityMode,
        .int msg.payloadBytes]) ++ [10] := sprintf_line _ rfl
  have hlen : (reportProcessDataText header msg).length < payloadOffset := by
    rw [htext]
    exact length_line_lt_payloadOffset (by simp [Header.args, Arg.directive])
      (by simp [Header.args]) (by simp)
  obtain ⟨out, hout, hheader, hscan, hload⟩ := payload_round_trip malloc buffer header _
    [] "%d %d %d %d %d %d %d" [] _ htext hlen (by simp [isSpace]) trivial rfl scan_nil hpayload
  refine ⟨out, hout, hheader, ?_⟩
  rw [deserializeReportProcessDataMsg, hscan]
  change (loadPayload msg.payloadBytes out >>= _) = _
  rw [hload]
  rfl

end

/-! ## The family of payload messages -/

inductive PayloadKind where
  | dynamicPmLaunch
  | dynamicIoOut
  | reportProcessData

inductive PayloadMessage where
  | dynamicPmLaunch (msg : DynamicPmLaunchMsg)
  | dynamicIoOut (msg : DynamicIoOutMsg)
  | reportProcessData (msg : ReportProcessDataMsg)
  deriving DecidableEq

namespace PayloadMessage

def kind : PayloadMessage → PayloadKind
  | .dynamicPmLaunch _ => .dynamicPmLaunch
  | .dynamicIoOut _ => .dynamicIoOut
  | .reportProcessData _ => .reportProcessData

def payload : PayloadMessage → Option (List UInt8)
  | .dynamicPmLaunch msg => msg.payload
  | .dynamicIoOut msg => msg.payload
  | .reportProcessData msg => msg.payload

def payloadBytes : PayloadMessage → UInt32
  | .dynamicPmLaunch msg => msg.payloadBytes
  | .dynamicIoOut msg => msg.payloadBytes
  | .reportProcessData msg => msg.payloadBytes

def serialize (header : Header) : PayloadMessage → Frame → Except Fault Frame
  | .dynamicPmLaunch msg => serializeDynamicPmLaunchMsg header msg
  | .dynamicIoOut msg => serializeDynamicIoOutMsg header msg
  | .reportProcessData msg => serializeReportProcessDataMsg header msg

/-- A host is non-empty, free of whitespace and NUL, and short enough for the assertion of the
serialiser. -/
def HostFits (header : Header) : PayloadMessage → Prop
  | .dynamicIoOut msg =>
      Token msg.host ∧ (dynamicIoOutText header msg).length < payloadOffset
  | .dynamicPmLaunch _ | .reportProcessData _ => True

/-- The message with the payload that the receiver finds. -/
def received : PayloadMessage → PayloadMessage
  | .dynamicPmLaunch msg =>
      .dynamicPmLaunch { msg with payload := receivedPayload msg.payload msg.payloadBytes }
  | .dynamicIoOut msg =>
      .dynamicIoOut { msg with payload := receivedPayload msg.payload msg.payloadBytes }
  | .reportProcessData msg =>
      .reportProcessData { msg with payload := receivedPayload msg.payload msg.payloadBytes }

end PayloadMessage

def PayloadKind.deserialize (malloc : Garbage) (buffer : Frame) :
    PayloadKind → Except Fault PayloadMessage
  | .dynamicPmLaunch => .dynamicPmLaunch <$> deserializeDynamicPmLaunchMsg malloc buffer
  | .dynamicIoOut => .dynamicIoOut <$> deserializeDynamicIoOutMsg malloc buffer
  | .reportProcessData => .reportProcessData <$> deserializeReportProcessDataMsg malloc buffer

/-- A message with a payload that has been serialised is read back, header, metadata and the
bytes of the payload, whatever the frame and the memory of the receiver held before. -/
theorem payload_message_round_trip (malloc : Garbage) (buffer : Frame) (header : Header)
    (msg : PayloadMessage) (hhost : msg.HostFits header)
    (hpayload : PayloadFits msg.payload msg.payloadBytes) :
    ∃ out, msg.serialize header buffer = .ok out ∧ deserializeHeader malloc out = .ok header ∧
      msg.kind.deserialize malloc out = .ok msg.received := by
  cases msg with
  | dynamicPmLaunch msg =>
      exact (dynamicPmLaunch_round_trip malloc buffer header msg hpayload).map _
  | dynamicIoOut msg =>
      exact (dynamicIoOut_round_trip malloc buffer header msg hhost.1 hhost.2 hpayload).map _
  | reportProcessData msg =>
      exact (reportProcessData_round_trip malloc buffer header msg hpayload).map _

/-- Output of process 3 on host `n1`: three bytes, among them a NUL and a newline. -/
def sampleOutput : PayloadMessage := .dynamicIoOut ⟨3, [110, 49], 3, some [0, 10, 48]⟩

theorem sampleOutput_round_trip :
    sampleOutput.HostFits ⟨2, 16⟩ ∧ PayloadFits sampleOutput.payload sampleOutput.payloadBytes ∧
      ∃ out, sampleOutput.serialize ⟨2, 16⟩ zeroFrame = .ok out ∧
        deserializeHeader zeroGarbage out = .ok ⟨2, 16⟩ ∧
        sampleOutput.kind.deserialize zeroGarbage out = .ok sampleOutput.received := by
  have hhost : sampleOutput.HostFits ⟨2, 16⟩ := ⟨by decide, by decide⟩
  have hpayload : PayloadFits sampleOutput.payload sampleOutput.payloadBytes :=
    ⟨by decide, by decide⟩
  exact ⟨hhost, hpayload,
    payload_message_round_trip zeroGarbage zeroFrame ⟨2, 16⟩ sampleOutput hhost hpayload⟩

end Dynpm.Protocol
