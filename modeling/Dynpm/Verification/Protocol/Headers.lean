import Dynpm.Model.Send
import Dynpm.Verification.Protocol.Capacities
import Dynpm.Verification.Protocol.Reentrancy

/-! # The header of a frame that is sent

A receiver dispatches on the header before it knows anything else of a message. Whatever the strings
and the payload of a message are, the header is read back.
-/

namespace Dynpm.Protocol

open Library Library.Stdio Dynpm.Send

/-- Whatever the memory held, the header is read back. -/
def Headed (header : Header) (frame : Frame) : Prop :=
  ∀ malloc, deserializeHeader malloc frame = .ok header

/-- What stands behind the fields of the first line does not matter. -/
theorem headed_of_holds {frame : Frame} {header : Header} {args : List Arg} {tail : List UInt8}
    (h : frame.Holds (line (header.args ++ args) ++ tail)) (htail : Separated tail) :
    Headed header frame := by
  intro malloc
  have hscan : frame.sscanf "%d %d" [] = .ok header.args :=
    h.sscanf_line (List.cons_ne_nil _ _) htail trivial rfl scan_nil
  rw [deserializeHeader, hscan]
  rfl

/-! ## Messages of text -/

/-- A line that has been printed. -/
theorem headed_of_puts {header : Header} {args : List Arg} {tail text : List UInt8}
    {buffer frame : Frame} (htext : text = line (header.args ++ args) ++ tail)
    (htail : ∀ b ∈ tail, isSpace b = true) (h : buffer.puts text = .ok frame) :
    Headed header frame := by
  subst htext
  have hholds := Frame.holds_of_puts (fun b hb => line_blanks_ne_zero htail hb) h
  exact headed_of_holds hholds (separated_of_isSpace htail)

theorem headed_textMessage {header : Header} (msg : TextMessage) {buffer frame : Frame}
    (h : msg.serialize header buffer = .ok frame) : Headed header frame := by
  rw [msg.serialize_eq] at h
  exact headed_of_puts (msg.text_eq header) msg.isSpace_of_mem_lineEnd h

theorem headed_resourceOffer {header : Header} {msg : ResourceOfferMsg} {buffer frame : Frame}
    (h : serializeResourceOfferMsg header msg buffer = .ok frame) : Headed header frame := by
  have htext : resourceOfferText header msg = line (header.args ++
      [.int msg.applicationIndex, .int msg.partitionIndex, .int msg.nodeCount,
        .int msg.creationTime.toUInt32, .int msg.endTime.toUInt32]) ++ [] := sprintf_line [] rfl
  exact headed_of_puts htext (by simp) h

/-! ## Messages with a payload -/

/-- The payload messages print a line and store the payload behind it. -/
theorem headed_of_storePayload {header : Header} {args : List Arg} {tail text : List UInt8}
    {buffer frame : Frame} {payload : Option (List UInt8)} {payloadBytes : UInt32}
    (htext : text = line (header.args ++ args) ++ tail) (htail : ∀ b ∈ tail, isSpace b = true)
    (h : (buffer.puts text >>= storePayload payload payloadBytes) = .ok frame) :
    Headed header frame := by
  subst htext
  obtain ⟨printed, hputs, hstore⟩ := bind_eq_ok h
  have hholds := Frame.holds_of_puts (fun b hb => line_blanks_ne_zero htail hb) hputs
  exact headed_of_holds (holds_of_storePayload hholds hstore).2.1 (separated_of_isSpace htail)

theorem headed_payloadMessage {header : Header} (msg : PayloadMessage) {buffer frame : Frame}
    (h : msg.serialize header buffer = .ok frame) : Headed header frame := by
  cases msg with
  | dynamicPmLaunch msg =>
      have htext : dynamicPmLaunchText header msg = line (header.args ++
          [.int msg.id, .int msg.type, .int msg.payloadBytes]) ++ [32, 10] := sprintf_line _ rfl
      exact headed_of_storePayload htext (by simp [isSpace]) h
  | dynamicIoOut msg =>
      have htext : dynamicIoOutText header msg = line (header.args ++
          [.int msg.id, .str msg.host, .int msg.payloadBytes]) ++ [32, 10] := sprintf_line _ rfl
      exact headed_of_storePayload htext (by simp [isSpace]) h
  | reportProcessData msg =>
      have htext : reportProcessDataText header msg = line (header.args ++
          [.int msg.id, .int msg.jobIndex, .int msg.applicationIndex, .int msg.malleabilityMode,
            .int msg.payloadBytes]) ++ [10] := sprintf_line _ rfl
      exact headed_of_storePayload htext (by simp [isSpace]) h

/-! ## Registrations of process managers -/

theorem headed_registerProcessManager {app : Int32} {header : Header}
    {msg : RegisterProcessManagerMsg} {buffer frame : Frame}
    (h : serializeRegisterProcessManagerMsg app header msg buffer = .ok frame) :
    Headed header frame := by
  obtain ⟨lines, hmore⟩ := RegisterProcessManagerMsg.holds_of_serialize h
  rw [RegisterProcessManagerMsg.registerProcessManagerText_eq, RegisterProcessManagerMsg.args,
    List.append_assoc] at hmore
  refine headed_of_holds hmore ?_
  intro b hb
  obtain rfl : 32 = b := by simpa using hb
  rfl

/-! ## Sending -/

/-- The frames that `_dynpm_internal_send_message_to_server` enqueues. -/
theorem headed_of_serializeToServer {app : Int32} {header : Header} {msg : Send.Message}
    {buffer frame : Frame} (h : serializeToServer app header msg buffer = some (.ok frame)) :
    Headed header frame := by
  unfold serializeToServer at h
  split at h
  · exact headed_textMessage (.registerConnection _) (Option.some.inj h)
  · exact headed_textMessage (.deregisterConnection _) (Option.some.inj h)
  · exact headed_textMessage (.createTbon _) (Option.some.inj h)
  · exact headed_resourceOffer (Option.some.inj h)
  · exact headed_payloadMessage (.dynamicPmLaunch _) (Option.some.inj h)
  · exact headed_registerProcessManager (Option.some.inj h)
  · exact headed_textMessage (.allocationRequest _) (Option.some.inj h)
  all_goals cases h

/-- The frames that `dynpm_send_message_to_client_connection` enqueues. -/
theorem headed_of_clientCase {header : Header} {msg : Send.Message} {buffer frame : Frame}
    (h : clientCase header msg buffer = .serialized (.ok frame)) : Headed header frame := by
  unfold clientCase at h
  split at h
  case h_3 => exact headed_resourceOffer (ClientCase.serialized.inj h)
  case h_4 => exact headed_textMessage (.readyTbon _) (ClientCase.serialized.inj h)
  case h_5 => exact headed_textMessage (.readyDynamicPm _) (ClientCase.serialized.inj h)
  case h_6 => exact headed_payloadMessage (.dynamicIoOut _) (ClientCase.serialized.inj h)
  case h_7 => exact headed_textMessage (.processesDone _) (ClientCase.serialized.inj h)
  case h_8 => exact headed_payloadMessage (.reportProcessData _) (ClientCase.serialized.inj h)
  case h_9 => exact headed_textMessage (.reallocationStart _) (ClientCase.serialized.inj h)
  all_goals cases h

/-- A frame with the given header that one of the send functions enqueues, or an acknowledgement. -/
inductive SentFrame (header : Header) (frame : Frame) : Prop where
  | toServer (app : Int32) (msg : Send.Message) (buffer : Frame)
      (h : serializeToServer app header msg buffer = some (.ok frame))
  | toClient (msg : Send.Message) (buffer : Frame)
      (h : clientCase header msg buffer = .serialized (.ok frame))
  | acknowledgement (buffer : Frame) (h : serializeHeader header buffer = .ok frame)

/-- A receiver dispatches every frame as the type it was sent as: the header is read back, whatever
the strings and the payload of the message are, whatever counter the serialiser began with, and
whatever the buffer of the sender and the memory of the receiver held before. -/
theorem sent_header_received {header : Header} {frame : Frame} (h : SentFrame header frame)
    (malloc : Garbage) : deserializeHeader malloc frame = .ok header := by
  have hheaded : Headed header frame := by
    cases h with
    | toServer app msg buffer h => exact headed_of_serializeToServer h
    | toClient msg buffer h => exact headed_of_clientCase h
    | acknowledgement buffer h =>
        have htext : headerText header = line (header.args ++ []) ++ [] := sprintf_line [] rfl
        exact headed_of_puts htext (by simp) h
  exact hheaded malloc

/-- A node list with a blank in it, which no deserialiser reads back. -/
def blankNodes : CreateTbonMsg := ⟨1, 2, 3, [110, 49, 32, 110, 50]⟩

theorem blankNodes_header_received :
    ∃ frame, serializeToServer 0 ⟨1, 7⟩ (.createTbon blankNodes) zeroFrame = some (.ok frame) ∧
      deserializeHeader zeroGarbage frame = .ok ⟨1, 7⟩ := by
  obtain ⟨frame, hframe, -⟩ :=
    TextMessage.serialize_holds ⟨1, 7⟩ (.createTbon blankNodes) zeroFrame (by decide)
  have hsent : serializeToServer 0 ⟨1, 7⟩ (.createTbon blankNodes) zeroFrame =
      some (.ok frame) := congrArg some hframe
  exact ⟨frame, hsent, sent_header_received (.toServer 0 _ _ hsent) zeroGarbage⟩

end Dynpm.Protocol
