import Dynpm.Model.ClientSend
import Dynpm.Verification.Delivery.Messages
import Dynpm.Verification.Protocol.Headers
import Dynpm.Verification.Server.Identity

/-! # Registrations on their way to the server

The identity that a server has of a client is that of the last registration that the client has sent
and the handler has finished with, whatever other messages are sent around it.
-/

namespace Dynpm.Delivery

open Library Library.Stdio Dynpm.Protocol Dynpm.Send Dynpm.ClientSend

/-! ## What the handler does with a message -/

/-- The registration that a frame carries. -/
def registrationOf (frame : Frame) : Option RegisterConnectionMsg :=
  match deserializeHeader zeroGarbage frame, deserializeRegisterConnectionMsg zeroGarbage frame with
  | .ok header, .ok regmsg =>
      if messageTypeOf header = some .registerConnection then some regmsg else none
  | _, _ => none

/-- What the handler reads of a frame does not depend on its memory, and it can be read. -/
def Handleable (frame : Frame) : Prop :=
  ∃ header, Headed header frame ∧
    (messageTypeOf header = some .registerConnection →
      ∃ regmsg, ∀ malloc, deserializeRegisterConnectionMsg malloc frame = .ok regmsg) ∧
    (messageTypeOf header = some .deregisterConnection →
      ∀ malloc, ∃ deregmsg, deserializeDeregisterConnectionMsg malloc frame = .ok deregmsg)

theorem registrationOf_of_register {header : Header} {frame : Frame}
    {regmsg : RegisterConnectionMsg}
    (hheader : Headed header frame) (htype : messageTypeOf header = some .registerConnection)
    (hregmsg : ∀ malloc, deserializeRegisterConnectionMsg malloc frame = .ok regmsg) :
    registrationOf frame = some regmsg := by
  simp only [registrationOf, hheader zeroGarbage, hregmsg zeroGarbage, if_pos htype]

theorem registrationOf_of_other {header : Header} {frame : Frame} (hheader : Headed header frame)
    (htype : messageTypeOf header ≠ some .registerConnection) : registrationOf frame = none := by
  unfold registrationOf
  rw [hheader zeroGarbage]
  split
  · next heq _ =>
      obtain rfl := Except.ok.inj heq
      exact if_neg htype
  · rfl

/-- A frame that carries a registration registers the connection, and any other one leaves all
connections as they are. -/
theorem Handleable.topServerHandler {frame : Frame} (h : Handleable frame) {malloc : Garbage}
    {server after : Server.State} {c : ℕ}
    (hafter : ServerPool.topServerHandler malloc server c frame = .ok after) :
    after.connections =
      match registrationOf frame with
      | some regmsg => server.connections.set c (some regmsg)
      | none => server.connections := by
  obtain ⟨header, hheader, hregister, _⟩ := h
  unfold ServerPool.topServerHandler at hafter
  rw [hheader malloc, ok_bind] at hafter
  split at hafter
  · next htype =>
      obtain ⟨regmsg, hregmsg⟩ := hregister htype
      rw [hregmsg malloc] at hafter
      obtain rfl := Except.ok.inj hafter
      simp only [registrationOf_of_register hheader htype hregmsg]
      rfl
  · next htype =>
      obtain ⟨_, _, hafter⟩ := bind_eq_ok hafter
      have hother : messageTypeOf header ≠ some .registerConnection := by simp [htype]
      rw [registrationOf_of_other hheader hother]
      exact (Server.deregister_keeps hafter).1
  · next htype _ =>
      obtain rfl := Except.ok.inj hafter
      rw [registrationOf_of_other hheader htype]

/-! ## Messages that are sent -/

end Dynpm.Delivery

namespace Dynpm.ClientSend.Outgoing

open Library.Stdio Dynpm.Protocol Dynpm.Send

/-- A message that is not sent as a buffer. The hostname of a registration is non-empty, free of
whitespace and NUL, and shorter than the buffer of the receiver. -/
def WellFormed : Outgoing → Prop
  | .buffer _ => False
  | .message _ (.registerConnection msg) _ _ => Token msg.hostname ∧ msg.hostname.length < 256
  | .message _ (.deregisterConnection msg) _ _ => Token msg.hostname ∧ msg.hostname.length < 256
  | .message _ _ _ _ => True

/-- The registration that is sent. -/
def registration : Outgoing → Option RegisterConnectionMsg
  | .message _ (.registerConnection msg) _ _ => some msg
  | _ => none

end Dynpm.ClientSend.Outgoing

namespace Dynpm.Delivery

open Library Library.Stdio Dynpm.Protocol Dynpm.Send Dynpm.ClientSend

/-- The frame of a text message whose strings fit is read back by its deserialiser. -/
theorem sscanf_of_textMessage {header : Header} (msg : TextMessage) {buffer frame : Frame}
    (hframe : msg.serialize header buffer = .ok frame) (hfits : msg.StringsFit) :
    frame.sscanf msg.kind.format msg.kind.capacities = .ok (header.args ++ msg.args) := by
  obtain ⟨rest, hformat, hrest, _⟩ := msg.parseFormat_eq header
  rw [msg.serialize_eq, msg.text_eq] at hframe
  have hholds := Frame.holds_of_puts
    (fun b hb => line_blanks_ne_zero msg.isSpace_of_mem_lineEnd hb) hframe
  exact sscanf_of_holds hholds msg.isSpace_of_mem_lineEnd (msg.fits_iff.mpr hfits) hformat hrest

theorem handleable_of_register {header : Header} {msg : RegisterConnectionMsg}
    {buffer frame : Frame} (htype : messageTypeOf header = some .registerConnection)
    (hfits : Token msg.hostname ∧ msg.hostname.length < 256)
    (hframe : serializeRegisterConnectionMsg header msg buffer = .ok frame) :
    Handleable frame ∧ registrationOf frame = some msg := by
  have hheader : Headed header frame := headed_textMessage (.registerConnection msg) hframe
  have hscan := sscanf_of_textMessage (.registerConnection msg) hframe hfits
  have hregmsg : ∀ malloc, deserializeRegisterConnectionMsg malloc frame = .ok msg := by
    intro malloc
    unfold deserializeRegisterConnectionMsg
    exact (congrArg (· >>= _) hscan).trans rfl
  refine ⟨⟨header, hheader, fun _ => ⟨msg, hregmsg⟩, ?_⟩,
    registrationOf_of_register hheader htype hregmsg⟩
  intro hother
  exact absurd (htype.symm.trans hother) (by decide)

theorem handleable_of_deregister {header : Header} {msg : DeregisterConnectionMsg}
    {buffer frame : Frame} (htype : messageTypeOf header = some .deregisterConnection)
    (hfits : Token msg.hostname ∧ msg.hostname.length < 256)
    (hframe : serializeDeregisterConnectionMsg header msg buffer = .ok frame) :
    Handleable frame ∧ registrationOf frame = none := by
  have hheader : Headed header frame := headed_textMessage (.deregisterConnection msg) hframe
  have hscan := sscanf_of_textMessage (.deregisterConnection msg) hframe hfits
  have hother : messageTypeOf header ≠ some .registerConnection := by
    intro hregister
    exact absurd (htype.symm.trans hregister) (by decide)
  refine ⟨⟨header, hheader, fun h => absurd h hother, ?_⟩,
    registrationOf_of_other hheader hother⟩
  intro _ malloc
  unfold deserializeDeregisterConnectionMsg
  exact ⟨msg, (congrArg (· >>= _) hscan).trans rfl⟩

theorem handleable_of_other {header : Header} {frame : Frame} (hheader : Headed header frame)
    (hregister : messageTypeOf header ≠ some .registerConnection)
    (hderegister : messageTypeOf header ≠ some .deregisterConnection) :
    Handleable frame ∧ registrationOf frame = none :=
  ⟨⟨header, hheader, fun h => absurd h hregister, fun h => absurd h hderegister⟩,
    registrationOf_of_other hheader hregister⟩

/-- What a client sends can be handled, and carries the registration that has been sent. -/
theorem handleable_of_sent {outgoing : Outgoing} (hformed : outgoing.WellFormed) {frame : Frame}
    (hframe : outgoing.frame = some (.ok frame)) :
    Handleable frame ∧ registrationOf frame = outgoing.registration := by
  cases outgoing with
  | buffer buffer => exact absurd hformed id
  | message header msg writeBuffer app =>
      have hsent : serializeToServer app header msg writeBuffer = some (.ok frame) := hframe
      have hheader := headed_of_serializeToServer hsent
      unfold serializeToServer at hsent
      split at hsent
      case h_1 htype => exact handleable_of_register htype hformed (Option.some.inj hsent)
      case h_2 htype => exact handleable_of_deregister htype hformed (Option.some.inj hsent)
      case h_3 htype => exact handleable_of_other hheader (by simp [htype]) (by simp [htype])
      case h_4 htype => exact handleable_of_other hheader (by simp [htype]) (by simp [htype])
      case h_5 htype => exact handleable_of_other hheader (by simp [htype]) (by simp [htype])
      case h_6 htype => exact handleable_of_other hheader (by simp [htype]) (by simp [htype])
      case h_7 htype => exact handleable_of_other hheader (by simp [htype]) (by simp [htype])
      all_goals cases hsent

end Dynpm.Delivery
