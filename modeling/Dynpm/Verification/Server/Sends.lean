import Dynpm.Model.Send
import Dynpm.Verification.Protocol.TextRoundTrip

/-! # Sends to a client

An accepted send appends the serialised frame and leaves the mutexes as they were. A send that is
rejected keeps `messages_mutex`, so that no later send on the connection returns.
-/

namespace Dynpm.Send

open Library Dynpm.Protocol

variable {s t u : ClientConnection} {call : Call}

/-- The types that `dynpm_send_message_to_client_connection` serialises. -/
def toClientTypes : List MessageType :=
  [.offerResources, .readyTbon, .readyDynamicPm, .dynamicIoOut, .processesDone,
    .reportProcessData, .reallocationStart]

/-- The type in the header of the call is one of these. -/
def Call.accepted (call : Call) : Bool :=
  (messageTypeOf call.header).any fun type => type ∈ toClientTypes

/-- What the calls have left behind: the mutexes are as they were, each rejected call has
returned -1, and each accepted one has returned 0 and appended its frame. -/
structure Usable (s : ClientConnection) (calls : List Call) (t : ClientConnection) : Prop where
  unlocked : t.messagesMutexHeld = false
  mutex : t.mutex = s.mutex
  returned : t.returned = s.returned ++ calls.map fun call => if call.accepted then 0 else -1
  messages : ∃ frames, t.messages = s.messages ++ frames ∧
    List.Forall₂ (fun call frame =>
      clientCase call.header call.msg call.buffer = .serialized (.ok frame))
      (calls.filter Call.accepted) frames

/-- The accepted types are those that the switch serialises. -/
theorem accepted_iff : call.accepted = true ↔
    ∃ frame, clientCase call.header call.msg call.buffer = .serialized frame := by
  unfold clientCase Call.accepted
  split
  case h_17 =>
    -- no case of the switch names the type
    cases htype : messageTypeOf call.header <;> simp_all [toClientTypes]
  all_goals simp_all [toClientTypes]

/-- What a call can do: it is accepted and appends its frame, or it is rejected and keeps
`messages_mutex`. -/
theorem sendMessage_cases (hstep : sendMessageToClientConnection s call = some t) :
    (call.accepted = true ∧ ∃ frame,
      clientCase call.header call.msg call.buffer = .serialized (.ok frame) ∧
      t = { s with messages := s.messages ++ [frame], returned := s.returned ++ [0] }) ∨
    (call.accepted = false ∧ t.messagesMutexHeld = true) := by
  unfold sendMessageToClientConnection at hstep
  split at hstep
  · exact absurd hstep (by simp)
  · split at hstep
    · next hcase =>
        refine Or.inr ⟨?_, ?_⟩
        · simpa [hcase] using @accepted_iff call
        · rw [← Option.some.inj hstep]
    · next hcase =>
        refine Or.inr ⟨?_, ?_⟩
        · simpa [hcase] using @accepted_iff call
        · rw [← Option.some.inj hstep]
    · next frame hcase =>
        exact Or.inl ⟨accepted_iff.mpr ⟨_, hcase⟩, frame, hcase, (Option.some.inj hstep).symm⟩
    · exact absurd hstep (by simp)

theorem usable_nil (h : s.messagesMutexHeld = false) : Usable s [] s where
  unlocked := h
  mutex := rfl
  returned := (List.append_nil _).symm
  messages := ⟨[], (List.append_nil _).symm, .nil⟩

/-- An accepted call in front of calls that leave the connection usable. -/
theorem Usable.cons {frame : Frame} {calls : List Call}
    (haccepted : call.accepted = true)
    (hframe : clientCase call.header call.msg call.buffer = .serialized (.ok frame))
    (h : Usable { s with messages := s.messages ++ [frame], returned := s.returned ++ [0] }
      calls t) : Usable s (call :: calls) t := by
  obtain ⟨frames, hmessages, hall⟩ := h.messages
  refine ⟨h.unlocked, h.mutex, ?_, frame :: frames, ?_, ?_⟩
  · rw [h.returned, List.map_cons, if_pos haccepted, List.append_assoc, List.singleton_append]
  · rw [hmessages, List.append_assoc, List.singleton_append]
  · rw [List.filter_cons_of_pos haccepted]
    exact .cons hframe hall

/-! ## Sequences of calls -/

/-- Calls that are all accepted leave the connection usable. -/
theorem usable_of_respecting {calls done : List Call} (hfree : s.messagesMutexHeld = false)
    (h : clientSends.Respecting (fun _ call => call.accepted = true) s calls)
    (hfront : done <+: calls) (hrun : clientSends.run s done = some t) : Usable s done t := by
  induction done generalizing s calls with
  | nil =>
      obtain rfl := Option.some.inj hrun
      exact usable_nil hfree
  | cons call done ih =>
      obtain ⟨rest, rfl⟩ := hfront
      obtain ⟨u, hstep, hrun⟩ := Option.bind_eq_some_iff.mp hrun
      obtain ⟨haccepted, hrest⟩ := h u hstep
      rcases sendMessage_cases hstep with ⟨_, frame, hframe, rfl⟩ | ⟨hrejected, _⟩
      · exact Usable.cons haccepted hframe (ih hfree hrest (List.prefix_append _ _) hrun)
      · exact absurd (haccepted.symm.trans hrejected) (by decide)

/-- Calls that never leave `messages_mutex` locked are all accepted. -/
theorem respecting_of_unlocked {calls : List Call}
    (h : ∀ done t, done <+: calls → clientSends.run s done = some t →
      t.messagesMutexHeld = false) :
    clientSends.Respecting (fun _ call => call.accepted = true) s calls := by
  induction calls generalizing s with
  | nil => trivial
  | cons call calls ih =>
      intro u hstep
      have hrun : ∀ done, clientSends.run s (call :: done) = clientSends.run u done := by
        intro done
        rw [System.run, hstep]
        rfl
      constructor
      · rcases sendMessage_cases hstep with ⟨haccepted, _⟩ | ⟨_, hheld⟩
        · exact haccepted
        · have hunlocked := h [call] u ⟨calls, rfl⟩ (hrun [])
          exact absurd (hunlocked.symm.trans hheld) (by decide)
      · apply ih
        intro done t hfront hdone
        exact h (call :: done) t (List.cons_prefix_cons.mpr ⟨rfl, hfront⟩)
          ((hrun done).trans hdone)

/-- After each call of a sequence the mutexes are as before, and the queue has grown by the
frames of the accepted calls, if and only if no call that returns is rejected. -/
theorem sends_leave_connection_usable_iff (hfree : s.messagesMutexHeld = false)
    (calls : List Call) :
    (∀ done t, done <+: calls → clientSends.run s done = some t → Usable s done t) ↔
      clientSends.Respecting (fun _ call => call.accepted = true) s calls := by
  constructor
  · intro h
    apply respecting_of_unlocked
    intro done t hfront hrun
    exact (h done t hfront hrun).unlocked
  · intro h done t hfront hrun
    exact usable_of_respecting hfree h hfront hrun

/-- A fresh connection. -/
def freshConnection : ClientConnection := ⟨false, none, [], []⟩

/-- A message of type `PROCESSES_DONE`. -/
def doneCall : Call := ⟨⟨2, 18⟩, .processesDone ⟨0, 1, 0⟩, zeroFrame⟩

/-- A call that the switch serialises returns. -/
theorem step_of_serialized {frame : Frame} (hfree : s.messagesMutexHeld = false)
    (h : clientCase call.header call.msg call.buffer = .serialized (.ok frame)) :
    clientSends.step s call =
      some { s with messages := s.messages ++ [frame], returned := s.returned ++ [0] } := by
  change sendMessageToClientConnection s call = _
  rw [sendMessageToClientConnection, hfree, h]
  rfl

theorem doneCalls_usable :
    ∃ t, clientSends.run freshConnection [doneCall, doneCall] = some t ∧
      Usable freshConnection [doneCall, doneCall] t ∧ t.returned = [0, 0] ∧
      t.messages.length = 2 := by
  obtain ⟨frame, hframe, _⟩ :=
    (TextMessage.processesDone ⟨0, 1, 0⟩).serialize_holds ⟨2, 18⟩ zeroFrame (by decide)
  have hcase : clientCase doneCall.header doneCall.msg doneCall.buffer =
      .serialized (.ok frame) := congrArg ClientCase.serialized hframe
  have hrun : clientSends.run freshConnection [doneCall, doneCall] =
      some ⟨false, none, [frame, frame], [0, 0]⟩ := by
    rw [System.run, step_of_serialized rfl hcase, Option.bind_some, System.run,
      step_of_serialized rfl hcase]
    rfl
  have haccepted : doneCall.accepted = true := by decide
  have hrespecting : clientSends.Respecting (fun _ call => call.accepted = true) freshConnection
      [doneCall, doneCall] :=
    fun _ _ => ⟨haccepted, fun _ _ => ⟨haccepted, trivial⟩⟩
  have husable := (sends_leave_connection_usable_iff rfl [doneCall, doneCall]).mpr hrespecting
  exact ⟨_, hrun, husable _ _ (List.prefix_refl _) hrun, rfl, rfl⟩

/-- An acknowledgement of type `PROCESSES_DONE_ACK`, which is not among the accepted types. -/
def unknownCall : Call := ⟨⟨4, 19⟩, .processesDone ⟨0, 1, 0⟩, zeroFrame⟩

/-- The call returns -1 with `messages_mutex` locked, and no later call returns. -/
theorem unknownCall_keeps_mutex :
    ∃ t, clientSends.run freshConnection [unknownCall] = some t ∧ t.returned = [-1] ∧
      t.messagesMutexHeld = true ∧ ¬ Usable freshConnection [unknownCall] t ∧
      ∀ call, clientSends.step t call = none := by
  refine ⟨⟨true, none, [], [-1]⟩, rfl, rfl, rfl, ?_, fun call => rfl⟩
  intro h
  exact absurd h.unlocked (by decide)

end Dynpm.Send
