import Dynpm.Verification.Delivery.Registrations

/-! # The identities of the clients at the server

While a worker is in the handler with a message of a client, the identity of the client is that of
the last registration before this message, and that of the last registration so far otherwise.
-/

namespace Dynpm.Delivery

open Library Dynpm.Protocol Dynpm.ClientSend

variable {workers : ℕ}

/-! ## What the workers are doing -/

/-- The message of `c` with which a worker has called the handler, which has not returned yet. -/
def beingHandled (c : ℕ) : WorkQueue.Worker ServerPool.WorkUnit → Option Frame
  | .running unit => frameOf c unit
  | _ => none

def handling (queue : WorkQueue.State workers ServerPool.WorkUnit) (c : ℕ) :
    Fin workers → Option Frame :=
  beingHandled c ∘ queue.worker

/-- The messages of `c` with which the handler has been called. -/
def startedFrames (queue : WorkQueue.State workers ServerPool.WorkUnit) (c : ℕ) : List Frame :=
  (queue.started.map Prod.snd).filterMap (frameOf c)

section

variable {queue after : WorkQueue.State workers ServerPool.WorkUnit} {w : Fin workers}

theorem handling_update (c : ℕ) (place : WorkQueue.Worker ServerPool.WorkUnit) :
    handling { queue with worker := Function.update queue.worker w place } c =
      Function.update (handling queue c) w (beingHandled c place) :=
  Function.comp_update _ _ _ _

/-- A worker that moves and is in the handler neither before nor after. -/
theorem handling_move {c : ℕ} {place : WorkQueue.Worker ServerPool.WorkUnit}
    (hbefore : beingHandled c (queue.worker w) = none) (hafter : beingHandled c place = none) :
    beingHandled c ∘ Function.update queue.worker w place = handling queue c := by
  rw [Function.comp_update, hafter, ← hbefore]
  exact Function.update_eq_self _ _

theorem handling_takeMutex (c : ℕ) (hbefore : beingHandled c (queue.worker w) = none) :
    handling (WorkQueue.takeMutex queue w) c = handling queue c ∧
      startedFrames (WorkQueue.takeMutex queue w) c = startedFrames queue c := by
  refine ⟨?_, by rw [startedFrames, (WorkQueue.takeMutex_grows queue w).1, startedFrames]⟩
  unfold WorkQueue.takeMutex
  split
  · exact handling_move hbefore rfl
  · split
    · exact handling_move hbefore rfl
    · exact handling_move hbefore rfl

/-- Only a call and a return change which messages are being handled. -/
theorem handling_step {a : WorkQueue.Action workers ServerPool.WorkUnit}
    (h : WorkQueue.step queue a = some after) (hcall : ∀ w, a ≠ .call w)
    (hreturn : ∀ w, a ≠ .return w) (c : ℕ) :
    handling after c = handling queue c ∧ startedFrames after c = startedFrames queue c := by
  cases a with
  | lock w =>
      obtain ⟨hw, h⟩ := Option.ite_none_right_eq_some.mp h
      obtain rfl := Option.some.inj h
      apply handling_takeMutex
      rcases hw with hw | hw
      · rw [hw]
        rfl
      · rw [hw]
        rfl
  | spuriousWakeUp w =>
      obtain ⟨hw, h⟩ := Option.ite_none_right_eq_some.mp h
      obtain rfl := Option.some.inj h
      exact ⟨handling_move (by rw [hw]; rfl) rfl, rfl⟩
  | call w => exact absurd rfl (hcall w)
  | «return» w => exact absurd rfl (hreturn w)
  | add unit wake =>
      rcases (WorkQueue.workQueueAdd_cases h).2 with ⟨w, hw, rfl⟩ | ⟨_, rfl⟩
      · exact ⟨handling_move (by rw [hw]; rfl) rfl, rfl⟩
      · exact ⟨rfl, rfl⟩
  | finalize =>
      obtain rfl := Option.some.inj h
      refine ⟨funext fun v => ?_, rfl⟩
      simp only [handling, Function.comp_apply, WorkQueue.workQueueFinalize]
      split
      · next hv =>
          rw [hv]
          rfl
      · rfl

theorem handling_call (h : WorkQueue.step queue (.call w) = some after) :
    ∃ unit, queue.worker w = .popped unit ∧ ∀ c,
      handling after c = Function.update (handling queue c) w (frameOf c unit) ∧
        startedFrames after c = startedFrames queue c ++ (frameOf c unit).toList := by
  simp only [WorkQueue.step] at h
  split at h
  · next unit hw =>
      obtain rfl := Option.some.inj h
      refine ⟨unit, hw, fun c => ⟨handling_update c _, ?_⟩⟩
      rw [startedFrames, startedFrames, List.map_append, List.filterMap_append]
      cases hframe : frameOf c unit with
      | none => simp [hframe]
      | some frame => simp [hframe]
  · exact absurd h (by simp)

theorem handling_return (h : WorkQueue.step queue (.return w) = some after) :
    ∃ unit, queue.worker w = .running unit ∧ ∀ c,
      handling after c = Function.update (handling queue c) w none ∧
        startedFrames after c = startedFrames queue c := by
  simp only [WorkQueue.step] at h
  split at h
  · next unit hw =>
      obtain rfl := Option.some.inj h
      exact ⟨unit, hw, fun c => ⟨handling_update c _, rfl⟩⟩
  · exact absurd h (by simp)

end

/-! ## The identity of one client -/

/-- The last registration among the given frames. -/
def lastRegistration (frames : List Frame) : Option RegisterConnectionMsg :=
  (frames.filterMap registrationOf).getLast?

theorem lastRegistration_snoc (frames : List Frame) (frame : Frame) :
    lastRegistration (frames ++ [frame]) =
      (registrationOf frame).or (lastRegistration frames) := by
  rw [lastRegistration, lastRegistration, List.filterMap_append]
  cases h : registrationOf frame with
  | none => simp [h]
  | some regmsg => simp [h]

/-- The registration of a client, the messages of the client with which the handler has been called,
and the workers that are in the handler with one of them: either no worker is, and the registration
is the last one, or one worker is with the last message, which has had no effect yet. -/
inductive Identified (registration : Option RegisterConnectionMsg) (frames : List Frame)
    (handling : Fin workers → Option Frame) : Prop where
  | atRest (hnone : ∀ w, handling w = none) (h : registration = lastRegistration frames)
  | inHandler (front : List Frame) (frame : Frame) (w : Fin workers)
      (hframes : frames = front ++ [frame]) (hw : handling w = some frame)
      (hother : ∀ v, v ≠ w → handling v = none) (h : registration = lastRegistration front)

namespace Identified

variable {registration : Option RegisterConnectionMsg} {frames : List Frame}
  {handling : Fin workers → Option Frame} {w : Fin workers}

theorem call (h : Identified registration frames handling) (frame : Frame)
    (hnone : ∀ v, handling v = none) :
    Identified registration (frames ++ [frame])
      (Function.update handling w (some frame)) := by
  cases h with
  | atRest _ h =>
      refine .inHandler frames frame w rfl (Function.update_self _ _ _) ?_ h
      intro v hv
      rw [Function.update_of_ne hv]
      exact hnone v
  | inHandler _ _ v _ hv => exact absurd ((hnone v).symm.trans hv) (by simp)

theorem «return» (h : Identified registration frames handling) {frame : Frame}
    (hw : handling w = some frame) :
    Identified ((registrationOf frame).or registration) frames
      (Function.update handling w none) := by
  cases h with
  | atRest hnone => exact absurd ((hnone w).symm.trans hw) (by simp)
  | inHandler front frame' v hframes hv hother h =>
      obtain rfl : w = v := by
        by_contra hne
        exact absurd ((hother w hne).symm.trans hw) (by simp)
      obtain rfl := Option.some.inj (hw.symm.trans hv)
      refine .atRest ?_ ?_
      · intro u
        by_cases hu : u = w
        · rw [hu, Function.update_self]
        · rw [Function.update_of_ne hu]
          exact hother u hu
      · rw [hframes, lastRegistration_snoc, h]

end Identified

/-! ## The handler -/

/-- The handler of a message of one client leaves the identities of the others as they are. -/
theorem registration_topServerHandler {malloc : Garbage} {server after : Server.State} {c d : ℕ}
    {frame : Frame} (h : ServerPool.topServerHandler malloc server d frame = .ok after)
    (hne : d ≠ c) : after.registration c = server.registration c := by
  obtain ⟨header, _, h⟩ := bind_eq_ok h
  split at h
  · obtain ⟨regmsg, _, h⟩ := bind_eq_ok h
    obtain rfl := Except.ok.inj h
    simp only [Server.State.registration, Server.registerClientConnection,
      List.getElem?_set_ne hne]
  · obtain ⟨_, _, h⟩ := bind_eq_ok h
    exact Server.registration_of_connections (Server.deregister_keeps h).1 c
  · obtain rfl := Except.ok.inj h
    rfl

theorem Handleable.registration {frame : Frame} (h : Handleable frame) {malloc : Garbage}
    {server after : Server.State} {c : ℕ} (hc : c < server.connections.length)
    (hafter : ServerPool.topServerHandler malloc server c frame = .ok after) :
    after.registration c = (registrationOf frame).or (server.registration c) := by
  have hconnections := h.topServerHandler hafter
  cases hregistration : registrationOf frame with
  | none =>
      rw [hregistration] at hconnections
      exact Server.registration_of_connections hconnections c
  | some regmsg =>
      rw [hregistration] at hconnections
      simp only [Server.State.registration, hconnections, List.getElem?_set_self hc,
        Option.join_some, Option.some_or]

/-- What the function of a unit does to the identity of a client. -/
theorem registration_runUnit {malloc : Garbage} {s u : ServerPool.State workers}
    {unit : ServerPool.WorkUnit} (h : ServerPool.runUnit malloc s unit = .ok u) {c : ℕ}
    (hframe : ∀ frame ∈ frameOf c unit, Handleable frame ∧ c < s.server.connections.length) :
    u.server.registration c =
      ((frameOf c unit).bind registrationOf).or (s.server.registration c) := by
  obtain ⟨serial, d, job⟩ := unit
  cases job with
  | setup =>
      obtain rfl := Except.ok.inj h
      rfl
  | message frame =>
      obtain ⟨server, hserver, h⟩ := bind_eq_ok h
      obtain rfl := Except.ok.inj h
      by_cases hd : d = c
      · subst hd
        have heq : frameOf d ⟨serial, d, .message frame⟩ = some frame := if_pos rfl
        obtain ⟨hhandleable, hlength⟩ := hframe frame heq
        rw [heq]
        exact hhandleable.registration hlength hserver
      · have heq : frameOf c ⟨serial, d, .message frame⟩ = none := if_neg hd
        rw [heq]
        exact registration_topServerHandler hserver hd

/-! ## The server -/

/-- A worker calls the handler with a message only when no worker is in the handler with a message
of the same client. -/
def HandlesInTurn (s : ServerPool.State workers) : ServerPool.Action workers → Prop
  | .call w => ∀ unit, s.queue.worker w = .popped unit →
      ∀ c, (frameOf c unit).isSome → ∀ v, handling s.queue c v = none
  | _ => True

/-- What the workers rely on: the messages that they are given can be handled, and their connections
have been allocated. -/
structure PoolInvariant (s : ServerPool.State workers) : Prop where
  queue : WorkQueue.Invariant s.queue
  added : ∀ unit ∈ s.queue.added, ∀ c, ∀ frame ∈ frameOf c unit,
    Handleable frame ∧ c < s.server.connections.length
  handling : ∀ c w, ∀ frame ∈ handling s.queue c w,
    Handleable frame ∧ c < s.server.connections.length
  identified : ∀ c, Identified (s.server.registration c) (startedFrames s.queue c)
    (Delivery.handling s.queue c)

namespace PoolInvariant

variable {s t : ServerPool.State workers} {w : Fin workers}

/-- A step in which no worker enters or leaves the handler. -/
theorem keep (h : PoolInvariant s) {b : WorkQueue.Action workers ServerPool.WorkUnit}
    (hqueue : WorkQueue.step s.queue b = some t.queue) (hcall : ∀ w, b ≠ .call w)
    (hreturn : ∀ w, b ≠ .return w) (hfinalize : b ≠ .finalize)
    (hregistration : ∀ c, t.server.registration c = s.server.registration c)
    (hlength : s.server.connections.length ≤ t.server.connections.length)
    (hnew : ∀ unit ∈ newUnits b, ∀ c, ∀ frame ∈ frameOf c unit,
      Handleable frame ∧ c < t.server.connections.length) : PoolInvariant t := by
  have hkept := handling_step hqueue hcall hreturn
  refine ⟨h.queue.step hqueue, ?_, ?_, ?_⟩
  · intro unit hunit c frame hframe
    rw [(added_step hqueue hfinalize).1] at hunit
    rcases List.mem_append.mp hunit with hunit | hunit
    · exact (h.added unit hunit c frame hframe).imp_right fun hc => Nat.lt_of_lt_of_le hc hlength
    · exact hnew unit hunit c frame hframe
  · intro c w frame hframe
    rw [(hkept c).1] at hframe
    exact (h.handling c w frame hframe).imp_right fun hc => Nat.lt_of_lt_of_le hc hlength
  · intro c
    rw [(hkept c).1, (hkept c).2, hregistration c]
    exact h.identified c

theorem call (h : PoolInvariant s) (hturn : HandlesInTurn s (.call w))
    (hqueue : WorkQueue.step s.queue (.call w) = some t.queue) (hserver : t.server = s.server) :
    PoolInvariant t := by
  obtain ⟨unit, hw, hkept⟩ := handling_call hqueue
  have hadded : unit ∈ s.queue.added := by
    have hpopped := (h.queue.popped_not_started hw).1
    exact h.queue.popped_front.subset hpopped
  refine ⟨h.queue.step hqueue, ?_, ?_, ?_⟩
  · rw [(added_step hqueue (by simp)).1, hserver]
    simpa [newUnits] using h.added
  · intro c v frame hframe
    rw [hserver]
    rw [(hkept c).1] at hframe
    by_cases hv : v = w
    · rw [hv, Function.update_self] at hframe
      exact h.added unit hadded c frame hframe
    · rw [Function.update_of_ne hv] at hframe
      exact h.handling c v frame hframe
  · intro c
    rw [(hkept c).1, (hkept c).2, hserver]
    have hnone : Delivery.handling s.queue c w = none := by
      rw [Delivery.handling, Function.comp_apply, hw]
      rfl
    cases hframe : frameOf c unit with
    | none =>
        rw [Option.toList_none, List.append_nil, ← hnone, Function.update_eq_self]
        exact h.identified c
    | some frame =>
        exact (h.identified c).call frame (hturn unit hw c (by rw [hframe]; rfl))

theorem «return» (h : PoolInvariant s) {malloc : Garbage}
    (ht : ServerPool.returnUnit s w malloc = some t) : PoolInvariant t := by
  obtain ⟨hqueue, _⟩ := ServerPool.returnUnit_eq_some ht
  obtain ⟨unit, hw, hkept⟩ := handling_return hqueue
  unfold ServerPool.returnUnit at ht
  rw [hw] at ht
  dsimp only at ht
  split at ht
  · next u hu =>
      obtain ⟨queue, _, rfl⟩ := Option.map_eq_some_iff.mp ht
      have hlength := (ServerPool.runUnit_keeps hu).2
      have hunit : ∀ c, ∀ frame ∈ frameOf c unit,
          Handleable frame ∧ c < s.server.connections.length := by
        intro c frame hframe
        apply h.handling c w frame
        rw [Delivery.handling, Function.comp_apply, hw]
        exact hframe
      refine ⟨h.queue.step hqueue, ?_, ?_, ?_⟩
      · rw [(added_step hqueue (by simp)).1]
        simpa [newUnits, hlength] using h.added
      · intro c v frame hframe
        simp only [hlength]
        rw [(hkept c).1] at hframe
        by_cases hv : v = w
        · rw [hv, Function.update_self] at hframe
          exact absurd hframe (by simp)
        · rw [Function.update_of_ne hv] at hframe
          exact h.handling c v frame hframe
      · intro c
        rw [(hkept c).1, (hkept c).2]
        have hregistration := registration_runUnit hu (hunit c)
        simp only [hregistration]
        have hhandling : Delivery.handling s.queue c w = frameOf c unit := by
          rw [Delivery.handling, Function.comp_apply, hw]
          rfl
        cases hframe : frameOf c unit with
        | none =>
            rw [← hframe, ← hhandling, Function.update_eq_self, hhandling, hframe]
            exact h.identified c
        | some frame => exact (h.identified c).return (hhandling.trans hframe)
  · exact absurd ht (by simp)

theorem step (h : PoolInvariant s) {a : ServerPool.Action workers} (hturn : HandlesInTurn s a)
    (hread : ∀ c frame wake, a = .read c frame wake → Handleable frame)
    (ht : ServerPool.step s a = some t) : PoolInvariant t := by
  cases a with
  | accept wake =>
      obtain ⟨hqueue, hserver, _⟩ := ServerPool.addUnit_eq_some ht
      refine h.keep hqueue (by simp) (by simp) (by simp) ?_ ?_ ?_
      · intro c
        rw [hserver]
        exact Server.registration_setup s.server c
      · simp [hserver, Server.clientConnectionEventHandler]
      · simp [newUnits, frameOf]
  | read c frame wake =>
      obtain ⟨⟨_, hlive⟩, hadd⟩ := Option.ite_none_right_eq_some.mp ht
      obtain ⟨hqueue, hserver, _⟩ := ServerPool.addUnit_eq_some hadd
      refine h.keep hqueue (by simp) (by simp) (by simp) (fun _ => by rw [hserver])
        (by rw [hserver]) ?_
      intro unit hunit d frame' hframe
      obtain rfl := List.mem_singleton.mp hunit
      obtain ⟨rfl, rfl⟩ : c = d ∧ frame = frame' := by simpa [frameOf] using hframe
      rw [hserver]
      exact ⟨hread c frame wake rfl, hlive.1⟩
  | eof c =>
      obtain ⟨_, ht⟩ := Option.ite_none_right_eq_some.mp ht
      obtain ⟨server, rfl, _, hserver⟩ := ServerPool.onError_eq_some ht
      have hconnections := (Server.serverOnError_keeps hserver).1.1
      refine ⟨h.queue, ?_, ?_, ?_⟩
      · simpa only [hconnections] using h.added
      · simpa only [hconnections] using h.handling
      · intro d
        simp only [Server.registration_of_connections hconnections d]
        exact h.identified d
  | lock w =>
      obtain ⟨queue, hqueue, rfl⟩ := Option.map_eq_some_iff.mp ht
      exact h.keep hqueue (by simp) (by simp) (by simp) (fun _ => rfl) (Nat.le_refl _)
        (by simp [newUnits])
  | spuriousWakeUp w =>
      obtain ⟨queue, hqueue, rfl⟩ := Option.map_eq_some_iff.mp ht
      exact h.keep hqueue (by simp) (by simp) (by simp) (fun _ => rfl) (Nat.le_refl _)
        (by simp [newUnits])
  | call w =>
      obtain ⟨queue, hqueue, rfl⟩ := Option.map_eq_some_iff.mp ht
      exact h.call hturn hqueue rfl
  | «return» w malloc => exact h.return ht

end PoolInvariant

section

variable {β : Type} {P : β → Prop} {s t : MessageQueue.State β}

/-- The buffer that a thread is about to enqueue. -/
def beingSent : MessageQueue.SenderPc β → Option β
  | .locked buffer => some buffer
  | .walked buffer _ _ => some buffer
  | _ => none

/-- The buffers that have been enqueued, and those that are about to be. -/
structure Carries (P : β → Prop) (s : MessageQueue.State β) : Prop where
  enqueued : ∀ buffer ∈ s.enqueued, P buffer
  sending : ∀ u, ∀ buffer ∈ beingSent (s.sender u), P buffer

theorem Carries.sending_update (h : Carries P s) {u : ℕ} {pc : MessageQueue.SenderPc β}
    (hpc : ∀ buffer ∈ beingSent pc, P buffer) :
    ∀ v, ∀ buffer ∈ beingSent (Function.update s.sender u pc v), P buffer := by
  intro v
  by_cases hv : v = u
  · rw [hv, Function.update_self]
    exact hpc
  · rw [Function.update_of_ne hv]
    exact h.sending v

theorem Carries.step (h : Carries P s) {a : MessageQueue.Action β}
    (hnew : ∀ u buffer, a = .sendLock u buffer → P buffer)
    (ht : MessageQueue.step s a = some t) : Carries P t := by
  cases a with
  | sendLock u buffer =>
      simp only [MessageQueue.step] at ht
      split at ht
      · obtain rfl := Option.some.inj ht
        refine ⟨h.enqueued, h.sending_update ?_⟩
        intro buffer' hbuffer
        obtain rfl := Option.some.inj hbuffer
        exact hnew u buffer rfl
      · cases ht
  | sendWalk u =>
      simp only [MessageQueue.step] at ht
      split at ht
      · next buffer hu =>
          obtain rfl := Option.some.inj ht
          refine ⟨h.enqueued, h.sending_update ?_⟩
          intro buffer' hbuffer
          exact h.sending u buffer' (by rw [hu]; exact hbuffer)
      · cases ht
  | sendLink u =>
      simp only [MessageQueue.step] at ht
      split at ht
      · next buffer newMessage tail hu =>
          have hbuffer : P buffer := h.sending u buffer (by rw [hu]; rfl)
          have henqueued : ∀ buffer' ∈ s.enqueued ++ [buffer], P buffer' := by
            intro buffer' hmem
            rcases List.mem_append.mp hmem with hmem | hmem
            · exact h.enqueued buffer' hmem
            · rwa [List.mem_singleton.mp hmem]
          obtain rfl := Option.some.inj ht
          cases tail with
          | none => exact ⟨henqueued, h.sending_update (by simp [beingSent])⟩
          | some tail => exact ⟨henqueued, h.sending_update (by simp [beingSent])⟩
      · cases ht
  | sendUnlock u =>
      simp only [MessageQueue.step] at ht
      split at ht
      · obtain rfl := Option.some.inj ht
        exact ⟨h.enqueued, h.sending_update (by simp [beingSent])⟩
      · cases ht
  | drainHandOver d =>
      simp only [MessageQueue.step] at ht
      split at ht
      · obtain rfl := Option.some.inj ht
        unfold MessageQueue.handOver
        split
        · exact ⟨h.enqueued, h.sending⟩
        · exact ⟨h.enqueued, h.sending⟩
      · cases ht
  | _ =>
      simp only [MessageQueue.step] at ht
      split at ht
      · obtain rfl := Option.some.inj ht
        exact ⟨h.enqueued, h.sending⟩
      · cases ht

end

/-! ## Whole runs -/

/-- The frame is what is sent for a well-formed message. -/
def SentAs (outgoing : Outgoing) (frame : Frame) : Prop :=
  outgoing.WellFormed ∧ outgoing.frame = some (.ok frame)

/-- What the clients enqueue are well-formed messages. -/
def SendsMessages : Action workers → Prop
  | .client _ (.sendLock _ frame) => ∃ outgoing, SentAs outgoing frame
  | _ => True

/-- The messages of each client are handled one after the other. -/
def TakesTurns (s : State workers) : Action workers → Prop
  | .server action => HandlesInTurn s.pool action
  | _ => True

structure IdentityInvariant (s : State workers) : Prop where
  stages : Invariant s
  pool : PoolInvariant s.pool
  clients : ∀ c, Carries (fun frame => ∃ outgoing, SentAs outgoing frame) (s.queue c)

namespace IdentityInvariant

variable {s t : State workers}

/-- A frame that arrives is one that the client has enqueued. -/
theorem handleable_of_nextFrame (h : IdentityInvariant s) {c : ℕ} {frame : Frame}
    (hnext : s.nextFrame c = some frame) : Handleable frame := by
  have harrived : frame.bytes ∈ s.reader.messagesOf c :=
    List.mem_of_getElem? (getElem?_of_nextFrame hnext)
  obtain ⟨frame', hframe', hbytes⟩ :=
    List.mem_map.mp ((h.stages.messagesOf_handed c).subset harrived)
  obtain rfl := bytes_injective hbytes
  have henqueued : frame' ∈ (s.queue c).enqueued := by
    rw [← h.stages.handed_append c]
    exact List.mem_append_left _ hframe'
  obtain ⟨outgoing, hformed, hframe⟩ := (h.clients c).enqueued frame' henqueued
  exact (handleable_of_sent hformed hframe).1

theorem step (h : IdentityInvariant s) {malloc : ℕ → ℕ → UInt8} {a : Action workers}
    (hundisturbed : Undisturbed s a) (hsends : SendsMessages a) (hturns : TakesTurns s a)
    (ht : Delivery.step malloc s a = some t) : IdentityInvariant t := by
  refine ⟨h.stages.step hundisturbed ht, ?_, ?_⟩
  · cases a with
    | client c action =>
        obtain ⟨queue, _, rfl⟩ := Option.map_eq_some_iff.mp ht
        exact h.pool
    | read c count =>
        obtain ⟨_, ht⟩ := Option.ite_none_right_eq_some.mp ht
        obtain rfl := Option.some.inj ht
        exact h.pool
    | add c wake =>
        simp only [Delivery.step] at ht
        split at ht
        · cases ht
        · next frame hnext =>
            obtain ⟨pool, hpool, rfl⟩ := Option.map_eq_some_iff.mp ht
            refine h.pool.step (a := .read c frame wake) trivial ?_ hpool
            intro d frame' wake' heq
            obtain ⟨_, rfl, _⟩ := ServerPool.Action.read.inj heq
            exact h.handleable_of_nextFrame hnext
    | server action =>
        obtain ⟨hread, pool, hpool, rfl⟩ := step_server ht
        exact h.pool.step hturns (fun c frame wake heq => absurd heq (hread c frame wake)) hpool
  · cases a with
    | client c action =>
        obtain ⟨queue, hqueue, rfl⟩ := Option.map_eq_some_iff.mp ht
        intro d
        by_cases hd : d = c
        · subst hd
          simp only [Function.update_self]
          refine (h.clients d).step ?_ hqueue
          rintro u frame rfl
          exact hsends
        · simpa only [Function.update_of_ne hd] using h.clients d
    | read c count =>
        obtain ⟨_, ht⟩ := Option.ite_none_right_eq_some.mp ht
        obtain rfl := Option.some.inj ht
        exact h.clients
    | add c wake =>
        simp only [Delivery.step] at ht
        split at ht
        · cases ht
        · obtain ⟨pool, _, rfl⟩ := Option.map_eq_some_iff.mp ht
          exact h.clients
    | server action =>
        obtain ⟨_, pool, _, rfl⟩ := step_server ht
        exact h.clients

end IdentityInvariant

end Dynpm.Delivery
