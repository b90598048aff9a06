import Dynpm.Model.Delivery
import Dynpm.Verification.MessageQueue.Exactness
import Dynpm.Verification.Server.Order
import Dynpm.Verification.Server.Reassembly

/-! # Messages on their way to the handler

Each stage keeps the frames of a client in order and loses none, as long as nothing interferes with
it. What has been shown of the stages is put together here.
-/

namespace Dynpm.Delivery

open Library

/-! ## The stages -/

section

variable {β : Type}

/-- Buffers that have been handed over stay so. -/
theorem handed_step {s t : MessageQueue.State β} {a : MessageQueue.Action β}
    (ht : MessageQueue.step s a = some t) : s.handed <+: t.handed := by
  cases a with
  | sendLink u =>
      simp only [MessageQueue.step] at ht
      split at ht
      · next buffer newMessage tail _ =>
          obtain rfl := Option.some.inj ht
          cases tail with
          | none => exact List.prefix_rfl
          | some tail => exact List.prefix_rfl
      · cases ht
  | drainHandOver d =>
      simp only [MessageQueue.step] at ht
      split at ht
      · obtain rfl := Option.some.inj ht
        unfold MessageQueue.handOver
        split
        · exact List.prefix_append _ _
        · exact List.prefix_rfl
      · cases ht
  | _ =>
      simp only [MessageQueue.step] at ht
      split at ht
      · obtain rfl := Option.some.inj ht
        exact List.prefix_rfl
      · cases ht

/-- The unit that an action adds to a work queue. -/
def newUnits {workers : ℕ} : WorkQueue.Action workers β → List β
  | .add unit _ => [unit]
  | _ => []

/-- The units added are recorded, and only `dynpm_work_queue_finalize` ends the queue. -/
theorem added_step {workers : ℕ} [DecidableEq β] {s t : WorkQueue.State workers β}
    {a : WorkQueue.Action workers β} (ht : WorkQueue.step s a = some t) (ha : a ≠ .finalize) :
    t.added = s.added ++ newUnits a ∧ t.finalized = s.finalized := by
  cases a with
  | lock w =>
      simp only [WorkQueue.step] at ht
      split at ht
      · obtain rfl := Option.some.inj ht
        unfold WorkQueue.takeMutex
        split
        · exact ⟨(List.append_nil _).symm, rfl⟩
        · split
          · exact ⟨(List.append_nil _).symm, rfl⟩
          · exact ⟨(List.append_nil _).symm, rfl⟩
      · cases ht
  | add unit wake =>
      rcases (WorkQueue.workQueueAdd_cases ht).2 with ⟨_, _, rfl⟩ | ⟨_, rfl⟩
      · exact ⟨rfl, rfl⟩
      · exact ⟨rfl, rfl⟩
  | finalize => exact absurd rfl ha
  | _ =>
      simp only [WorkQueue.step] at ht
      split at ht
      · obtain rfl := Option.some.inj ht
        exact ⟨(List.append_nil _).symm, rfl⟩
      · cases ht

end

section

variable {α κ : Type} [DecidableEq α] [DecidableEq κ] {key : α → Option κ} {workers : ℕ}
  {s : WorkQueue.State workers α}

end

variable {workers : ℕ}

theorem written_eq {s t : MessageQueue.State Frame} {a : MessageQueue.Action Frame}
    (ht : MessageQueue.step s a = some t) :
    t.handed.flatMap Frame.bytes = s.handed.flatMap Frame.bytes ++ written s t := by
  obtain ⟨more, hmore⟩ := handed_step ht
  rw [written, ← hmore, List.drop_left, List.flatMap_append]

theorem bytes_injective : Function.Injective Frame.bytes := by
  rintro ⟨bytes, _⟩ ⟨bytes', _⟩ h
  exact (Frame.mk.injEq _ _ _ _).mpr h

/-- The bytes of frames that have been written one after the other. -/
theorem frames_flatMap_bytes (messages : List Frame) :
    frames maxMessageSize (messages.flatMap Frame.bytes) = messages.map Frame.bytes := by
  rw [List.flatMap_def]
  apply frames_flatten (by decide)
  intro block hblock
  obtain ⟨frame, _, rfl⟩ := List.mem_map.mp hblock
  exact frame.length_eq

theorem queueAction_ne_finalize {s : ServerPool.State workers} {a : ServerPool.Action workers}
    {b : WorkQueue.Action workers ServerPool.WorkUnit}
    (hb : ServerPool.queueAction s a = some b) : b ≠ .finalize := by
  rintro rfl
  cases a <;> simp [ServerPool.queueAction] at hb

/-- What a step of the server adds to the work queue. -/
theorem pool_step {s t : ServerPool.State workers} {a : ServerPool.Action workers}
    (ht : ServerPool.step s a = some t) :
    t.queue.added = s.queue.added ++ ((ServerPool.queueAction s a).map newUnits).getD [] ∧
      t.queue.finalized = s.queue.finalized := by
  rcases ServerPool.queue_step ht with ⟨hnone, hqueue⟩ | ⟨b, hb, hqueue⟩
  · rw [hnone, hqueue]
    exact ⟨(List.append_nil _).symm, rfl⟩
  · rw [hb]
    exact added_step hqueue (queueAction_ne_finalize hb)

/-! ## Steps of the server -/

theorem concat_prefix_of_getElem? {α : Type} {front whole : List α} {x : α} (h : front <+: whole)
    (hx : whole[front.length]? = some x) : front ++ [x] <+: whole := by
  obtain ⟨rest, rfl⟩ := h
  cases rest with
  | nil => simp at hx
  | cons y rest =>
      obtain rfl : y = x := by simpa using hx
      exact ⟨rest, by simp⟩

theorem getElem?_of_nextFrame {s : State workers} {c : ℕ} {frame : Frame}
    (h : s.nextFrame c = some frame) :
    (s.reader.messagesOf c)[(s.addedFrames c).length]? = some frame.bytes := by
  unfold State.nextFrame at h
  split at h
  · cases h
  · next bytes hbytes =>
      split at h
      · obtain rfl := Option.some.inj h
        exact hbytes
      · cases h

/-- The other steps of the server are those of the server alone. -/
theorem step_server {malloc : ℕ → ℕ → UInt8} {s t : State workers}
    {a : ServerPool.Action workers} (ht : step malloc s (.server a) = some t) :
    (∀ c frame wake, a ≠ .read c frame wake) ∧
      ∃ pool, ServerPool.step s.pool a = some pool ∧ t = { s with pool } := by
  cases a with
  | read c frame wake => cases ht
  | eof c =>
      obtain ⟨_, ht⟩ := Option.ite_none_right_eq_some.mp ht
      obtain ⟨pool, hpool, rfl⟩ := Option.map_eq_some_iff.mp ht
      exact ⟨by simp, pool, hpool, rfl⟩
  | _ =>
      obtain ⟨pool, hpool, rfl⟩ := Option.map_eq_some_iff.mp ht
      exact ⟨by simp, pool, hpool, rfl⟩

/-! ## The invariant -/

/-- What each stage holds of the frames of a client. -/
structure Invariant (s : State workers) : Prop where
  queue : ∀ c, ∃ cells, MessageQueue.Invariant (s.queue c) cells
  stream : ∀ c, ServerRead.streamOf c s.reader.received ++ s.wire c =
    (s.queue c).handed.flatMap Frame.bytes
  reader : ServerRead.Invariant s.reader
  added : ∀ c, (s.addedFrames c).map Frame.bytes <+: s.reader.messagesOf c
  order : WorkQueue.OrderInvariant ServerPool.messageKey s.pool.queue
  running : s.pool.queue.finalized = false

/-- No stage is interfered with: a client links a message only behind one that is still in its
queue, no callback completes a message that an earlier one has begun, and a worker calls the handler
only when no other worker still has to call it for an earlier message of the same client. -/
def Undisturbed (s : State workers) : Action workers → Prop
  | .client c action => MessageQueue.TailStillQueued (s.queue c) action
  | .read _ count => s.reader.messageBytesRead = 0 ∨
      s.reader.messageBytesRead + count < maxMessageSize
  | .add _ _ => True
  | .server action => ServerPool.StartsOldest s.pool action

namespace Invariant

variable {s t : State workers} {c : ℕ}

theorem client (h : Invariant s) {action : MessageQueue.Action Frame}
    (htail : MessageQueue.TailStillQueued (s.queue c) action)
    (ht : clientStep s c action = some t) : Invariant t := by
  obtain ⟨queue, hqueue, rfl⟩ := Option.map_eq_some_iff.mp ht
  refine ⟨?_, ?_, h.reader, h.added, h.order, h.running⟩
  · intro d
    by_cases hd : d = c
    · subst hd
      obtain ⟨cells, hcells⟩ := h.queue d
      simpa using hcells.step htail hqueue
    · simpa [hd] using h.queue d
  · intro d
    by_cases hd : d = c
    · subst hd
      simp only [Function.update_self]
      rw [written_eq hqueue, ← List.append_assoc, h.stream d]
    · simpa [hd] using h.stream d

/-- A callback keeps what the reader has put together before. -/
theorem messagesOf_onRead (h : Invariant s) (malloc : ℕ → ℕ → UInt8) {count : ℕ}
    (hreader : ServerRead.Invariant (onRead malloc s c count).reader) (d : ℕ) :
    s.reader.messagesOf d <+: (onRead malloc s c count).reader.messagesOf d := by
  rw [h.reader.reassembled.1 d, hreader.reassembled.1 d]
  apply frames_mono
  simp only [onRead, ServerRead.received_onRead, ServerRead.streamOf_append]
  exact List.prefix_append _ _

theorem read (h : Invariant s) (malloc : ℕ → ℕ → UInt8) {count : ℕ}
    (hcount : count ≤ (s.wire c).length)
    (hwhole : s.reader.messageBytesRead = 0 ∨
      s.reader.messageBytesRead + count < maxMessageSize) :
    Invariant (onRead malloc s c count) := by
  have hreader : ServerRead.Invariant (onRead malloc s c count).reader := by
    rcases hwhole with hzero | hlt
    · exact (h.reader.onRead_aligned malloc _ hzero).1
    · refine (h.reader.onRead_short malloc _ ?_).1
      rwa [List.length_take, Nat.min_eq_left hcount]
  refine ⟨h.queue, ?_, hreader, ?_, h.order, h.running⟩
  · intro d
    simp only [onRead, ServerRead.received_onRead, ServerRead.streamOf_append]
    by_cases hd : d = c
    · subst hd
      rw [if_pos rfl, Function.update_self, List.append_assoc, List.take_append_drop, h.stream d]
    · rw [if_neg (Ne.symm hd), Function.update_of_ne hd, List.append_nil, h.stream d]
  · intro d
    exact (h.added d).trans (h.messagesOf_onRead malloc hreader d)

/-- A step of the server that adds units with the given frames. -/
theorem pool (h : Invariant s) {a : ServerPool.Action workers} {pool : ServerPool.State workers}
    (holdest : ServerPool.StartsOldest s.pool a) (ht : ServerPool.step s.pool a = some pool)
    (hadded : ∀ d, (s.addedFrames d ++
      (((ServerPool.queueAction s.pool a).map newUnits).getD []).filterMap (frameOf d)).map
        Frame.bytes <+: s.reader.messagesOf d) : Invariant { s with pool } := by
  obtain ⟨hunits, hfinalized⟩ := pool_step ht
  refine ⟨h.queue, h.stream, h.reader, ?_, ServerPool.orderInvariant_step h.order holdest ht,
    hfinalized.trans h.running⟩
  intro d
  have heq : State.addedFrames { s with pool } d = s.addedFrames d ++
      (((ServerPool.queueAction s.pool a).map newUnits).getD []).filterMap (frameOf d) := by
    rw [State.addedFrames, State.addedFrames, hunits, List.filterMap_append]
  rw [heq]
  exact hadded d

theorem add (h : Invariant s) {frame : Frame} {wake : Option (Fin workers)}
    {pool : ServerPool.State workers} (hnext : s.nextFrame c = some frame)
    (ht : ServerPool.step s.pool (.read c frame wake) = some pool) : Invariant { s with pool } := by
  refine h.pool (a := .read c frame wake) trivial ht ?_
  intro d
  by_cases hd : d = c
  · subst hd
    have hunit : (((ServerPool.queueAction s.pool (.read d frame wake)).map newUnits).getD
        []).filterMap (frameOf d) = [frame] := by
      simp [ServerPool.queueAction, newUnits, frameOf]
    rw [hunit, List.map_append]
    apply concat_prefix_of_getElem? (h.added d)
    rw [List.length_map]
    exact getElem?_of_nextFrame hnext
  · have hunit : (((ServerPool.queueAction s.pool (.read c frame wake)).map newUnits).getD
        []).filterMap (frameOf d) = [] := by
      simp [ServerPool.queueAction, newUnits, frameOf, Ne.symm hd]
    rw [hunit, List.append_nil]
    exact h.added d

theorem server (h : Invariant s) {a : ServerPool.Action workers} {pool : ServerPool.State workers}
    (hread : ∀ c frame wake, a ≠ .read c frame wake)
    (holdest : ServerPool.StartsOldest s.pool a) (ht : ServerPool.step s.pool a = some pool) :
    Invariant { s with pool } := by
  apply h.pool holdest ht
  intro d
  have hnone : (((ServerPool.queueAction s.pool a).map newUnits).getD []).filterMap
      (frameOf d) = [] := by
    cases a with
    | read c frame wake => exact absurd rfl (hread c frame wake)
    | accept wake => rfl
    | _ => rfl
  rw [hnone, List.append_nil]
  exact h.added d

theorem step (h : Invariant s) {malloc : ℕ → ℕ → UInt8} {a : Action workers}
    (hgood : Undisturbed s a) (ht : Delivery.step malloc s a = some t) : Invariant t := by
  cases a with
  | client c action => exact h.client hgood ht
  | read c count =>
      obtain ⟨⟨_, _, _, _, hcount⟩, ht⟩ := Option.ite_none_right_eq_some.mp ht
      obtain rfl := Option.some.inj ht
      exact h.read malloc hcount hgood
  | add c wake =>
      simp only [Delivery.step] at ht
      split at ht
      · cases ht
      · next frame hnext =>
          obtain ⟨pool, hpool, rfl⟩ := Option.map_eq_some_iff.mp ht
          exact h.add hnext hpool
  | server action =>
      obtain ⟨hread, pool, hpool, rfl⟩ := step_server ht
      exact h.server hread hgood hpool

end Invariant

theorem invariant_initial {malloc : ℕ → ℕ → UInt8} {threadCount : ℤ} {s : State threadCount.toNat}
    (h : (system malloc threadCount).initial s) : Invariant s := by
  obtain ⟨queue, wire, reader, pool⟩ := s
  obtain ⟨rfl, rfl, rfl, hpool⟩ := h
  obtain ⟨memory, rfl⟩ := ServerPool.eq_idle_of_initial hpool
  refine ⟨fun _ => ⟨[], MessageQueue.invariant_initial⟩, fun _ => rfl,
    ServerRead.invariant_initial, fun _ => List.nil_prefix, ?_, rfl⟩
  exact WorkQueue.orderInvariant_init hpool.1

/-! ## What the handler is called with -/

namespace Invariant

variable {s : State workers}

/-- The messages of a client that have arrived are those that it has handed over, as far as their
bytes have arrived. -/
theorem messagesOf_handed (h : Invariant s) (c : ℕ) :
    s.reader.messagesOf c <+: (s.queue c).handed.map Frame.bytes := by
  rw [h.reader.reassembled.1 c, ← frames_flatMap_bytes]
  apply frames_mono
  rw [← h.stream c]
  exact List.prefix_append _ _

/-- The frames that a client has enqueued, as far as they have been handed over. -/
theorem handed_append (h : Invariant s) (c : ℕ) :
    (s.queue c).handed ++ (s.queue c).queued = (s.queue c).enqueued := by
  obtain ⟨cells, hcells⟩ := h.queue c
  exact hcells.exact_state

end Invariant

namespace Invariant

variable {s : State workers}

end Invariant

theorem onRead_frame (malloc : ℕ → ℕ → UInt8) (frame : Frame) :
    (ServerRead.onRead malloc ServerRead.initial (0, frame.bytes)).workUnits =
      [(0, frame.bytes)] := by
  have hspec := ServerRead.onReadLoop_aligned malloc 0 frame.bytes
    (ServerRead.mallocBuffer malloc 0)
    { (ServerRead.initial : ServerRead.State ℕ) with
      mallocs := 1
      received := [(0, frame.bytes)] } rfl
  have hframes : frames maxMessageSize frame.bytes = [frame.bytes] := by
    simpa using frames_flatMap_bytes [frame]
  have hunits := hspec.units
  rw [hframes] at hunits
  exact hunits

end Dynpm.Delivery
