import Dynpm.Verification.Server.Pool

/-! # The order in which the messages of a client are handled

The frames of a client are enqueued in the order in which they arrive, and a single worker
handles them in this order. Several workers pop them in this order, but the worker that has popped
a later frame may call the handler first.
-/

namespace Dynpm.ServerPool

open Library Dynpm.Protocol

/-- The connection whose message a unit carries. -/
def messageKey (unit : WorkUnit) : Option ℕ :=
  match unit.job with
  | .setup => none
  | .message _ => some unit.connection

variable {workers : ℕ} {s t : State workers}

/-- The handler has been called for the messages of each connection in the order in which they
were enqueued. -/
def MessagesInOrder (s : State workers) : Prop := WorkQueue.InOrder messageKey s.queue

/-- A worker calls the handler for a message only when no other worker still has to call it for an
earlier message of the same connection. -/
def StartsOldest (s : State workers) : Action workers → Prop
  | .call w => WorkQueue.OldestFirst messageKey s.queue (.call w)
  | _ => True

theorem startsOldest_iff {a : Action workers} {b : WorkQueue.Action workers WorkUnit}
    (h : queueAction s a = some b) :
    StartsOldest s a ↔ WorkQueue.OldestFirst messageKey s.queue b := by
  cases a with
  | eof c => exact absurd h (by simp [queueAction])
  | _ =>
      obtain rfl := Option.some.inj h
      exact Iff.rfl

theorem orderInvariant_step {a : Action workers}
    (h : WorkQueue.OrderInvariant messageKey s.queue) (holdest : StartsOldest s a)
    (hstep : step s a = some t) : WorkQueue.OrderInvariant messageKey t.queue := by
  rcases queue_step hstep with ⟨_, hqueue⟩ | ⟨b, hb, hqueue⟩
  · rw [hqueue]
    exact h
  · exact h.step ((startsOldest_iff hb).mp holdest) hqueue

theorem not_messagesInOrder_step {a : Action workers}
    (h : WorkQueue.OrderInvariant messageKey s.queue) (hnot : ¬ StartsOldest s a)
    (hstep : step s a = some t) : ¬ MessagesInOrder t := by
  rcases queue_step hstep with ⟨hnone, _⟩ | ⟨b, hb, hqueue⟩
  · cases a with
    | eof c => exact absurd trivial hnot
    | _ => exact absurd hnone (by simp [queueAction])
  · exact h.not_inOrder_step (fun holdest => hnot ((startsOldest_iff hb).mpr holdest)) hqueue

/-! ## One worker and several workers -/

theorem messagesInOrder_of_single {threadCount : ℤ} (hsingle : threadCount ≤ 1)
    {s : State threadCount.toNat} (hreach : (system threadCount).Reachable s) :
    MessagesInOrder s := by
  have h : WorkQueue.OrderInvariant messageKey s.queue := by
    apply hreach.invariant (I := fun s => WorkQueue.OrderInvariant messageKey s.queue)
    · intro s hs
      exact WorkQueue.orderInvariant_init hs.1
    · intro s a t h hstep
      apply orderInvariant_step h _ hstep
      cases a with
      | call w => exact h.queue.oldestFirst_of_single (by omega) (.call w)
      | _ => trivial
  exact h.inOrder

/-- A client connects and sends two messages. The worker `w` pops the second one and calls the
handler before the worker `v` does so for the first one. -/
def overtaking (v w : Fin workers) (frame : Frame) : List (Action workers) :=
  [.accept none, .lock v, .call v, .return v zeroGarbage, .read 0 frame none,
    .read 0 frame none, .lock v, .lock w, .call w]

theorem overtaking_not_inOrder {threadCount : ℤ} {v w : Fin threadCount.toNat} (hne : v ≠ w)
    (memory : ℕ → Server.Allocation) (frame : Frame) :
    ∃ t, (system threadCount).run (idle threadCount.toNat memory) (overtaking v w frame) =
      some t ∧ ¬ MessagesInOrder t := by
  have hrun : ((system threadCount).run (idle _ memory) (overtaking v w frame)).map (fun t =>
      (t.queue.startedUnits, t.queue.added)) =
      some ([⟨0, 0, .setup⟩, ⟨2, 0, .message frame⟩],
        [⟨0, 0, .setup⟩, ⟨1, 0, .message frame⟩, ⟨2, 0, .message frame⟩]) := by
    -- once the setup has returned all workers are at the beginning of their loop again
    simp [overtaking, System.run, system, step, addUnit, returnUnit, runUnit, WorkQueue.step,
      WorkQueue.workQueueAdd, WorkQueue.takeMutex, WorkQueue.State.startedUnits, idle,
      Server.clientConnectionSetup, Server.clientConnectionEventHandler, Server.initial,
      Server.State.Live, Function.update_of_ne hne.symm]
  obtain ⟨t, ht, hvalues⟩ := Option.map_eq_some_iff.mp hrun
  obtain ⟨hstarted, hadded⟩ := Prod.mk.inj hvalues
  refine ⟨t, ht, ?_⟩
  intro horder
  have hfront := horder 0
  rw [hstarted, hadded] at hfront
  simp [WorkQueue.keyed, messageKey] at hfront

/-- The messages of each client are handled in the order of their arrival in exactly those runs in
which a worker calls the handler only when no other worker still has to call it for an earlier
message of the same client. With one worker this is every run, and with more workers it is not. -/
theorem messages_in_order_iff (threadCount : ℤ) :
    (∀ s, (system threadCount).initial s → ∀ actions,
      (system threadCount).Throughout MessagesInOrder s actions ↔
        (system threadCount).Respecting StartsOldest s actions) ∧
      ((∀ s, (system threadCount).Reachable s → MessagesInOrder s) ↔ threadCount ≤ 1) := by
  constructor
  · intro s hs actions
    apply System.throughout_iff_respecting
      (I := fun s : State threadCount.toNat => WorkQueue.OrderInvariant messageKey s.queue) _ _ _
      (WorkQueue.orderInvariant_init hs.1)
    · intro s h
      exact h.inOrder
    · intro s a t h holdest hstep
      exact orderInvariant_step h holdest hstep
    · intro s a t h hnot hstep
      exact not_messagesInOrder_step h hnot hstep
  · constructor
    · intro h
      by_contra hmany
      have hne : (⟨0, by omega⟩ : Fin threadCount.toNat) ≠ ⟨1, by omega⟩ := by simp
      obtain ⟨t, hrun, hnot⟩ := overtaking_not_inOrder hne nullMemory zeroFrame
      exact hnot (h t ((System.Reachable.initial (idle_initial (by omega) nullMemory)).run hrun))
    · intro hsingle s hs
      exact messagesInOrder_of_single hsingle hs

/-- With two workers the handler may be called for the second message of a client first. -/
theorem overtaking_two_workers :
    (system 2).initial (idle 2 nullMemory) ∧
      ∃ t, (system 2).run (idle 2 nullMemory)
        (overtaking ⟨0, Nat.zero_lt_two⟩ ⟨1, Nat.one_lt_two⟩ zeroFrame) = some t ∧
          ¬ MessagesInOrder t := by
  refine ⟨idle_initial (by decide) nullMemory, overtaking_not_inOrder ?_ nullMemory zeroFrame⟩
  simp

end Dynpm.ServerPool
