import Dynpm.Model.ServerPool
import Dynpm.Verification.Protocol.Frame
import Dynpm.Verification.Server.Upstream
import Dynpm.Verification.WorkQueue.Order

/-! # Units and the connections they are for

The workers of a server take their units from the work queue, so that what has been shown of the
queue holds of a server. A unit names its connection, but nothing ties the lifetime of the
connection to the unit, and nothing ties the units of a connection to each other once they have
been popped.
-/

namespace Dynpm.ServerPool

open Library Dynpm.Protocol

variable {workers : ℕ} {s t : State workers} {w : Fin workers} {c : ℕ} {unit : WorkUnit}

/-! ## The queue -/

/-- What an action does to the work queue. -/
def queueAction (s : State workers) : Action workers → Option (WorkQueue.Action workers WorkUnit)
  | .accept wake => some (.add ⟨s.queue.added.length, s.server.connections.length, .setup⟩ wake)
  | .read c frame wake => some (.add ⟨s.queue.added.length, c, .message frame⟩ wake)
  | .eof _ => none
  | .lock w => some (.lock w)
  | .spuriousWakeUp w => some (.spuriousWakeUp w)
  | .call w => some (.call w)
  | .return w _ => some (.return w)

theorem addUnit_eq_some {job : Job} {wake : Option (Fin workers)}
    (h : addUnit s c job wake = some t) :
    WorkQueue.step s.queue (.add ⟨s.queue.added.length, c, job⟩ wake) = some t.queue ∧
      t.server = s.server ∧ t.dispatching = s.dispatching := by
  obtain ⟨queue, hqueue, rfl⟩ := Option.map_eq_some_iff.mp h
  exact ⟨hqueue, rfl, rfl⟩

theorem returnUnit_eq_some {malloc : Garbage} (h : returnUnit s w malloc = some t) :
    WorkQueue.step s.queue (.return w) = some t.queue ∧
      ∃ unit u, runUnit malloc s unit = .ok u ∧ t.server = u.server := by
  unfold returnUnit at h
  split at h
  · next unit _ =>
      split at h
      · next u hu =>
          obtain ⟨queue, hqueue, rfl⟩ := Option.map_eq_some_iff.mp h
          exact ⟨hqueue, unit, u, hu, rfl⟩
      · exact absurd h (by simp)
  · exact absurd h (by simp)

/-- A callback that returns has not faulted. -/
theorem onError_eq_some (h : onError s c = some t) :
    ∃ server, t = { s with server } ∧ c < s.server.connections.length ∧
      Server.serverOnError s.server c = .ok server := by
  unfold onError at h
  split at h
  · next server hcall =>
      obtain ⟨_, hcall⟩ := Option.ite_none_left_eq_some.mp hcall
      obtain ⟨⟨hlive, _⟩, hcall⟩ := Option.ite_none_right_eq_some.mp hcall
      exact ⟨server, (Option.some.inj h).symm, hlive.1, Option.some.inj hcall⟩
  · exact absurd h (by simp)

/-- The queue of a server takes the steps of a work queue, and it rests when a connection is
released. -/
theorem queue_step {a : Action workers} (hstep : step s a = some t) :
    (queueAction s a = none ∧ t.queue = s.queue) ∨
      ∃ b, queueAction s a = some b ∧ WorkQueue.step s.queue b = some t.queue := by
  cases a with
  | accept wake => exact Or.inr ⟨_, rfl, (addUnit_eq_some hstep).1⟩
  | read c frame wake =>
      obtain ⟨_, hadd⟩ := Option.ite_none_right_eq_some.mp hstep
      exact Or.inr ⟨_, rfl, (addUnit_eq_some hadd).1⟩
  | eof c =>
      obtain ⟨_, heof⟩ := Option.ite_none_right_eq_some.mp hstep
      obtain ⟨_, rfl, _⟩ := onError_eq_some heof
      exact Or.inl ⟨rfl, rfl⟩
  | lock w =>
      obtain ⟨queue, hqueue, rfl⟩ := Option.map_eq_some_iff.mp hstep
      exact Or.inr ⟨_, rfl, hqueue⟩
  | spuriousWakeUp w =>
      obtain ⟨queue, hqueue, rfl⟩ := Option.map_eq_some_iff.mp hstep
      exact Or.inr ⟨_, rfl, hqueue⟩
  | call w =>
      obtain ⟨queue, hqueue, rfl⟩ := Option.map_eq_some_iff.mp hstep
      exact Or.inr ⟨_, rfl, hqueue⟩
  | «return» w malloc => exact Or.inr ⟨_, rfl, (returnUnit_eq_some hstep).1⟩

/-- A server whose workers have just been started. -/
def idle (workers : ℕ) (memory : ℕ → Server.Allocation) : State workers where
  queue := {
    workUnits := []
    threadData := (List.finRange workers).reverse
    terminate := fun _ => false
    worker := fun _ => .atLock
    added := []
    popped := []
    started := []
    finalized := false }
  server := Server.initial memory
  dispatching := []

theorem eq_idle_of_initial {threadCount : ℤ} {s : State threadCount.toNat}
    (h : (system threadCount).initial s) : ∃ memory, s = idle threadCount.toNat memory := by
  obtain ⟨queue, server, dispatching⟩ := s
  obtain ⟨hqueue, ⟨memory, rfl⟩, rfl⟩ := h
  unfold WorkQueue.workQueueInit at hqueue
  split at hqueue
  · exact absurd hqueue (by simp)
  · obtain rfl := Option.some.inj hqueue
    exact ⟨memory, rfl⟩

theorem idle_initial {threadCount : ℤ} (h : 1 ≤ threadCount) (memory : ℕ → Server.Allocation) :
    (system threadCount).initial (idle threadCount.toNat memory) :=
  ⟨if_neg (by omega), ⟨memory, rfl⟩, rfl⟩

/-! ## Released connections -/

/-- A worker that calls the function of a unit does so before the connection of the unit is
released. -/
def StartsOnLive (s : State workers) : Action workers → Prop
  | .call w => ∀ unit ∈ (s.queue.worker w).pending, unit.connection ∉ s.server.released
  | _ => True

/-- A connection is released only when all its units have been started. -/
def NoPendingUnit (s : State workers) : Action workers → Prop
  | .eof c => (∀ unit ∈ s.queue.workUnits, unit.connection ≠ c) ∧
      ∀ w, ∀ unit ∈ (s.queue.worker w).pending, unit.connection ≠ c
  | _ => True

instance (s : State workers) : (a : Action workers) → Decidable (StartsOnLive s a)
  | .call w => inferInstanceAs (Decidable
      (∀ unit ∈ (s.queue.worker w).pending, unit.connection ∉ s.server.released))
  | .accept _ | .read _ _ _ | .eof _ | .lock _ | .spuriousWakeUp _ | .return _ _ => isTrue trivial

instance (s : State workers) : (a : Action workers) → Decidable (NoPendingUnit s a)
  | .eof c => inferInstanceAs (Decidable ((∀ unit ∈ s.queue.workUnits, unit.connection ≠ c) ∧
      ∀ w, ∀ unit ∈ (s.queue.worker w).pending, unit.connection ≠ c))
  | .accept _ | .read _ _ _ | .lock _ | .spuriousWakeUp _ | .call _ | .return _ _ => isTrue trivial

structure LifetimeInvariant (s : State workers) : Prop where
  allocated : ∀ c ∈ s.server.released, c < s.server.connections.length
  live : ∀ unit, s.queue.Pending unit → unit.connection ∉ s.server.released

/-- The function of a unit releases no connection. -/
theorem runUnit_keeps {malloc : Garbage} {u : State workers} (h : runUnit malloc s unit = .ok u) :
    u.server.released = s.server.released ∧
      u.server.connections.length = s.server.connections.length := by
  unfold runUnit at h
  split at h
  · obtain rfl := Except.ok.inj h
    exact ⟨rfl, rfl⟩
  · next frame _ =>
      obtain ⟨server, hserver, hu⟩ := bind_eq_ok h
      obtain rfl := Except.ok.inj hu
      obtain ⟨header, _, hserver⟩ := bind_eq_ok hserver
      split at hserver
      · obtain ⟨regmsg, _, hserver⟩ := bind_eq_ok hserver
        obtain rfl := Except.ok.inj hserver
        exact ⟨rfl, List.length_set⟩
      · obtain ⟨_, _, hserver⟩ := bind_eq_ok hserver
        rw [(Server.removeClientConnectionFromList_eq_ok hserver).2]
        exact ⟨rfl, rfl⟩
      · obtain rfl := Except.ok.inj hserver
        exact ⟨rfl, rfl⟩

/-- A step of the queue that adds no unit of a released connection. -/
theorem LifetimeInvariant.of_queue (h : LifetimeInvariant s)
    {b : WorkQueue.Action workers WorkUnit} (hqueue : WorkQueue.step s.queue b = some t.queue)
    (hreleased : t.server.released = s.server.released)
    (hlength : s.server.connections.length ≤ t.server.connections.length)
    (hnew : ∀ unit wake, b = .add unit wake → unit.connection ∉ s.server.released) :
    LifetimeInvariant t := by
  refine ⟨?_, ?_⟩
  · rw [hreleased]
    intro c hc
    exact Nat.lt_of_lt_of_le (h.allocated c hc) hlength
  · rw [hreleased]
    intro unit hunit
    rcases WorkQueue.pending_of_step hqueue hunit with hunit | ⟨wake, heq⟩
    · exact h.live unit hunit
    · exact hnew unit wake heq

theorem LifetimeInvariant.eof (h : LifetimeInvariant s) (hnone : NoPendingUnit s (.eof c))
    (heof : onError s c = some t) : LifetimeInvariant t := by
  obtain ⟨server, rfl, hbound, hserver⟩ := onError_eq_some heof
  obtain ⟨⟨hconnections, _⟩, hreleased⟩ := Server.serverOnError_keeps hserver
  refine ⟨?_, ?_⟩
  · intro c' hc'
    simp only [hconnections]
    rcases hreleased c' hc' with hc' | rfl
    · exact h.allocated c' hc'
    · exact hbound
  · intro unit hunit hmem
    rcases hreleased _ hmem with hmem | heq
    · exact h.live unit hunit hmem
    · rcases hunit with hunit | ⟨w, hunit⟩
      · exact hnone.1 unit hunit heq
      · exact hnone.2 w unit hunit heq

theorem LifetimeInvariant.step (h : LifetimeInvariant s) {a : Action workers}
    (hnone : NoPendingUnit s a) (hstep : step s a = some t) : LifetimeInvariant t := by
  cases a with
  | accept wake =>
      obtain ⟨hqueue, hserver, _⟩ := addUnit_eq_some hstep
      apply h.of_queue hqueue
      · rw [hserver]
        rfl
      · rw [hserver]
        simp [Server.clientConnectionEventHandler]
      · intro unit wake heq hmem
        obtain ⟨rfl, _⟩ := WorkQueue.Action.add.inj heq
        exact absurd (h.allocated _ hmem) (Nat.lt_irrefl _)
  | read c frame wake =>
      obtain ⟨⟨_, hlive⟩, hadd⟩ := Option.ite_none_right_eq_some.mp hstep
      obtain ⟨hqueue, hserver, _⟩ := addUnit_eq_some hadd
      apply h.of_queue hqueue (by rw [hserver]) (by rw [hserver])
      intro unit wake heq
      obtain ⟨rfl, _⟩ := WorkQueue.Action.add.inj heq
      exact hlive.2
  | eof c =>
      obtain ⟨_, heof⟩ := Option.ite_none_right_eq_some.mp hstep
      exact h.eof hnone heof
  | lock w =>
      obtain ⟨queue, hqueue, rfl⟩ := Option.map_eq_some_iff.mp hstep
      exact h.of_queue hqueue rfl (Nat.le_refl _) (by simp)
  | spuriousWakeUp w =>
      obtain ⟨queue, hqueue, rfl⟩ := Option.map_eq_some_iff.mp hstep
      exact h.of_queue hqueue rfl (Nat.le_refl _) (by simp)
  | call w =>
      obtain ⟨queue, hqueue, rfl⟩ := Option.map_eq_some_iff.mp hstep
      exact h.of_queue hqueue rfl (Nat.le_refl _) (by simp)
  | «return» w malloc =>
      obtain ⟨hqueue, unit, u, hu, hserver⟩ := returnUnit_eq_some hstep
      obtain ⟨hreleased, hlength⟩ := runUnit_keeps hu
      exact h.of_queue hqueue (by rw [hserver, hreleased]) (by rw [hserver, hlength]) (by simp)

theorem LifetimeInvariant.startsOnLive (h : LifetimeInvariant s) (a : Action workers) :
    StartsOnLive s a := by
  cases a with
  | call w =>
      intro unit hunit
      exact h.live unit (Or.inr ⟨w, hunit⟩)
  | _ => trivial

theorem lifetimeInvariant_initial {threadCount : ℤ} {s : State threadCount.toNat}
    (h : (system threadCount).initial s) : LifetimeInvariant s := by
  obtain ⟨memory, rfl⟩ := eq_idle_of_initial h
  exact ⟨by simp [idle, Server.initial], by simp [idle, Server.initial]⟩

/-- In every run of a server in which a connection is released only when all its units have been
started, no worker calls the function of a unit whose connection has been released. -/
theorem no_unit_starts_on_released (threadCount : ℤ) (s : State threadCount.toNat)
    (hinit : (system threadCount).initial s) (actions : List (Action threadCount.toNat))
    (h : (system threadCount).Respecting NoPendingUnit s actions) :
    (system threadCount).Respecting StartsOnLive s actions := by
  apply System.Respecting.imp (I := LifetimeInvariant) _ (lifetimeInvariant_initial hinit) h
  intro s a t hinv hnone hstep
  exact ⟨hinv.startsOnLive a, hinv.step hnone hstep⟩

/-- Memory that held null pointers. -/
def nullMemory : ℕ → Server.Allocation := fun _ => ⟨0, true⟩

/-- A client connects, sends a message and closes when the message is being handled. -/
def handledThenClosed (frame : Frame) : List (Action (1 : ℤ).toNat) :=
  [.accept none, .lock ⟨0, Nat.zero_lt_one⟩, .call ⟨0, Nat.zero_lt_one⟩,
    .return ⟨0, Nat.zero_lt_one⟩ zeroGarbage, .read 0 frame none, .lock ⟨0, Nat.zero_lt_one⟩,
    .call ⟨0, Nat.zero_lt_one⟩, .eof 0]

theorem handledThenClosed_starts_on_live :
    (system 1).initial (idle 1 nullMemory) ∧
      ((system 1).run (idle 1 nullMemory) (handledThenClosed zeroFrame)).isSome = true ∧
      (system 1).Respecting NoPendingUnit (idle 1 nullMemory) (handledThenClosed zeroFrame) ∧
      (system 1).Respecting StartsOnLive (idle 1 nullMemory) (handledThenClosed zeroFrame) := by
  have hinit : (system 1).initial (idle 1 nullMemory) := ⟨rfl, ⟨_, rfl⟩, rfl⟩
  have h : (system 1).Respecting NoPendingUnit (idle 1 nullMemory)
      (handledThenClosed zeroFrame) := by
    decide +kernel
  exact ⟨hinit, by decide +kernel, h, no_unit_starts_on_released 1 (idle 1 nullMemory) hinit _ h⟩

/-- A client connects, sends a message and closes before a worker takes the message. -/
def closedBeforeHandled (frame : Frame) : List (Action (1 : ℤ).toNat) :=
  [.accept none, .lock ⟨0, Nat.zero_lt_one⟩, .call ⟨0, Nat.zero_lt_one⟩,
    .return ⟨0, Nat.zero_lt_one⟩ zeroGarbage, .read 0 frame none, .eof 0,
    .lock ⟨0, Nat.zero_lt_one⟩, .call ⟨0, Nat.zero_lt_one⟩]

/-- The handler is called with a connection that has been released. -/
theorem closedBeforeHandled_starts_on_released :
    (system 1).initial (idle 1 nullMemory) ∧
      ((system 1).run (idle 1 nullMemory) (closedBeforeHandled zeroFrame)).isSome = true ∧
      ¬ (system 1).Respecting StartsOnLive (idle 1 nullMemory) (closedBeforeHandled zeroFrame) := by
  exact ⟨⟨rfl, ⟨_, rfl⟩, rfl⟩, by decide +kernel, by decide +kernel⟩

end Dynpm.ServerPool
