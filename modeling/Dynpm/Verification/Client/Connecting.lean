import Dynpm.Model.Connecting

/-! # Deadlocks of a connecting client

The connecting thread can only be woken up by the event thread, and the event thread cannot run
the callback that does so while another callback waits for the mutex of the connecting thread.
So the connection must be established before the timer or an error fires.
-/

namespace Dynpm.Connecting

open Library

variable {s t : State} {a : Action}

/-- Who holds the mutexes. -/
structure Owners (s : State) : Prop where
  server : s.connector ≠ .done → s.serverConnectionsMutex = some .connector
  connector : s.mutex = some .connector → s.connector = .locked ∨ s.connector = .resumed
  event : s.mutex = some .event → s.event = .progressLocked ∨ s.event = .connectedLocked
  progress : s.event = .progressAtMutex ∨ s.event = .progressLocked → s.connector = .done

theorem owners_initial : Owners initial where
  server _ := rfl
  connector h := absurd h (by decide)
  event h := absurd h (by decide)
  progress h := absurd h (by decide)

theorem signalled_cases (connector : Connector) :
    connector.signalled = connector ∨ connector = .waiting ∧ connector.signalled = .woken := by
  cases connector with
  | waiting => exact Or.inr ⟨rfl, rfl⟩
  | _ => exact Or.inl rfl

theorem Owners.step (h : Owners s) (hstep : step s a = some t) : Owners t := by
  obtain ⟨hserver, hconnector, hevent, hprogress⟩ := h
  cases a with
  | connectorTest =>
      obtain ⟨hguard, ht⟩ := Option.ite_none_right_eq_some.mp hstep
      obtain rfl := Option.some.inj ht
      unfold testConnected
      split
      · constructor <;> grind
      · constructor <;> grind
  | connectedSignal =>
      obtain ⟨hguard, ht⟩ := Option.ite_none_right_eq_some.mp hstep
      obtain rfl := Option.some.inj ht
      rcases signalled_cases s.connector with hsame | ⟨hwaiting, hwoken⟩
      · constructor <;> grind
      · constructor <;> grind
  | _ =>
      obtain ⟨hguard, ht⟩ := Option.ite_none_right_eq_some.mp hstep
      obtain rfl := Option.some.inj ht
      constructor <;> grind

/-- While the connection is not established and the wait is not over, the event thread has been
in no other callback than that of `BEV_EVENT_CONNECTED`. -/
structure Undisturbed (s : State) : Prop where
  waiting : s.connector = .waiting → s.connected = false
  event : s.connected = false → s.connector.passed = false →
    s.event ≠ .progressAtServerMutex ∧ s.errorProcessed = false

/-- The timer of `_client_to_server_send_progress` and `BEV_EVENT_ERROR` fire only after the
connection has been established or the wait of the connecting thread is over. -/
def Timely (s : State) : Action → Prop
  | .fireProgress | .fireError => s.connected = true ∨ s.connector.passed = true
  | _ => True

theorem undisturbed_initial : Undisturbed initial where
  waiting h := absurd h (by decide)
  event _ _ := by decide

theorem Undisturbed.not_deadlocked (h : Undisturbed s) : ¬ s.Deadlocked := by
  rintro ⟨hwaiting, hstuck⟩
  obtain ⟨hevent, herror⟩ := h.event (h.waiting hwaiting) (by rw [hwaiting]; rfl)
  rcases hstuck with ⟨hblocked, _⟩ | hprocessed
  · exact hevent hblocked
  · exact absurd (herror.symm.trans hprocessed) (by decide)

theorem Undisturbed.step (h : Undisturbed s) (htimely : Timely s a)
    (hstep : step s a = some t) : Undisturbed t := by
  obtain ⟨hwaiting, hevent⟩ := h
  cases a with
  | connectorTest =>
      obtain ⟨hguard, ht⟩ := Option.ite_none_right_eq_some.mp hstep
      obtain rfl := Option.some.inj ht
      unfold testConnected
      split
      · constructor <;> grind [Connector.passed]
      · constructor <;> grind [Connector.passed]
  | connectedSignal =>
      obtain ⟨hguard, ht⟩ := Option.ite_none_right_eq_some.mp hstep
      obtain rfl := Option.some.inj ht
      rcases signalled_cases s.connector with hsame | ⟨hwaits, hwoken⟩
      · constructor <;> grind [Connector.signalled]
      · constructor <;> grind
  | fireProgress =>
      obtain ⟨hguard, ht⟩ := Option.ite_none_right_eq_some.mp hstep
      obtain rfl := Option.some.inj ht
      refine ⟨hwaiting, ?_⟩
      intro hconnected hpassed
      rcases htimely with htrue | htrue
      · exact absurd (hconnected.symm.trans htrue) (by decide)
      · exact absurd (hpassed.symm.trans htrue) (by decide)
  | fireError =>
      obtain ⟨hguard, ht⟩ := Option.ite_none_right_eq_some.mp hstep
      obtain rfl := Option.some.inj ht
      refine ⟨hwaiting, ?_⟩
      intro hconnected hpassed
      rcases htimely with htrue | htrue
      · exact absurd (hconnected.symm.trans htrue) (by decide)
      · exact absurd (hpassed.symm.trans htrue) (by decide)
  | _ =>
      obtain ⟨hguard, ht⟩ := Option.ite_none_right_eq_some.mp hstep
      obtain rfl := Option.some.inj ht
      constructor <;> grind [Connector.passed]

/-! ## The way into the deadlock -/

/-- The event thread is where it cannot establish the connection any more. -/
def EventStuck (s : State) : Prop :=
  (s.event = .progressAtServerMutex ∨ s.event = .idle ∧ s.errorProcessed = true) ∧
    s.connected = false ∧ s.connector.passed = false

/-- The steps of the connecting thread that are left before its wait lead to the deadlock. -/
theorem Owners.deadlock_of_stuck (h : Owners s) (hstuck : EventStuck s) :
    ∃ more u, more <:+ [.connectorLock, .connectorTest] ∧ system.run s more = some u ∧
      u.Deadlocked := by
  obtain ⟨hevent, hconnected, hpassed⟩ := hstuck
  have hserver : s.serverConnectionsMutex = some .connector := by
    apply h.server
    intro hdone
    rw [hdone] at hpassed
    exact absurd hpassed (by decide)
  have hstuck : (s.event = .progressAtServerMutex ∧ s.serverConnectionsMutex ≠ none) ∨
      s.errorProcessed = true := by
    rcases hevent with hblocked | ⟨_, herror⟩
    · exact Or.inl ⟨hblocked, by simp [hserver]⟩
    · exact Or.inr herror
  cases hconnector : s.connector with
  | waiting => exact ⟨[], s, List.nil_suffix, rfl, hconnector, hstuck⟩
  | locked =>
      refine ⟨[.connectorTest], { s with connector := .waiting, mutex := none },
        List.suffix_cons _ _, ?_, rfl, hstuck⟩
      simp [System.run, system, Connecting.step, hconnector, testConnected, hconnected]
  | atMutex =>
      have hmutex : s.mutex = none := by
        cases hmutex : s.mutex with
        | none => rfl
        | some owner =>
            cases owner with
            | connector =>
                have := h.connector hmutex
                simp [hconnector] at this
            | event =>
                rcases h.event hmutex with hlocked | hlocked
                · simp [hlocked] at hevent
                · simp [hlocked] at hevent
      refine ⟨[.connectorLock, .connectorTest], { s with connector := .waiting },
        List.suffix_rfl, ?_, rfl, hstuck⟩
      simp [System.run, system, Connecting.step, hconnector, hmutex, testConnected, hconnected]
  | _ =>
      rw [hconnector] at hpassed
      exact absurd hpassed (by decide)

theorem eventStuck_of_not_timely (hnot : ¬ Timely s a) (hstep : step s a = some t) :
    EventStuck t := by
  cases a with
  | fireProgress =>
      obtain ⟨_, ht⟩ := Option.ite_none_right_eq_some.mp hstep
      obtain rfl := Option.some.inj ht
      simp only [Timely, not_or, Bool.not_eq_true] at hnot
      exact ⟨Or.inl rfl, hnot⟩
  | fireError =>
      obtain ⟨hidle, ht⟩ := Option.ite_none_right_eq_some.mp hstep
      obtain rfl := Option.some.inj ht
      simp only [Timely, not_or, Bool.not_eq_true] at hnot
      exact ⟨Or.inr ⟨hidle, rfl⟩, hnot⟩
  | _ => exact absurd trivial hnot

/-- A run in which the timer and `BEV_EVENT_ERROR` fire only after the connection has been
established or the wait is over does not deadlock. Any other run comes to a state in which one of
them fires too early, after which the deadlock is reached by what is left of the way of the
connecting thread to its wait. -/
theorem connecting_deadlock_free_when_timely (actions : List Action) :
    (system.Respecting Timely initial actions →
      system.Throughout (fun s => ¬ s.Deadlocked) initial actions) ∧
    (¬ system.Respecting Timely initial actions →
      ∃ front a s t, front ++ [a] <+: actions ∧ system.run initial front = some s ∧
        system.step s a = some t ∧ ¬ Timely s a ∧
        ∃ more u, more <:+ [.connectorLock, .connectorTest] ∧ system.run t more = some u ∧
          u.Deadlocked) := by
  constructor
  · intro htimely
    apply System.throughout_of_respecting (I := Undisturbed) _ _ undisturbed_initial htimely
    · intro s h
      exact h.not_deadlocked
    · intro s a t h hG hstep
      exact h.step hG hstep
  · intro hnot
    obtain ⟨front, a, s, t, hfront, hrun, hstep, hlate⟩ := System.exists_violation hnot
    have hreach : system.Reachable s := (System.Reachable.initial rfl).run hrun
    have howners : Owners t := by
      apply (hreach.step hstep).invariant (I := Owners)
      · rintro s rfl
        exact owners_initial
      · intro s a t h hstep
        exact h.step hstep
    exact ⟨front, a, s, t, hfront, hrun, hstep, hlate,
      howners.deadlock_of_stuck (eventStuck_of_not_timely hlate hstep)⟩

/-- The timer fires while the connecting thread waits for a slow connection. -/
def slowConnection : List Action := [.connectorLock, .connectorTest, .fireProgress]

theorem slowConnection_deadlocks :
    ∃ s, system.run initial slowConnection = some s ∧ s.Deadlocked ∧
      system.step s .progressLockServer = none ∧ system.step s .fireConnected = none := by
  refine ⟨⟨.waiting, .progressAtServerMutex, some .connector, none, false, false⟩, ?_, ?_, ?_, ?_⟩
  · rfl
  · decide
  · rfl
  · rfl

end Dynpm.Connecting
