import Dynpm.Verification.Client.Table

/-! # Connects that fail

`dynpm_connect_to_server` counts the connection and takes an entry before the calls that may
fail, and gives neither back. It leaves things as they were only where it is refused for the
count, before it has changed anything.
-/

namespace Dynpm.Client

open Library

variable {s : State}

/-- The results for which `dynpm_connect_to_server` returns 0. -/
def ConnectResult.Succeeded : ConnectResult → Prop
  | .connected _ => True
  | .notInitialized | .noRoom | .failed => False

/-- If the connect returns -1, then the table and the count are as before, the mutex is free,
and all later calls and events go as they would have gone without it. -/
def FailureChangesNothing (s : State) (outcome : ConnectOutcome) : Prop :=
  ¬ (connectToServer s outcome).2.Succeeded →
    (connectToServer s outcome).1.serverConnections = s.serverConnections ∧
    (connectToServer s outcome).1.serverConnectionCount = s.serverConnectionCount ∧
    (connectToServer s outcome).1.mutexHeld = false ∧
    ∀ actions, system.run (connectToServer s outcome).1 actions = system.run s actions

theorem clientInitialized_of_reachable (h : system.Reachable s) : s.clientInitialized = true := by
  apply h.invariant (I := fun s => s.clientInitialized = true)
  · rintro s rfl
    rfl
  · intro s a t hs hstep
    rcases step_cases hstep with ⟨outcome, rfl, rfl⟩ | ⟨serverIndex, rfl, rfl⟩ |
      ⟨connection, object, rfl, _, rfl⟩ | ⟨connection, rfl, rfl⟩
    · rcases connectToServer_cases hs outcome with ⟨_, heq⟩ | ⟨_, _, heq⟩ | ⟨_, _, _, heq⟩
      all_goals
        rw [heq]
        exact hs
    · exact hs
    · exact hs
    · exact hs

/-- A connect that fails changes nothing if and only if it is refused because of the count, or
does not fail at all: there is a free entry and none of the calls fails. -/
theorem failed_connect_changes_nothing_iff (hreach : system.Reachable s)
    (hfree : s.mutexHeld = false) (outcome : ConnectOutcome) :
    FailureChangesNothing s outcome ↔
      s.serverConnectionCount > 63 ∨
        outcome = .succeeds ∧ ∃ i, s.serverConnections i = none := by
  have hinit := clientInitialized_of_reachable hreach
  rcases connectToServer_cases hinit outcome with ⟨hcount, heq⟩ | ⟨hcount, hfull, heq⟩ |
    ⟨hcount, index, hindex, heq⟩
  · constructor
    · intro _
      exact Or.inl hcount
    · intro _ _
      rw [heq]
      exact ⟨rfl, rfl, hfree, fun _ => rfl⟩
  · constructor
    · intro h
      have hsame := (h (by rw [heq]; exact id)).2.1
      rw [heq] at hsame
      simp only at hsame
      omega
    · rintro (hmany | ⟨_, i, hi⟩)
      · omega
      · have hsome := hfull i
        rw [hi] at hsome
        exact absurd hsome (by simp)
  · constructor
    · intro h
      by_cases hsucceeds : outcome = .succeeds
      · exact Or.inr ⟨hsucceeds, index, hindex⟩
      · have hfailed : ¬ (connectToServer s outcome).2.Succeeded := by
          rw [heq]
          cases outcome <;> simp_all [ConnectOutcome.result, ConnectResult.Succeeded]
        have hsame := (h hfailed).2.1
        rw [heq] at hsame
        simp only at hsame
        omega
    · rintro (hmany | ⟨rfl, _⟩)
      · omega
      · intro hfailed
        rw [heq] at hfailed
        exact absurd trivial hfailed

/-- Connects raise the count to its bound. -/
theorem exists_reachable_count {n : ℕ} (hn : n ≤ 64) :
    ∃ s, system.Reachable s ∧ s.mutexHeld = false ∧ s.aborted = false ∧
      s.serverConnectionCount = n := by
  induction n with
  | zero => exact ⟨_, .initial rfl, rfl, rfl, rfl⟩
  | succ n ih =>
      obtain ⟨s, hreach, hfree, hrunning, hcount⟩ := ih (by omega)
      have hstep : system.step s (.connect .succeeds) =
          some (connectToServer s .succeeds).1 := by
        change (if s.mutexHeld || s.aborted then none else _) = _
        rw [hfree, hrunning]
        rfl
      refine ⟨_, hreach.step hstep, ?_⟩
      rcases connectToServer_cases (clientInitialized_of_reachable hreach) .succeeds with
        ⟨hmany, _⟩ | ⟨_, _, heq⟩ | ⟨_, _, _, heq⟩
      · omega
      · rw [heq]
        exact ⟨hfree, hrunning, by simp [hcount]⟩
      · rw [heq]
        exact ⟨rfl, hrunning, by simp [hcount]⟩

/-- At its bound the count refuses a connect, which changes nothing then. -/
theorem fullClient_unchanged :
    ∃ s, system.Reachable s ∧ s.serverConnectionCount = 64 ∧
      (connectToServer s .succeeds).2 = .noRoom ∧ FailureChangesNothing s .succeeds := by
  obtain ⟨s, hreach, hfree, _, hcount⟩ := exists_reachable_count (le_refl 64)
  refine ⟨s, hreach, hcount, ?_,
    (failed_connect_changes_nothing_iff hreach hfree .succeeds).mpr (Or.inl (by omega))⟩
  rcases connectToServer_cases (clientInitialized_of_reachable hreach) .succeeds with
    ⟨_, heq⟩ | ⟨hfew, _⟩ | ⟨hfew, _⟩
  · rw [heq]
  · omega
  · omega

/-- A connect on a fresh client for which `event_base_new` fails returns -1 with the connection
counted, the first entry taken and the mutex locked. -/
theorem eventBaseFails_changes_table :
    (connectToServer (clientInit State.static) .eventBaseFails).2 = .failed ∧
      (connectToServer (clientInit State.static) .eventBaseFails).1.serverConnectionCount = 1 ∧
      (connectToServer (clientInit State.static) .eventBaseFails).1.serverConnections
        firstEntry = some 0 ∧
      (connectToServer (clientInit State.static) .eventBaseFails).1.mutexHeld = true ∧
      ¬ FailureChangesNothing (clientInit State.static) .eventBaseFails := by
  refine ⟨by decide, by decide, by decide, by decide, ?_⟩
  intro h
  have hmutex := (h (by rw [show (connectToServer (clientInit State.static)
    .eventBaseFails).2 = .failed by decide]; exact id)).2.2.1
  exact absurd hmutex (by decide)

end Dynpm.Client
