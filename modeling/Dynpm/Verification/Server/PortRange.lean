import Dynpm.Model.PortRange

/-! # The port that a server listens on

The search stops at the first port that `bind` does not report as in use. It reports what it has
bound unless the range is empty, the port does not fit into 16 bits or is 0, or the range ends at
the largest `int` with all its ports in use.
-/

namespace Dynpm.PortRange

open Library

/-- What the caller relies on: the server is started if and only if some `bind` succeeded. Then
`*port` is the port of the socket, it lies in the range, and all smaller ports of the range
have been tried and were in use. Otherwise the call returns -1. -/
structure Call.BindsWhatItReports (call : Call) (minPort maxPort : ℤ) : Prop where
  started_iff : call.started = true ↔
    ∃ port ephemeral, (port, BindOutcome.success ephemeral) ∈ call.attempts
  reported : call.started = true →
    ∃ port : ℕ, call.port = some (port : ℤ) ∧ call.bound = some port ∧ minPort ≤ port ∧
      port ≤ maxPort ∧ ∀ p, minPort ≤ p → p < port → (p, BindOutcome.addrInUse) ∈ call.attempts
  failed : call.started = false → call.returned = -1

/-! ## The loop -/

section

variable {bind : ℤ → BindOutcome} {minPort maxPort errorCode : ℤ} {s : Search}

/-- All ports of the range before the current one have been tried and were in use. -/
structure Passed (bind : ℤ → BindOutcome) (minPort maxPort errorCode : ℤ) (s : Search) : Prop where
  mem_attempts_iff : ∀ p outcome, (p, outcome) ∈ s.attempts ↔
    minPort ≤ p ∧ p < s.tryPort ∧ outcome = .addrInUse
  inUse : ∀ p, minPort ≤ p → p < s.tryPort → bind p = .addrInUse
  bound : s.bound = none
  errorCode : s.errorCode = if s.tryPort = minPort then errorCode else -1
  min_le : minPort ≤ s.tryPort
  le_max : s.tryPort = minPort ∨ s.tryPort ≤ maxPort + 1
  isInt : -2 ^ 31 ≤ s.tryPort ∧ s.tryPort < 2 ^ 31

theorem passed_start (bind : ℤ → BindOutcome) (maxPort errorCode : ℤ)
    (hint : -2 ^ 31 ≤ minPort ∧ minPort < 2 ^ 31) :
    Passed bind minPort maxPort errorCode ⟨minPort, errorCode, [], none⟩ where
  mem_attempts_iff p outcome := by
    simp only [List.not_mem_nil, false_iff]
    omega
  inUse p hmin hlt := by
    dsimp only at hlt
    omega
  bound := rfl
  errorCode := (if_pos rfl).symm
  min_le := Int.le_refl minPort
  le_max := Or.inl rfl
  isInt := hint

/-- A port that is in use is passed. -/
theorem Passed.next (h : Passed bind minPort maxPort errorCode s) (hle : s.tryPort ≤ maxPort)
    (hbind : bind s.tryPort = .addrInUse) (hint : s.tryPort + 1 < 2 ^ 31) :
    Passed bind minPort maxPort errorCode
      { s.attempt .addrInUse with tryPort := s.tryPort + 1 } where
  mem_attempts_iff p outcome := by
    have hmin := h.min_le
    simp only [Search.attempt, List.mem_append, h.mem_attempts_iff, List.mem_singleton,
      Prod.mk.injEq]
    constructor
    · rintro (⟨hp, hlt, rfl⟩ | ⟨rfl, rfl⟩)
      · exact ⟨hp, by omega, rfl⟩
      · exact ⟨hmin, by omega, rfl⟩
    · rintro ⟨hp, hlt, rfl⟩
      by_cases heq : p = s.tryPort
      · exact Or.inr ⟨heq, rfl⟩
      · exact Or.inl ⟨hp, by omega, rfl⟩
  inUse p hmin hlt := by
    by_cases heq : p = s.tryPort
    · rw [heq, hbind]
    · refine h.inUse p hmin ?_
      dsimp only at hlt
      omega
  bound := rfl
  errorCode := by
    have hmin := h.min_le
    rw [if_neg (by dsimp only; omega)]
    rfl
  min_le := by
    have hmin := h.min_le
    dsimp only
    omega
  le_max := Or.inr (by dsimp only; omega)
  isInt := by
    have hlow := h.isInt.1
    dsimp only
    omega

/-- How the loop ends: with the range used up, at the first port that is not in use, or with an
overflow because the range goes up to the largest `int`. -/
inductive Ends (bind : ℤ → BindOutcome) (minPort maxPort errorCode : ℤ) :
    Except Fault Search → Prop where
  | usedUp {s : Search} (h : Passed bind minPort maxPort errorCode s) (hlt : maxPort < s.tryPort) :
      Ends bind minPort maxPort errorCode (.ok s)
  | found {s : Search} (h : Passed bind minPort maxPort errorCode s) (hle : s.tryPort ≤ maxPort)
      (hbind : bind s.tryPort ≠ .addrInUse) :
      Ends bind minPort maxPort errorCode (.ok (s.attempt (bind s.tryPort)))
  | overflow (hall : ∀ p, minPort ≤ p → p ≤ maxPort → bind p = .addrInUse)
      (hmax : maxPort = 2 ^ 31 - 1) : Ends bind minPort maxPort errorCode (.error .overflow)

theorem searchLoop_ends (hmax : maxPort < 2 ^ 31) (h : Passed bind minPort maxPort errorCode s) :
    Ends bind minPort maxPort errorCode (searchLoop bind maxPort s) := by
  induction hn : (maxPort + 1 - s.tryPort).toNat generalizing s with
  | zero =>
      have hlt : maxPort < s.tryPort := by omega
      rw [searchLoop, if_neg (by omega)]
      exact .usedUp h hlt
  | succ n ih =>
      have hle : s.tryPort ≤ maxPort := by omega
      rw [searchLoop, if_pos hle]
      cases hbind : bind s.tryPort with
      | success ephemeral =>
          have hfound := Ends.found h hle (by simp [hbind])
          rwa [hbind] at hfound
      | otherError =>
          have hfound := Ends.found h hle (by simp [hbind])
          rwa [hbind] at hfound
      | addrInUse =>
          have hlow := h.isInt.1
          by_cases hlast : s.tryPort + 1 < 2 ^ 31
          · have hadd : CInt.add s.tryPort 1 = .ok (s.tryPort + 1) :=
              CInt.checked_ok (by omega) hlast
            simp only [hadd]
            exact ih (h.next hle hbind hlast) (by dsimp only; omega)
          · have hadd : CInt.add s.tryPort 1 = .error .overflow := if_neg (by omega)
            simp only [hadd]
            refine Ends.overflow ?_ (by omega)
            intro p hmin hp
            by_cases heq : p = s.tryPort
            · rw [heq, hbind]
            · exact h.inUse p hmin (by omega)

/-! ## The call -/

/-- The port of the socket is the one that was tried if and only if that is a port. -/
theorem boundPort_eq_iff (tryPort : ℤ) (ephemeral : Port) :
    (boundPort tryPort ephemeral : ℤ) = tryPort ↔ 0 < tryPort ∧ tryPort < 2 ^ 16 := by
  have hpositive := ephemeral.positive
  have hbounded := ephemeral.bounded
  rw [boundPort]
  split
  · omega
  · omega

/-- What is done after the loop. -/
def Search.finish (env : Environment) (s : Search) : Call :=
  if s.errorCode ≠ 0 then ⟨-1, false, none, s.bound, s.attempts⟩
  else ⟨serverInitCommon env, true, some s.tryPort, s.bound, s.attempts⟩

theorem serverInitPortRange_eq {env : Environment} (hsocket : ¬ env.socket < 0)
    (errorCode minPort maxPort : ℤ) :
    serverInitPortRange env errorCode minPort maxPort =
      (searchLoop env.bind maxPort ⟨minPort, errorCode, [], none⟩).map (Search.finish env) := by
  rw [serverInitPortRange, if_neg hsocket]
  cases searchLoop env.bind maxPort ⟨minPort, errorCode, [], none⟩ with
  | error fault => rfl
  | ok s =>
      simp only [ok_bind, Except.map, Search.finish]
      split
      · rfl
      · rfl

/-- A call that fails without a successful `bind` returns -1, as it should. -/
theorem bindsWhatItReports_of_failed {env : Environment} (hcode : s.errorCode ≠ 0)
    (hnone : ∀ port ephemeral, (port, BindOutcome.success ephemeral) ∉ s.attempts) :
    (s.finish env).BindsWhatItReports minPort maxPort := by
  rw [Search.finish, if_pos hcode]
  refine ⟨iff_of_false (by simp) ?_, fun hstarted => absurd hstarted (by simp), fun _ => rfl⟩
  rintro ⟨port, ephemeral, hmem⟩
  exact hnone port ephemeral hmem

/-- Where the search reports what it has bound. -/
structure SearchHarmless (bind : ℤ → BindOutcome) (errorCode minPort maxPort : ℤ) : Prop where
  notEmpty : maxPort < minPort → errorCode ≠ 0
  notLast : (∀ p, minPort ≤ p → p ≤ maxPort → bind p = .addrInUse) → maxPort ≠ 2 ^ 31 - 1
  isPort : ∀ p ephemeral, minPort ≤ p → p ≤ maxPort → bind p = .success ephemeral →
    (∀ q, minPort ≤ q → q < p → bind q = .addrInUse) → 0 < p ∧ p < 2 ^ 16

theorem Passed.no_success (h : Passed bind minPort maxPort errorCode s) (port : ℤ)
    (ephemeral : Port) : (port, BindOutcome.success ephemeral) ∉ s.attempts := by
  intro hmem
  have hattempt := (h.mem_attempts_iff port _).mp hmem
  exact absurd hattempt.2.2 (by simp)

/-- The range is used up, or it was empty. -/
theorem usedUp_iff (env : Environment) (h : Passed bind minPort maxPort errorCode s)
    (hlt : maxPort < s.tryPort) :
    (s.finish env).BindsWhatItReports minPort maxPort ↔
      SearchHarmless bind errorCode minPort maxPort := by
  have hcode := h.errorCode
  have hmin := h.min_le
  have hmax := h.le_max
  have hint := h.isInt
  by_cases hempty : s.tryPort = minPort
  · rw [if_pos hempty] at hcode
    by_cases hzero : errorCode = 0
    · refine iff_of_false ?_ fun hharmless => hharmless.notEmpty (by omega) hzero
      -- nothing has been tried, but the server is started
      rw [Search.finish, if_neg (by simp [hcode, hzero])]
      intro hbinds
      obtain ⟨port, ephemeral, hmem⟩ := hbinds.started_iff.mp rfl
      exact h.no_success port ephemeral hmem
    · refine iff_of_true (bindsWhatItReports_of_failed (by rwa [hcode]) h.no_success) ?_
      refine ⟨fun _ => hzero, fun _ => by omega, ?_⟩
      intro p ephemeral hp hpmax
      omega
  · rw [if_neg hempty] at hcode
    refine iff_of_true (bindsWhatItReports_of_failed (by rw [hcode]; decide) h.no_success) ?_
    refine ⟨by omega, fun _ => by omega, ?_⟩
    intro p ephemeral hp hpmax hbind
    exact absurd (hbind.symm.trans (h.inUse p hp (by omega))) (by simp)

/-- The search ends at a port that is not in use. -/
theorem found_iff (env : Environment) (h : Passed bind minPort maxPort errorCode s)
    (hle : s.tryPort ≤ maxPort) (hbind : bind s.tryPort ≠ .addrInUse) :
    ((s.attempt (bind s.tryPort)).finish env).BindsWhatItReports minPort maxPort ↔
      SearchHarmless bind errorCode minPort maxPort := by
  have hmin := h.min_le
  have hnotLast : (∀ p, minPort ≤ p → p ≤ maxPort → bind p = .addrInUse) →
      maxPort ≠ 2 ^ 31 - 1 := fun hall => absurd (hall s.tryPort hmin hle) hbind
  have hfirst : ∀ p, minPort ≤ p → (∀ q, minPort ≤ q → q < p → bind q = .addrInUse) →
      bind p ≠ .addrInUse → p = s.tryPort := by
    intro p hp hbefore hne
    rcases Int.lt_trichotomy p s.tryPort with hlt | heq | hgt
    · exact absurd (h.inUse p hp hlt) hne
    · exact heq
    · exact absurd (hbefore s.tryPort hmin hgt) hbind
  cases houtcome : bind s.tryPort with
  | addrInUse => exact absurd houtcome hbind
  | otherError =>
      refine iff_of_true (bindsWhatItReports_of_failed (by simp [Search.attempt,
        BindOutcome.errorCode]) ?_) ⟨by omega, hnotLast, ?_⟩
      · intro port ephemeral hmem
        simp only [Search.attempt, List.mem_append, h.mem_attempts_iff, List.mem_singleton] at hmem
        simp at hmem
      · intro p ephemeral hp _ hsuccess hbefore
        have heq := hfirst p hp hbefore (by simp [hsuccess])
        rw [heq, houtcome] at hsuccess
        exact absurd hsuccess (by simp)
  | success ephemeral =>
      have hstarted : (s.attempt (.success ephemeral)).finish env =
          ⟨serverInitCommon env, true, some s.tryPort, some (boundPort s.tryPort ephemeral),
            s.attempts ++ [(s.tryPort, .success ephemeral)]⟩ := rfl
      rw [hstarted]
      constructor
      · intro hbinds
        obtain ⟨port, hport, hbound, -⟩ := hbinds.reported rfl
        have heq : (boundPort s.tryPort ephemeral : ℤ) = s.tryPort := by
          rw [Option.some.inj hbound, Option.some.inj hport]
        refine ⟨by omega, hnotLast, ?_⟩
        intro p ephemeral' hp _ hsuccess hbefore
        rw [hfirst p hp hbefore (by simp [hsuccess])]
        exact (boundPort_eq_iff s.tryPort ephemeral).mp heq
      · intro hharmless
        have hport := hharmless.isPort s.tryPort ephemeral hmin hle houtcome h.inUse
        have heq := (boundPort_eq_iff s.tryPort ephemeral).mpr hport
        refine ⟨iff_of_true rfl ⟨s.tryPort, ephemeral, by simp⟩, fun _ => ?_, by simp⟩
        refine ⟨boundPort s.tryPort ephemeral, by rw [heq], rfl, by omega, by omega, ?_⟩
        intro p hp hlt
        apply List.mem_append_left
        exact (h.mem_attempts_iff p _).mpr ⟨hp, by omega, rfl⟩

end

/-- The function returns and has bound what it reports, for all ranges and all outcomes of `bind`,
if and only if the search does not come across an empty range with a 0 in the variable that nothing
has assigned, binds at a number that is not a port, or increments the largest `int`. -/
theorem binds_what_it_reports_iff (env : Environment) (errorCode minPort maxPort : Int32) :
    (∃ call, serverInitPortRange env errorCode.toInt minPort.toInt maxPort.toInt = .ok call ∧
        call.BindsWhatItReports minPort.toInt maxPort.toInt) ↔
      env.socket < 0 ∨
        SearchHarmless env.bind errorCode.toInt minPort.toInt maxPort.toInt := by
  by_cases hsocket : env.socket < 0
  · refine iff_of_true ?_ (Or.inl hsocket)
    refine ⟨⟨-1, false, none, none, []⟩, if_pos hsocket, ?_⟩
    exact ⟨by simp, fun hstarted => absurd hstarted (by simp), fun _ => rfl⟩
  rw [serverInitPortRange_eq hsocket]
  simp only [hsocket, false_or]
  have hends := searchLoop_ends (Int32.toInt_lt maxPort)
    (passed_start env.bind maxPort.toInt errorCode.toInt
      ⟨Int32.le_toInt minPort, Int32.toInt_lt minPort⟩)
  generalize searchLoop env.bind maxPort.toInt ⟨minPort.toInt, errorCode.toInt, [], none⟩ = result
    at hends
  cases hends with
  | usedUp h hlt =>
      rw [← usedUp_iff env h hlt]
      simp [Except.map]
  | found h hle hbind =>
      rw [← found_iff env h hle hbind]
      simp [Except.map]
  | overflow hall hmax =>
      refine iff_of_false ?_ fun hharmless => hharmless.notLast hall hmax
      rintro ⟨call, hcall, -⟩
      exact absurd hcall (by simp [Except.map])

/-- A system in which all calls succeed but `bind`, which does what is given. -/
def sampleEnvironment (outcome : BindOutcome) : Environment := ⟨3, fun _ => outcome, 0, 0, 0⟩

def ephemeralPort : Port := ⟨49152, by decide, by decide⟩

/-- An empty range with a 0 in `error_code`, the port 65536 and a range up to the largest `int`. -/
theorem bind_not_reported :
    (¬ ∃ call, serverInitPortRange (sampleEnvironment .addrInUse) 0 1 0 = .ok call ∧
      call.BindsWhatItReports 1 0) ∧
    (¬ ∃ call, serverInitPortRange (sampleEnvironment (.success ephemeralPort)) 0 65536 65536 =
      .ok call ∧ call.BindsWhatItReports 65536 65536) ∧
    ¬ ∃ call, serverInitPortRange (sampleEnvironment .addrInUse) 0 2147483647 2147483647 =
      .ok call ∧ call.BindsWhatItReports 2147483647 2147483647 := by
  refine ⟨?_, ?_, ?_⟩
  · rintro ⟨call, hcall, hbinds⟩
    have hstarted : serverInitPortRange (sampleEnvironment .addrInUse) 0 1 0 =
        .ok ⟨0, true, some 1, none, []⟩ := by
      rw [serverInitPortRange_eq (by decide), searchLoop, if_neg (by decide)]
      rfl
    obtain rfl := Except.ok.inj (hstarted.symm.trans hcall)
    obtain ⟨port, ephemeral, hmem⟩ := hbinds.started_iff.mp rfl
    exact absurd hmem (by simp)
  · rintro ⟨call, hcall, hbinds⟩
    have hbound : serverInitPortRange (sampleEnvironment (.success ephemeralPort)) 0 65536 65536 =
        .ok ⟨0, true, some 65536, some 49152, [(65536, .success ephemeralPort)]⟩ := by
      rw [serverInitPortRange_eq (by decide), searchLoop, if_pos (by decide)]
      rfl
    obtain rfl := Except.ok.inj (hbound.symm.trans hcall)
    obtain ⟨port, hport, hport', -⟩ := hbinds.reported rfl
    have := Option.some.inj hport
    have := Option.some.inj hport'
    omega
  · rintro ⟨call, hcall, -⟩
    have hoverflow : serverInitPortRange (sampleEnvironment .addrInUse) 0 2147483647 2147483647 =
        .error .overflow := by
      rw [serverInitPortRange_eq (by decide), searchLoop, if_pos (by decide)]
      rfl
    exact absurd (hoverflow.symm.trans hcall) (by simp)

end Dynpm.PortRange
