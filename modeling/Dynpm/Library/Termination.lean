import Dynpm.Library.Transition
import Mathlib.Data.Nat.Notation

/-! # Systems whose runs end

Where every step lowers a measure, runs are bounded, and every state can be continued to one in
which no action is enabled.
-/

namespace Library.System

variable {σ α : Type*}

/-- No action is enabled. -/
def Final (S : System σ α) (s : σ) : Prop := ∀ a, S.step s a = none

variable {S : System σ α} {I : σ → Prop} {measure : σ → ℕ}

/-- Each step of a run takes one from the measure at least. -/
theorem length_le_of_run (hpreserved : ∀ s a t, I s → S.step s a = some t → I t)
    (hlower : ∀ s a t, I s → S.step s a = some t → measure t < measure s) {s t : σ} {as : List α}
    (hs : I s) (hrun : S.run s as = some t) : as.length + measure t ≤ measure s := by
  induction as generalizing s with
  | nil =>
      obtain rfl := Option.some.inj hrun
      simp
  | cons a as ih =>
      obtain ⟨u, hu, hrun⟩ := Option.bind_eq_some_iff.mp hrun
      have hrest := ih (hpreserved s a u hs hu) hrun
      have hstep := hlower s a u hs hu
      rw [List.length_cons]
      omega

/-- Where an action of the kind `q` adds `k` to the measure at most, and an action of the kind `p`
takes one from it, the actions of the kind `q` pay for those of the kind `p`. -/
theorem countP_le_of_run (measure : σ → ℕ) {p q : α → Bool} {k : ℕ}
    (hstep : ∀ s a t, S.step s a = some t →
      measure t + (if p a then 1 else 0) ≤ measure s + if q a then k else 0)
    {s t : σ} {as : List α} (hrun : S.run s as = some t) :
    as.countP p + measure t ≤ measure s + k * as.countP q := by
  induction as generalizing s with
  | nil =>
      obtain rfl := Option.some.inj hrun
      simp
  | cons a as ih =>
      obtain ⟨u, hu, hrun⟩ := Option.bind_eq_some_iff.mp hrun
      have hrest := ih hrun
      have hfirst := hstep s a u hu
      rw [List.countP_cons, List.countP_cons, Nat.mul_add]
      by_cases hq : q a = true
      · rw [if_pos hq] at hfirst ⊢
        omega
      · rw [if_neg hq] at hfirst ⊢
        omega

/-- A state is final or can be continued, until the measure is used up. -/
theorem exists_run_final (hpreserved : ∀ s a t, I s → S.step s a = some t → I t)
    (hlower : ∀ s a t, I s → S.step s a = some t → measure t < measure s) {s : σ} (hs : I s) :
    ∃ as t, S.run s as = some t ∧ S.Final t := by
  induction hmeasure : measure s using Nat.strongRecOn generalizing s with
  | ind n ih =>
      by_cases hfinal : S.Final s
      · exact ⟨[], s, rfl, hfinal⟩
      · obtain ⟨a, ha⟩ := Classical.not_forall.mp hfinal
        obtain ⟨u, hu⟩ := Option.ne_none_iff_exists'.mp ha
        have hlt := hlower s a u hs hu
        rw [hmeasure] at hlt
        obtain ⟨as, t, hrun, ht⟩ := ih _ hlt (hpreserved s a u hs hu) rfl
        refine ⟨a :: as, t, ?_, ht⟩
        rw [run, hu]
        exact hrun

end Library.System
