import Mathlib.Data.Option.Basic
import Dynpm.Library.Transition

/-! # Systems that agree

Two systems with the same actions agree if each action is enabled in both of two related states or
in neither of them, and leads to related states again. They then agree on whole runs.
-/

namespace Library.System

variable {σ τ α : Type*}

/-- The system that only takes the steps that meet `G`. -/
def restrict (S : System σ α) (G : σ → α → Prop) [∀ s a, Decidable (G s a)] : System σ α where
  initial := S.initial
  step s a := if G s a then S.step s a else none

theorem restrict_step_of_pos {S : System σ α} {G : σ → α → Prop} [∀ s a, Decidable (G s a)]
    {s : σ} {a : α} (h : G s a) : (S.restrict G).step s a = S.step s a :=
  if_pos h

theorem restrict_step_of_neg {S : System σ α} {G : σ → α → Prop} [∀ s a, Decidable (G s a)]
    {s : σ} {a : α} (h : ¬ G s a) : (S.restrict G).step s a = none :=
  if_neg h

variable {β : Type*} {C : System σ α} {S : System τ α} {T : System τ β} {R : σ → τ → Prop}

/-- Systems that agree on every step agree on every run. -/
theorem rel_run (h : ∀ c s a, R c s → Option.Rel R (C.step c a) (S.step s a)) {c : σ} {s : τ}
    (hR : R c s) (as : List α) : Option.Rel R (C.run c as) (S.run s as) := by
  induction as generalizing c s with
  | nil => exact .some hR
  | cons a as ih =>
      have hrel := h c s a hR
      rw [run, run]
      generalize C.step c a = x at hrel
      generalize S.step s a = y at hrel
      cases hrel with
      | none => exact .none
      | some hrel => exact ih hrel

/-- A system whose steps are steps of another one under a projection, or invisible there, reaches
only states that project to reachable ones. -/
theorem Reachable.project (f : σ → τ) (hinit : ∀ c, C.initial c → T.initial (f c))
    (hstep : ∀ c a c', C.step c a = some c' → f c' = f c ∨ ∃ b, T.step (f c) b = some (f c'))
    {c : σ} (h : C.Reachable c) : T.Reachable (f c) := by
  induction h with
  | initial hc => exact .initial (hinit _ hc)
  | step _ hs ih =>
      rcases hstep _ _ _ hs with heq | ⟨b, hb⟩
      · rwa [heq]
      · exact ih.step hb

end Library.System
