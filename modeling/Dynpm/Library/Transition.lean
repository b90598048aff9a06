import Mathlib.Data.Nat.Notation
import Mathlib.Logic.Relation

/-! # Transition systems

A system is given by its initial states and a partial step function, so that a run on a
concrete list of actions can be evaluated. Properties of whole runs are derived from what
one step preserves.
-/

namespace Library

/-- The initial states of a system and the effect of each action where it is enabled. -/
structure System (σ α : Type*) where
  initial : σ → Prop
  step : σ → α → Option σ

namespace System

variable {σ α : Type*} (S : System σ α)

/-- The state after a list of actions, provided that each is enabled in its turn. -/
def run : σ → List α → Option σ
  | s, [] => some s
  | s, a :: as => (S.step s a).bind fun t => run t as

/-- The states reached from an initial state by any sequence of enabled actions. -/
inductive Reachable : σ → Prop where
  | initial {s : σ} : S.initial s → Reachable s
  | step {s t : σ} {a : α} : Reachable s → S.step s a = some t → Reachable t

/-- `P` holds in every state that a run on the given actions passes through. -/
def Throughout (P : σ → Prop) : σ → List α → Prop
  | s, [] => P s
  | s, a :: as => P s ∧ ∀ t, S.step s a = some t → Throughout P t as

/-- Every step that a run on the given actions takes meets the condition `G`. -/
def Respecting (G : σ → α → Prop) : σ → List α → Prop
  | _, [] => True
  | s, a :: as => ∀ t, S.step s a = some t → G s a ∧ Respecting G t as

/-- The system beside an observer that keeps a record of the steps taken. The record never
restricts a step. -/
def observed {ω : Type*} (start : ω) (record : ω → σ → α → σ → ω) : System (σ × ω) α where
  initial p := S.initial p.1 ∧ p.2 = start
  step p a := (S.step p.1 a).map fun t => (t, record p.2 p.1 a t)

variable {S}

/-- A run is taken step by step, so that a decidable condition can be checked along it. -/
instance decidableRespecting {G : σ → α → Prop} [∀ s a, Decidable (G s a)] :
    ∀ s as, Decidable (S.Respecting G s as)
  | _, [] => isTrue trivial
  | s, a :: as =>
      match h : S.step s a with
      | none => isTrue fun _ ht => absurd (h.symm.trans ht) (by simp)
      | some t =>
          match (inferInstance : Decidable (G s a)), decidableRespecting t as with
          | isTrue hG, isTrue hrest => isTrue fun u hu => by
              obtain rfl := Option.some.inj (h.symm.trans hu)
              exact ⟨hG, hrest⟩
          | isFalse hG, _ => isFalse fun hall => hG (hall t h).1
          | _, isFalse hrest => isFalse fun hall => hrest (hall t h).2

/-- A property of the initial states that every step preserves holds of all reachable states. -/
theorem Reachable.invariant {I : σ → Prop} {s : σ} (h : S.Reachable s)
    (hinit : ∀ s, S.initial s → I s)
    (hstep : ∀ s a t, I s → S.step s a = some t → I t) : I s := by
  induction h with
  | initial hi => exact hinit _ hi
  | step _ hs ih => exact hstep _ _ _ ih hs

/-- What every step preserves holds at the end of a run. -/
theorem invariant_of_run {I : σ → Prop} {s t : σ} {as : List α}
    (hstep : ∀ s a t, I s → S.step s a = some t → I t) (hs : I s) (hr : S.run s as = some t) :
    I t := by
  induction as generalizing s with
  | nil =>
      obtain rfl : s = t := by simpa [System.run] using hr
      exact hs
  | cons a as ih =>
      obtain ⟨u, hu, hr⟩ := Option.bind_eq_some_iff.mp hr
      exact ih (hstep s a u hs hu) hr

/-- What every step that meets `G` preserves holds at the end of a run whose steps all meet it. -/
theorem invariant_of_respecting {I : σ → Prop} {G : σ → α → Prop} {s t : σ} {as : List α}
    (hgood : ∀ s a t, I s → G s a → S.step s a = some t → I t) (hs : I s)
    (h : S.Respecting G s as) (hr : S.run s as = some t) : I t := by
  induction as generalizing s with
  | nil =>
      obtain rfl := Option.some.inj hr
      exact hs
  | cons a as ih =>
      obtain ⟨u, hu, hr⟩ := Option.bind_eq_some_iff.mp hr
      obtain ⟨hG, hrest⟩ := h u hu
      exact ih (hgood s a u hs hG hu) hrest hr

/-- Executing actions from a reachable state stays within the reachable states. -/
theorem Reachable.run {s t : σ} {as : List α} (h : S.Reachable s) (hr : S.run s as = some t) :
    S.Reachable t :=
  invariant_of_run (fun _ _ _ hs ht => hs.step ht) h hr

/-- An invariant of the observed system: every step of the system keeps it together with what
the observer notes about the step. -/
theorem Reachable.observed_invariant {ω : Type*} {start : ω} {record : ω → σ → α → σ → ω}
    {I : σ → ω → Prop} {p : σ × ω} (h : (S.observed start record).Reachable p)
    (hinit : ∀ s, S.initial s → I s start)
    (hstep : ∀ s w a t, I s w → S.step s a = some t → I t (record w s a t)) : I p.1 p.2 := by
  refine h.invariant (I := fun p => I p.1 p.2) ?_ ?_
  · intro p hp
    rw [hp.2]
    exact hinit p.1 hp.1
  · intro p a q hI hq
    obtain ⟨t, ht, rfl⟩ := Option.map_eq_some_iff.mp hq
    exact hstep p.1 p.2 a t hI ht

theorem Throughout.head {P : σ → Prop} {s : σ} {as : List α} (h : S.Throughout P s as) : P s := by
  cases as with
  | nil => exact h
  | cons a as => exact h.1

/-- If every step that meets `G` preserves an invariant that implies `P`, then `P` holds
throughout every run whose steps all meet `G`. -/
theorem throughout_of_respecting {I P : σ → Prop} {G : σ → α → Prop}
    (hP : ∀ s, I s → P s)
    (hgood : ∀ s a t, I s → G s a → S.step s a = some t → I t)
    {s : σ} (hs : I s) {as : List α} (h : S.Respecting G s as) : S.Throughout P s as := by
  induction as generalizing s with
  | nil => exact hP s hs
  | cons a as ih =>
      refine ⟨hP s hs, ?_⟩
      intro t ht
      obtain ⟨hG, hrest⟩ := h t ht
      exact ih (hgood s a t hs hG ht) hrest

/-- If every step preserves an invariant that implies `P`, then `P` holds throughout every
run. -/
theorem throughout_of_invariant {I P : σ → Prop} (hP : ∀ s, I s → P s)
    (hstep : ∀ s a t, I s → S.step s a = some t → I t)
    {s : σ} (hs : I s) (as : List α) : S.Throughout P s as := by
  induction as generalizing s with
  | nil => exact hP s hs
  | cons a as ih =>
      refine ⟨hP s hs, ?_⟩
      intro t ht
      exact ih (hstep s a t hs ht)

/-- If every step that meets `G` preserves an invariant under which it also meets `H`, then so
do all steps of a run. -/
theorem Respecting.imp {I : σ → Prop} {G H : σ → α → Prop}
    (hstep : ∀ s a t, I s → G s a → S.step s a = some t → H s a ∧ I t)
    {s : σ} (hs : I s) {as : List α} (h : S.Respecting G s as) : S.Respecting H s as := by
  induction as generalizing s with
  | nil => trivial
  | cons a as ih =>
      intro t ht
      obtain ⟨hG, hrest⟩ := h t ht
      obtain ⟨hH, hI⟩ := hstep s a t hs hG ht
      exact ⟨hH, ih hI hrest⟩

theorem run_append (s : σ) (as bs : List α) :
    S.run s (as ++ bs) = (S.run s as).bind fun t => S.run t bs := by
  induction as generalizing s with
  | nil => rfl
  | cons a as ih =>
      simp only [List.cons_append, run, ih, Option.bind_assoc]

/-- A condition on the actions alone. -/
theorem respecting_of_forall {G : σ → α → Prop} {as : List α} (h : ∀ a ∈ as, ∀ s, G s a) (s : σ) :
    S.Respecting G s as := by
  induction as generalizing s with
  | nil => trivial
  | cons a as ih =>
      intro t _
      exact ⟨h a List.mem_cons_self s, ih (fun b hb => h b (List.mem_cons_of_mem a hb)) t⟩

/-- A run in two parts. -/
theorem Respecting.append {G : σ → α → Prop} {s : σ} {as bs : List α} (h : S.Respecting G s as)
    (hrest : ∀ t, S.run s as = some t → S.Respecting G t bs) : S.Respecting G s (as ++ bs) := by
  induction as generalizing s with
  | nil => exact hrest s rfl
  | cons a as ih =>
      intro u hu
      obtain ⟨hG, htail⟩ := h u hu
      refine ⟨hG, ih htail ?_⟩
      intro t ht
      apply hrest t
      rw [run, hu]
      exact ht

/-- The second part of a run. -/
theorem Respecting.of_append {G : σ → α → Prop} {s t : σ} {as bs : List α}
    (h : S.Respecting G s (as ++ bs)) (hrun : S.run s as = some t) : S.Respecting G t bs := by
  induction as generalizing s with
  | nil =>
      obtain rfl := Option.some.inj hrun
      exact h
  | cons a as ih =>
      obtain ⟨u, hu, hrun⟩ := Option.bind_eq_some_iff.mp hrun
      exact ih (h u hu).2 hrun

/-- A run whose steps do not all meet `G` comes to a step that does not. -/
theorem exists_violation {G : σ → α → Prop} {s : σ} {as : List α} (h : ¬ S.Respecting G s as) :
    ∃ front a u t, front ++ [a] <+: as ∧ S.run s front = some u ∧ S.step u a = some t ∧
      ¬ G u a := by
  induction as generalizing s with
  | nil => exact absurd trivial h
  | cons a as ih =>
      cases ht : S.step s a with
      | none => exact absurd (fun t ht' => absurd (ht.symm.trans ht') (by simp)) h
      | some t =>
          by_cases hG : G s a
          · have hrest : ¬ S.Respecting G t as := by
              intro hrest
              apply h
              intro t' ht'
              obtain rfl := Option.some.inj (ht.symm.trans ht')
              exact ⟨hG, hrest⟩
            obtain ⟨front, b, u, v, hfront, hrun, hstep, hnot⟩ := ih hrest
            refine ⟨a :: front, b, u, v, List.cons_prefix_cons.mpr ⟨rfl, hfront⟩, ?_, hstep, hnot⟩
            rw [run, ht]
            exact hrun
          · exact ⟨[], a, s, t, ⟨as, rfl⟩, rfl, ht, hG⟩

/-- A run that takes an action of a kind passes through its first occurrence. -/
theorem exists_first_of_countP {s t : σ} {as : List α} {p : α → Bool} {k : ℕ}
    (hcount : k + 1 ≤ as.countP p) (hrun : S.run s as = some t) :
    ∃ front a back u v, S.run s front = some u ∧ p a = true ∧ S.step u a = some v ∧
      S.run v back = some t ∧ k ≤ back.countP p := by
  induction as generalizing s with
  | nil => simp at hcount
  | cons a as ih =>
      obtain ⟨w, hw, hrun⟩ := Option.bind_eq_some_iff.mp hrun
      by_cases ha : p a = true
      · rw [List.countP_cons_of_pos ha] at hcount
        exact ⟨[], a, as, s, w, rfl, ha, hw, hrun, by omega⟩
      · rw [List.countP_cons_of_neg ha] at hcount
        obtain ⟨front, b, back, u, v, hfront, hb, hstep, hback, hk⟩ := ih hcount hrun
        refine ⟨a :: front, b, back, u, v, ?_, hb, hstep, hback, hk⟩
        rw [run, hw]
        exact hfront

/-- Two conditions on steps that agree under an invariant of the system. -/
theorem respecting_congr {I : σ → Prop} {G H : σ → α → Prop}
    (hpreserved : ∀ s a t, I s → S.step s a = some t → I t)
    (hiff : ∀ s a t, I s → S.step s a = some t → (G s a ↔ H s a))
    {s : σ} (hs : I s) (as : List α) : S.Respecting G s as ↔ S.Respecting H s as := by
  constructor
  · apply Respecting.imp _ hs
    intro s a t hI hG ht
    exact ⟨(hiff s a t hI ht).mp hG, hpreserved s a t hI ht⟩
  · apply Respecting.imp _ hs
    intro s a t hI hH ht
    exact ⟨(hiff s a t hI ht).mpr hH, hpreserved s a t hI ht⟩

/-- An exact condition for a property of whole runs. If a step that meets `G` preserves an
invariant that implies `P`, and a step that does not meet `G` destroys `P`, then `P` holds
throughout a run if and only if all its steps meet `G`. -/
theorem throughout_iff_respecting {I P : σ → Prop} {G : σ → α → Prop}
    (hP : ∀ s, I s → P s)
    (hgood : ∀ s a t, I s → G s a → S.step s a = some t → I t)
    (hbad : ∀ s a t, I s → ¬ G s a → S.step s a = some t → ¬ P t)
    {s : σ} (hs : I s) (as : List α) : S.Throughout P s as ↔ S.Respecting G s as := by
  refine ⟨?_, throughout_of_respecting hP hgood hs⟩
  intro h
  induction as generalizing s with
  | nil => trivial
  | cons a as ih =>
      intro t ht
      by_cases hG : G s a
      · exact ⟨hG, ih (hgood s a t hs hG ht) (h.2 t ht)⟩
      · exact absurd (h.2 t ht).head (hbad s a t hs hG ht)

end System

end Library
