import Mathlib.Data.Set.Basic
import Mathlib.Logic.Function.Iterate

/-! # Rooted trees given by parents

A set of vertices with a distinguished root, in which the parent of every other vertex has a
smaller rank.
-/

namespace Library

/-- Vertices with a parent function that descends to the root. -/
structure RootedTree (α : Type*) where
  vertices : Set α
  root : α
  parent : α → α
  rank : α → ℕ
  parent_mem : ∀ c ∈ vertices, c ≠ root → parent c ∈ vertices
  rank_parent_lt : ∀ c ∈ vertices, c ≠ root → rank (parent c) < rank c

namespace RootedTree

variable {α : Type*} (T : RootedTree α)

/-- What holds at the root and passes from each parent to its children holds everywhere. -/
theorem induction {P : α → Prop} (hroot : P T.root)
    (hchild : ∀ c ∈ T.vertices, c ≠ T.root → P (T.parent c) → P c) :
    ∀ c ∈ T.vertices, P c := by
  have hrank : ∀ n, ∀ c ∈ T.vertices, T.rank c = n → P c := by
    intro n
    induction n using Nat.strongRecOn with
    | ind n ih =>
        intro c hc hn
        by_cases hcr : c = T.root
        · exact hcr ▸ hroot
        · have hlt := T.rank_parent_lt c hc hcr
          exact hchild c hc hcr (ih _ (hn ▸ hlt) _ (T.parent_mem c hc hcr) rfl)
  intro c hc
  exact hrank _ c hc rfl

/-- Every vertex reaches the root by iterating the parent. -/
theorem exists_iterate_parent : ∀ c ∈ T.vertices, ∃ n, T.parent^[n] c = T.root := by
  apply T.induction (P := fun c => ∃ n, T.parent^[n] c = T.root)
  · exact ⟨0, rfl⟩
  · rintro c _ _ ⟨n, hn⟩
    exact ⟨n + 1, hn⟩

end RootedTree

end Library
