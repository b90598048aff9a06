import Dynpm.Library.RootedTree
import Dynpm.Model.Tbon
import Mathlib.Data.Int.Order.Basic
import Mathlib.Data.List.Nodup

/-! # The edges form a rooted tree

Every vertex computes its parent and its children from its own id. The two formulas agree: `c`
is the child of `p` at index `i` exactly when `c - 1` has quotient `p` and remainder `i` modulo
the degree.
-/

namespace Dynpm.Tbon

open Library

/-- The parent of a vertex. -/
def parentOf (degree id : ℤ) : ℤ := if id = 0 then -1 else (id - 1) / degree

/-- The entry at index `i` of the children of a vertex. -/
def childOf (degree total id : ℤ) (i : ℕ) : ℤ :=
  if total ≤ degree * id + i + 1 then -1 else degree * id + i + 1

def childrenOf (degree total id : ℤ) : List ℤ :=
  (List.range degree.toNat).map (childOf degree total id)

/-- The degree and the number of vertices of a tree whose ids can be computed with `int`. -/
structure Size (degree total : ℤ) : Prop where
  degree_pos : 1 ≤ degree
  total_pos : 1 ≤ total
  product_le : degree * total ≤ 2 ^ 31 - 1

variable {degree total id : ℤ}

/-- The last child that a vertex can have is representable. -/
theorem Size.child_le (h : Size degree total) (hid : 0 ≤ id) (hlt : id < total) :
    0 ≤ degree * id ∧ degree * id + degree ≤ 2 ^ 31 - 1 := by
  have hdegree := h.degree_pos
  have hproduct := h.product_le
  have hlow : 0 ≤ degree * id := Int.mul_nonneg (by omega) hid
  have hhigh : degree * (id + 1) ≤ degree * total :=
    Int.mul_le_mul_of_nonneg_left (by omega) (by omega)
  rw [Int.mul_add, Int.mul_one] at hhigh
  exact ⟨hlow, by omega⟩

theorem Size.total_le (h : Size degree total) : total ≤ 2 ^ 31 - 1 := by
  have hmul : 1 * total ≤ degree * total :=
    Int.mul_le_mul_of_nonneg_right h.degree_pos (by have := h.total_pos; omega)
  have hproduct := h.product_le
  omega

/-- No operation of `dynpm_compute_local_tbon_edges` overflows as long as the last child that the
vertex can have is representable. -/
theorem computeLocalTbonEdges_eq (hdegree : 1 ≤ degree) (hid : 0 ≤ id) (hlt : id < 2 ^ 31)
    (hhigh : degree * id + degree ≤ 2 ^ 31 - 1) :
    computeLocalTbonEdges id degree total =
      .ok (parentOf degree id, childrenOf degree total id) := by
  have hlow : 0 ≤ degree * id := Int.mul_nonneg (by omega) hid
  have hparent : parentId id degree = .ok (parentOf degree id) := by
    unfold parentId parentOf
    split
    · rfl
    · rw [CInt.sub, CInt.checked_ok (by omega) (by omega)]
      exact CInt.div_ok (by omega) (by omega) (by omega)
  have hchild : ∀ i ∈ List.range degree.toNat,
      childId id degree total i = .ok (childOf degree total id i) := by
    intro i hi
    have hi' := List.mem_range.mp hi
    rw [childId, CInt.mul, CInt.checked_ok (by omega) (by omega)]
    simp only [bind, Except.bind]
    rw [CInt.add, CInt.checked_ok (by omega) (by omega)]
    simp only
    rw [CInt.add, CInt.checked_ok (by omega) (by omega)]
    rfl
  rw [computeLocalTbonEdges, hparent, mapM_ok _ hchild]
  rfl

theorem Size.computeLocalTbonEdges_eq (h : Size degree total) (hid : 0 ≤ id) (hlt : id < total) :
    computeLocalTbonEdges id degree total =
      .ok (parentOf degree id, childrenOf degree total id) := by
  have htotal := h.total_le
  obtain ⟨_, hhigh⟩ := h.child_le hid hlt
  exact Tbon.computeLocalTbonEdges_eq h.degree_pos hid (by omega) hhigh

/-! ## Parents and children -/

/-- The ids in the array of children, without the entries that mark the end. -/
def childrenIdsOf (degree total id : ℤ) : List ℤ :=
  (List.range (min degree (total - degree * id - 1)).toNat).map fun i : ℕ => degree * id + i + 1

/-- The array holds these ids, and -1 in all its entries behind them. -/
theorem childrenOf_eq (degree total id : ℤ) :
    childrenOf degree total id = childrenIdsOf degree total id ++
      List.replicate (degree.toNat - (min degree (total - degree * id - 1)).toNat) (-1) := by
  have hsplit : degree.toNat = (min degree (total - degree * id - 1)).toNat +
      (degree.toNat - (min degree (total - degree * id - 1)).toNat) := by omega
  rw [childrenOf, childrenIdsOf]
  conv_lhs => rw [hsplit, List.range_add, List.map_append, List.map_map]
  congr 1
  · apply List.map_congr_left
    intro i hi
    have hi' := List.mem_range.mp hi
    rw [childOf, if_neg (by omega)]
  · rw [List.eq_replicate_iff]
    refine ⟨by simp, ?_⟩
    intro c hc
    obtain ⟨i, hi, rfl⟩ := List.mem_map.mp hc
    have hi' := List.mem_range.mp hi
    simp only [Function.comp_apply, childOf]
    rw [if_pos (by omega)]

theorem pairwise_childrenIdsOf (degree total id : ℤ) :
    (childrenIdsOf degree total id).Pairwise (· < ·) := by
  rw [childrenIdsOf, List.pairwise_map]
  apply List.pairwise_lt_range.imp
  intro i j hij
  omega

theorem mem_childrenIdsOf {c : ℤ} : c ∈ childrenIdsOf degree total id ↔
    degree * id + 1 ≤ c ∧ c ≤ degree * id + degree ∧ c < total := by
  rw [childrenIdsOf, List.mem_map]
  constructor
  · rintro ⟨i, hi, rfl⟩
    have hi' := List.mem_range.mp hi
    omega
  · rintro ⟨hlow, hhigh, hlt⟩
    refine ⟨(c - degree * id - 1).toNat, List.mem_range.mpr ?_, ?_⟩
    · omega
    · omega

theorem mem_childrenOf {c : ℤ} (hc : 0 ≤ c) :
    c ∈ childrenOf degree total id ↔ c ∈ childrenIdsOf degree total id := by
  rw [childrenOf_eq, List.mem_append, List.mem_replicate]
  constructor
  · rintro (hmem | ⟨_, rfl⟩)
    · exact hmem
    · omega
  · exact Or.inl

/-- The children of `p` are the vertices whose parent is `p`. -/
theorem mem_childrenIdsOf_iff_parentOf (hdegree : 1 ≤ degree) {p c : ℤ} (hp : 0 ≤ p)
    (hlt : c < total) :
    c ∈ childrenIdsOf degree total p ↔ c ≠ 0 ∧ parentOf degree c = p := by
  have hmul : 0 ≤ degree * p := Int.mul_nonneg (by omega) hp
  rw [mem_childrenIdsOf, parentOf]
  constructor
  · rintro ⟨hlow, hhigh, _⟩
    have hne : c ≠ 0 := by omega
    refine ⟨hne, ?_⟩
    rw [if_neg hne]
    have hquot := (Int.ediv_emod_unique (a := c - 1) (b := degree) (r := c - 1 - degree * p)
      (q := p) (by omega)).mpr ⟨by omega, by omega, by omega⟩
    exact hquot.1
  · rintro ⟨hne, hparent⟩
    rw [if_neg hne] at hparent
    have hmod := Int.mul_ediv_add_emod (c - 1) degree
    have hlow := Int.emod_nonneg (c - 1) (show degree ≠ 0 by omega)
    have hhigh := Int.emod_lt_of_pos (c - 1) (show 0 < degree by omega)
    rw [hparent] at hmod
    exact ⟨by omega, by omega, hlt⟩

/-- The parent of a vertex other than the root has a smaller id. -/
theorem parentOf_bounds (hdegree : 1 ≤ degree) {c : ℤ} (hc : 1 ≤ c) :
    0 ≤ parentOf degree c ∧ parentOf degree c < c := by
  rw [parentOf, if_neg (by omega)]
  have hnonneg := Int.ediv_nonneg (show 0 ≤ c - 1 by omega) (show 0 ≤ degree by omega)
  have hle := Int.ediv_le_self degree (show 0 ≤ c - 1 by omega)
  exact ⟨hnonneg, by omega⟩

/-- The tree of the vertices from zero on. -/
def tree (degree total : ℤ) (hdegree : 1 ≤ degree) : RootedTree ℤ where
  vertices := {c | 0 ≤ c ∧ c < total}
  root := 0
  parent := parentOf degree
  rank := Int.toNat
  parent_mem c hc hne := by
    have hbounds := parentOf_bounds hdegree (show 1 ≤ c by have := hc.1; omega)
    exact ⟨hbounds.1, hbounds.2.trans hc.2⟩
  rank_parent_lt c hc hne := by
    have hbounds := parentOf_bounds hdegree (show 1 ≤ c by have := hc.1; omega)
    omega

/-! ## The whole tree -/

/-- What it means that parents and arrays of children describe one rooted tree on the vertices
from zero on. -/
structure FormTree (total : ℤ) (parent : ℤ → ℤ) (children : ℤ → List ℤ) : Prop where
  parent_root : parent 0 = -1
  parent_lt : ∀ c, 1 ≤ c → c < total → 0 ≤ parent c ∧ parent c < c
  mem_children_iff : ∀ p c, 0 ≤ p → p < total → 0 ≤ c → c < total →
    (c ∈ children p ↔ c ≠ 0 ∧ parent c = p)
  children_once : ∀ p c, 0 ≤ p → p < total → 0 ≤ c → c ∈ children p → (children p).count c = 1
  children_shape : ∀ p, 0 ≤ p → p < total → ∃ ids unused,
    children p = ids ++ List.replicate unused (-1) ∧ ids.Pairwise (· < ·) ∧
      ∀ c ∈ ids, 0 ≤ c ∧ c < total
  reaches_root : ∀ c, 0 ≤ c → c < total → ∃ n, parent^[n] c = 0
  unique_parent : ∀ c, 1 ≤ c → c < total → ∃! p, (0 ≤ p ∧ p < total) ∧ c ∈ children p

theorem Size.formTree (h : Size degree total) :
    FormTree total (parentOf degree) (childrenOf degree total) where
  parent_root := if_pos rfl
  parent_lt c hc _ := parentOf_bounds h.degree_pos hc
  mem_children_iff p c hp _ hc hlt := by
    rw [mem_childrenOf hc, mem_childrenIdsOf_iff_parentOf h.degree_pos hp hlt]
  children_once p c _ _ hc hmem := by
    have hids := (mem_childrenOf hc).mp hmem
    have hnodup : (childrenIdsOf degree total p).Nodup :=
      (pairwise_childrenIdsOf degree total p).imp ne_of_lt
    rw [childrenOf_eq, List.count_append, List.count_eq_one_of_mem hnodup hids,
      List.count_replicate, if_neg (by simp; omega)]
  children_shape p hp _ := by
    refine ⟨_, _, childrenOf_eq degree total p, pairwise_childrenIdsOf degree total p, ?_⟩
    intro c hc
    have hmul : 0 ≤ degree * p := Int.mul_nonneg (by have := h.degree_pos; omega) hp
    obtain ⟨hlow, _, hlt⟩ := mem_childrenIdsOf.mp hc
    exact ⟨by omega, hlt⟩
  reaches_root c hc hlt := (tree degree total h.degree_pos).exists_iterate_parent c ⟨hc, hlt⟩
  unique_parent c hc hlt := by
    have hbounds := parentOf_bounds h.degree_pos hc
    refine ⟨parentOf degree c, ⟨⟨hbounds.1, by omega⟩, ?_⟩, ?_⟩
    · rw [mem_childrenOf (by omega), mem_childrenIdsOf_iff_parentOf h.degree_pos hbounds.1
        hlt]
      exact ⟨by omega, rfl⟩
    · rintro p ⟨⟨hp, _⟩, hmem⟩
      rw [mem_childrenOf (by omega), mem_childrenIdsOf_iff_parentOf h.degree_pos hp hlt] at hmem
      exact hmem.2.symm

/-- The edges that `dynpm_compute_local_tbon_edges` computes at all vertices form one rooted
tree. -/
theorem tbon_edges_form_tree (degree total : ℤ) (hdegree : 1 ≤ degree) (htotal : 1 ≤ total)
    (hsize : degree * total ≤ 2 ^ 31 - 1) :
    ∃ parent children,
      (∀ id, 0 ≤ id → id < total →
        computeLocalTbonEdges id degree total = .ok (parent id, children id)) ∧
      FormTree total parent children := by
  have h : Size degree total := ⟨hdegree, htotal, hsize⟩
  exact ⟨_, _, fun _ hid hlt => h.computeLocalTbonEdges_eq hid hlt, h.formTree⟩

/-- A binary tree of six vertices, whose last level is not full. -/
theorem tbon_edges_form_tree_six :
    ∃ parent children,
      (∀ id, 0 ≤ id → id < 6 →
        computeLocalTbonEdges id 2 6 = .ok (parent id, children id)) ∧
      FormTree 6 parent children :=
  tbon_edges_form_tree 2 6 (by decide) (by decide) (by decide)

/-! ## Trees that can be requested -/

/-- A vertex that has returned from the computation of its last child can represent it. -/
theorem childId_bound {i : ℕ} {child : ℤ} (h : childId id degree total i = .ok child) :
    degree * id + i + 1 < 2 ^ 31 := by
  obtain ⟨product, hproduct, h⟩ := bind_eq_ok h
  obtain ⟨sum, hsum, h⟩ := bind_eq_ok h
  obtain ⟨last, hlast, _⟩ := bind_eq_ok h
  obtain ⟨rfl, -⟩ := CInt.checked_eq_ok hproduct
  obtain ⟨rfl, -⟩ := CInt.checked_eq_ok hsum
  exact (CInt.checked_eq_ok hlast).2.2

/-- Without a positive degree the loop over the children does nothing. -/
theorem computeLocalTbonEdges_nonpos (hdegree : degree ≤ 0) :
    computeLocalTbonEdges id degree total =
      (parentId id degree).map fun parent => (parent, []) := by
  rw [computeLocalTbonEdges, Int.toNat_of_nonpos hdegree]
  cases parentId id degree with
  | error fault => rfl
  | ok parent => rfl

/-- No division by zero, no overflow, and only children behind the vertex itself. -/
def SafeEdges (id degree total : ℤ) : Prop :=
  ∃ parent children, computeLocalTbonEdges id degree total = .ok (parent, children) ∧
    ∀ c ∈ children, c = -1 ∨ id < c ∧ c < total

/-- A negative degree, which divides the id of the parent, gives no children. -/
theorem safeEdges_of_neg (hdegree : degree < 0) (hid : 0 ≤ id) (hlt : id < 2 ^ 31) :
    SafeEdges id degree total := by
  obtain ⟨parent, hparent⟩ : ∃ parent, parentId id degree = .ok parent := by
    rw [parentId]
    split
    · exact ⟨_, rfl⟩
    · have habs := Int.natAbs_tdiv_le_natAbs (id - 1) degree
      rw [CInt.sub, CInt.checked_ok (by omega) (by omega)]
      simp only [bind, Except.bind]
      rw [CInt.div, if_neg (by omega), CInt.checked_ok (by omega) (by omega)]
      exact ⟨_, rfl⟩
  refine ⟨parent, [], ?_, by simp⟩
  rw [computeLocalTbonEdges_nonpos (by omega), hparent]
  rfl

/-- Only the root can compute its edges in a tree of degree zero. -/
theorem safeEdges_zero_iff (hid : 0 ≤ id) (hlt : id < 2 ^ 31) :
    SafeEdges id 0 total ↔ id = 0 := by
  rw [SafeEdges, computeLocalTbonEdges_nonpos (Int.le_refl 0), parentId]
  by_cases hroot : id = 0
  · rw [if_pos hroot]
    exact iff_of_true ⟨-1, [], rfl, by simp⟩ hroot
  · rw [if_neg hroot, CInt.sub, CInt.checked_ok (by omega) (by omega)]
    refine iff_of_false ?_ hroot
    rintro ⟨parent, children, h, _⟩
    exact absurd h (by simp [bind, Except.bind, CInt.div, Except.map])

theorem safeEdges_pos_iff (hdegree : 0 < degree) (hid : 0 ≤ id) (hlt : id < 2 ^ 31) :
    SafeEdges id degree total ↔ degree * (id + 1) ≤ 2 ^ 31 - 1 := by
  rw [Int.mul_add, Int.mul_one]
  constructor
  · rintro ⟨parent, children, h, _⟩
    obtain ⟨_, _, h⟩ := bind_eq_ok h
    obtain ⟨_, hloop, _⟩ := bind_eq_ok h
    obtain ⟨child, hchild⟩ :=
      exists_ok_of_mapM hloop (degree.toNat - 1) (List.mem_range.mpr (by omega))
    have hbound := childId_bound hchild
    omega
  · intro hhigh
    refine ⟨_, _, computeLocalTbonEdges_eq hdegree hid hlt hhigh, ?_⟩
    intro c hc
    have hself : 1 * id ≤ degree * id := Int.mul_le_mul_of_nonneg_right hdegree hid
    by_cases hend : c = -1
    · exact Or.inl hend
    · obtain ⟨i, _, rfl⟩ := List.mem_map.mp hc
      rw [childOf] at hend ⊢
      split at hend
      · exact absurd rfl hend
      · next hlast =>
          rw [if_neg hlast]
          omega

/-- The edges of a requested tree are computed safely if and only if the last possible child of the
vertex is representable, or there are no children: the degree is negative, or it is zero and the
vertex is the root. -/
theorem tbon_arithmetic_safe_iff (degree total : UInt32) (id : ℤ) (hid : 0 ≤ id)
    (hlt : id < total.toInt32.toInt) :
    SafeEdges id degree.toInt32.toInt total.toInt32.toInt ↔
      degree.toInt32.toInt < 0 ∨ (degree.toInt32.toInt = 0 ∧ id = 0) ∨
        (0 < degree.toInt32.toInt ∧ degree.toInt32.toInt * (id + 1) ≤ 2 ^ 31 - 1) := by
  have htotal := total.toInt32.toInt_lt
  have hid' : id < 2 ^ 31 := by omega
  rcases lt_trichotomy degree.toInt32.toInt 0 with hneg | hzero | hpos
  · exact iff_of_true (safeEdges_of_neg hneg hid hid') (Or.inl hneg)
  · rw [hzero, safeEdges_zero_iff hid hid']
    omega
  · rw [safeEdges_pos_iff hpos hid hid']
    omega

/-- The last vertex of a binary tree of six vertices computes its edges safely. -/
theorem tbon_arithmetic_safe_six : (0 : ℤ) ≤ 5 ∧ 5 < (6 : UInt32).toInt32.toInt ∧
    SafeEdges 5 (2 : UInt32).toInt32.toInt (6 : UInt32).toInt32.toInt :=
  ⟨by decide, by decide, (tbon_arithmetic_safe_iff 2 6 5 (by decide) (by decide)).mpr
    (Or.inr (Or.inr ⟨by decide, by decide⟩))⟩

/-- In a tree of degree zero the second vertex divides by zero, and in one of degree `2 ^ 16` with
`2 ^ 16` vertices the product at the last one overflows. -/
theorem tbon_arithmetic_unsafe :
    computeLocalTbonEdges 1 (0 : UInt32).toInt32.toInt (2 : UInt32).toInt32.toInt =
        .error .divisionByZero ∧
      ¬ SafeEdges 1 (0 : UInt32).toInt32.toInt (2 : UInt32).toInt32.toInt ∧
      ¬ SafeEdges 65535 (65536 : UInt32).toInt32.toInt (65536 : UInt32).toInt32.toInt := by
  refine ⟨by decide, ?_, ?_⟩
  · have hzero : (0 : UInt32).toInt32.toInt = 0 := by decide
    rw [hzero, safeEdges_zero_iff (by decide) (by decide)]
    decide
  · rw [safeEdges_pos_iff (by decide) (by decide) (by decide)]
    decide

end Dynpm.Tbon
