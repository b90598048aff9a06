import Mathlib.Data.List.Range
import Mathlib.Data.List.Perm.Subperm

/-! # Singly linked lists in a heap

Cells are allocated one after the other and never released, so an address is a position in
the heap. `Chain` relates a pointer to the cells that can be reached from it.
-/

namespace Library

/-- A list cell: its value and a pointer to the next cell, where `none` is the null pointer. -/
structure Cell (β : Type*) where
  value : β
  next : Option ℕ

/-- Heap cells in allocation order. -/
abbrev Heap (β : Type*) := List (Cell β)

namespace Heap

variable {β : Type*}

/-- A new cell at the address `heap.length`. -/
def alloc (heap : Heap β) (value : β) : Heap β :=
  heap ++ [⟨value, none⟩]

/-- Let the cell at `a` point to `b`. -/
def setNext (heap : Heap β) (a b : ℕ) : Heap β :=
  heap.modify a fun cell => { cell with next := some b }

/-- The values found by following the pointers from `p`, over at most `fuel` cells. -/
def values (heap : Heap β) : ℕ → Option ℕ → List β
  | 0, _ => []
  | _ + 1, none => []
  | fuel + 1, some a =>
      match heap[a]? with
      | none => []
      | some cell => cell.value :: values heap fuel cell.next

/-- The last cell on the way from `a`, over at most `fuel` pointers. -/
def lastCell (heap : Heap β) : ℕ → ℕ → ℕ
  | 0, a => a
  | fuel + 1, a =>
      match heap[a]? with
      | none => a
      | some cell =>
          match cell.next with
          | none => a
          | some b => lastCell heap fuel b

/-- `Chain heap p cells`: following `p` visits exactly `cells`, given with their addresses,
and ends in the null pointer. -/
inductive Chain (heap : Heap β) : Option ℕ → List (ℕ × β) → Prop where
  | nil : Chain heap none []
  | cons {a : ℕ} {value : β} {next : Option ℕ} {cells : List (ℕ × β)}
      (hcell : heap[a]? = some ⟨value, next⟩) (hnext : Chain heap next cells) :
      Chain heap (some a) ((a, value) :: cells)

/-- Pointers lead to later allocations only, so that no list is circular. -/
def Ascending (heap : Heap β) : Prop :=
  ∀ (a : ℕ) (cell : Cell β), heap[a]? = some cell → ∀ b ∈ cell.next, a < b

variable {heap : Heap β} {p : Option ℕ} {cells : List (ℕ × β)}

theorem Chain.nil_of_none (h : Chain heap none cells) : cells = [] := by
  cases h
  rfl

theorem Chain.lt_length (h : Chain heap p cells) : ∀ cell ∈ cells, cell.1 < heap.length := by
  induction h with
  | nil => simp
  | cons hcell _ ih =>
      intro cell hmem
      rcases List.mem_cons.mp hmem with rfl | hmem
      · exact (List.getElem?_eq_some_iff.mp hcell).1
      · exact ih cell hmem

theorem Chain.pairwise (h : Chain heap p cells) (hasc : heap.Ascending) :
    cells.Pairwise (fun x y => x.1 < y.1) ∧ ∀ a ∈ p, ∀ cell ∈ cells, a ≤ cell.1 := by
  induction h with
  | nil => simp
  | @cons a value next cells hcell _ ih =>
      have hlater : ∀ cell ∈ cells, a < cell.1 := by
        intro cell hmem
        cases hnext : next with
        | none =>
            subst hnext
            rename_i hchain
            simp [hchain.nil_of_none] at hmem
        | some b =>
            have hab := hasc a _ hcell b (by simp [hnext])
            have hbc := ih.2 b (by simp [hnext]) cell hmem
            omega
      refine ⟨List.pairwise_cons.mpr ⟨hlater, ih.1⟩, ?_⟩
      intro a' ha' cell hmem
      obtain rfl : a = a' := by simpa using ha'
      rcases List.mem_cons.mp hmem with rfl | hmem
      · exact le_rfl
      · exact (hlater cell hmem).le

/-- A list in an ascending heap has no more cells than the heap. -/
theorem Chain.length_le (h : Chain heap p cells) (hasc : heap.Ascending) :
    cells.length ≤ heap.length := by
  have hnodup : (cells.map Prod.fst).Nodup := by
    apply List.Pairwise.map _ _ (h.pairwise hasc).1
    intro x y hxy
    exact hxy.ne
  have hsub : cells.map Prod.fst ⊆ List.range heap.length := by
    intro a ha
    obtain ⟨cell, hcell, rfl⟩ := List.mem_map.mp ha
    exact List.mem_range.mpr (h.lt_length cell hcell)
  simpa using (List.subperm_of_subset hnodup hsub).length_le

/-- Enough fuel lets `values` read a list completely. -/
theorem Chain.values_eq (h : Chain heap p cells) {fuel : ℕ} (hfuel : cells.length ≤ fuel) :
    heap.values fuel p = cells.map Prod.snd := by
  induction h generalizing fuel with
  | nil => cases fuel <;> rfl
  | cons hcell _ ih =>
      cases fuel with
      | zero => simp at hfuel
      | succ fuel =>
          simp only [Heap.values, hcell, List.map_cons]
          rw [ih (by simpa using hfuel)]

/-- Enough fuel lets `lastCell` reach the last cell of a list. -/
theorem Chain.lastCell_eq {a : ℕ} (h : Chain heap (some a) cells) {fuel : ℕ}
    (hfuel : cells.length ≤ fuel) : cells.getLast?.map Prod.fst = some (heap.lastCell fuel a) := by
  induction fuel generalizing a cells with
  | zero =>
      cases h
      simp at hfuel
  | succ fuel ih =>
      cases h with
      | @cons _ value next cells hcell hnext =>
          simp only [Heap.lastCell, hcell]
          cases next with
          | none => simp [hnext.nil_of_none]
          | some b =>
              have hne : cells ≠ [] := by
                rintro rfl
                cases hnext
              rw [← ih hnext (by simpa using hfuel), List.getLast?_cons_of_ne_nil hne]

/-! ## Allocation and linking -/

theorem alloc_getElem?_of_lt (heap : Heap β) (value : β) {a : ℕ} (ha : a < heap.length) :
    (heap.alloc value)[a]? = heap[a]? := by
  simp [alloc, List.getElem?_append_left ha]

theorem Chain.alloc (h : Chain heap p cells) (value : β) : Chain (heap.alloc value) p cells := by
  induction h with
  | nil => exact .nil
  | cons hcell _ ih =>
      refine .cons ?_ ih
      rw [alloc_getElem?_of_lt _ _ (List.getElem?_eq_some_iff.mp hcell).1, hcell]

theorem Ascending.alloc (h : heap.Ascending) (value : β) : (heap.alloc value).Ascending := by
  intro a cell hcell b hb
  by_cases ha : a < heap.length
  · rw [alloc_getElem?_of_lt _ _ ha] at hcell
    exact h a cell hcell b hb
  · simp only [Heap.alloc, List.getElem?_append_right (Nat.le_of_not_lt ha)] at hcell
    obtain ⟨hlt, rfl⟩ := List.getElem?_eq_some_iff.mp hcell
    have hzero : a - heap.length = 0 := by simpa using hlt
    simp [hzero] at hb

theorem setNext_getElem?_of_ne (heap : Heap β) {a b c : ℕ} (h : a ≠ c) :
    (heap.setNext a b)[c]? = heap[c]? := by
  simp [setNext, h]

theorem setNext_getElem?_self {a b : ℕ} {cell : Cell β} (h : heap[a]? = some cell) :
    (heap.setNext a b)[a]? = some { cell with next := some b } := by
  simp [setNext, h]

theorem Ascending.setNext (h : heap.Ascending) {a b : ℕ} (hab : a < b) :
    (heap.setNext a b).Ascending := by
  intro c cell hcell d hd
  by_cases hac : a = c
  · subst c
    cases hold : heap[a]? with
    | none => simp [Heap.setNext, hold] at hcell
    | some old =>
        rw [setNext_getElem?_self hold] at hcell
        obtain rfl := Option.some.inj hcell
        obtain rfl : b = d := by simpa using hd
        exact hab
  · rw [setNext_getElem?_of_ne _ hac] at hcell
    exact h c cell hcell d hd

/-- Linking a fresh cell behind the last cell of a list appends it to the list. -/
theorem Chain.link (h : Chain heap p cells) (hasc : heap.Ascending) {a b : ℕ} {value : β}
    (hlast : cells.getLast?.map Prod.fst = some a) (hb : heap[b]? = some ⟨value, none⟩)
    (hfresh : ∀ cell ∈ cells, cell.1 ≠ b) :
    Chain (heap.setNext a b) p (cells ++ [(b, value)]) := by
  induction h with
  | nil => simp at hlast
  | @cons c v next cells hcell hnext ih =>
      have hcb : c ≠ b := hfresh _ List.mem_cons_self
      cases hne : cells with
      | nil =>
          obtain rfl : c = a := by simpa [hne] using hlast
          refine .cons (setNext_getElem?_self hcell) (.cons ?_ .nil)
          rw [setNext_getElem?_of_ne _ hcb, hb]
      | cons cell rest =>
          have hrest : cells.getLast?.map Prod.fst = some a := by
            rw [List.getLast?_cons_of_ne_nil (by simp [hne])] at hlast
            exact hlast
          have hlater := (Chain.cons hcell hnext).pairwise hasc
          have hac : a ≠ c := by
            obtain ⟨last, hmem, rfl⟩ := Option.map_eq_some_iff.mp hrest
            have := List.rel_of_pairwise_cons hlater.1 (List.mem_of_getLast? hmem)
            exact this.ne'
          rw [← hne]
          refine .cons ?_ (ih hrest fun cell hmem => hfresh cell (List.mem_cons_of_mem _ hmem))
          rw [setNext_getElem?_of_ne _ hac, hcell]

end Heap

end Library
