import Mathlib.Data.List.Nodup
import Mathlib.Logic.Function.Basic

/-! # Intrusive lists

The links of an intrusive list are fields of the objects in it. They are given as a function from
the objects to the contents of this field, which may be anything for an object in no list.
-/

namespace Library

variable {κ : Type*}

/-- `Linked next p objects`: following the links from `p` visits exactly `objects`, in this order,
and ends in the null pointer. -/
inductive Linked (next : κ → Option κ) : Option κ → List κ → Prop where
  | nil : Linked next none []
  | cons {a : κ} {objects : List κ} (hnext : Linked next (next a) objects) :
      Linked next (some a) (a :: objects)

/-- The objects on the way from `p`, at most `fuel` of them. -/
def linkedObjects (next : κ → Option κ) : ℕ → Option κ → List κ
  | _, none => []
  | 0, some _ => []
  | fuel + 1, some a => a :: linkedObjects next fuel (next a)

/-- The walk from `a` to the last object of its list, which takes at most `fuel` steps. -/
def lastLinked (next : κ → Option κ) : ℕ → κ → Option κ
  | 0, _ => none
  | fuel + 1, a =>
      match next a with
      | none => some a
      | some b => lastLinked next fuel b

/-- The search for the first object from `p` on that passes the test, over at most `fuel` objects. A
search that ends without finding one gives `some none`. -/
def findLinked (next : κ → Option κ) (test : κ → Bool) : ℕ → Option κ → Option (Option κ)
  | _, none => some none
  | 0, some _ => none
  | fuel + 1, some a => if test a then some (some a) else findLinked next test fuel (next a)

namespace Linked

variable {next next' : κ → Option κ} {p : Option κ} {a b : κ} {front objects rest : List κ}

@[simp] theorem none_iff : Linked next none objects ↔ objects = [] := by
  constructor
  · intro h
    cases h
    rfl
  · rintro rfl
    exact .nil

@[simp] theorem some_iff :
    Linked next (some a) objects ↔ ∃ rest, objects = a :: rest ∧ Linked next (next a) rest := by
  constructor
  · intro h
    cases h with
    | cons hnext => exact ⟨_, rfl, hnext⟩
  · rintro ⟨rest, rfl, hnext⟩
    exact .cons hnext

theorem head_eq (h : Linked next p objects) : p = objects.head? := by
  cases h <;> rfl

/-- A pointer determines the list behind it. -/
theorem unique (h : Linked next p objects) (h' : Linked next p rest) : objects = rest := by
  induction h generalizing rest with
  | nil => exact (none_iff.mp h').symm
  | cons _ ih =>
      obtain ⟨objects', rfl, hnext'⟩ := some_iff.mp h'
      rw [ih hnext']

/-- From an object of the list on, its links lead through the rest. -/
theorem of_append (h : Linked next p (front ++ rest)) :
    Linked next (rest.head?) rest := by
  induction front generalizing p with
  | nil =>
      have hhead := h.head_eq
      rw [List.nil_append] at h hhead
      rwa [← hhead]
  | cons b front ih =>
      cases h with
      | cons hnext => exact ih hnext

/-- No object occurs twice, since its links would lead around for ever. -/
theorem nodup (h : Linked next p objects) : objects.Nodup := by
  induction h with
  | nil => exact List.nodup_nil
  | @cons a objects hnext ih =>
      refine List.nodup_cons.mpr ⟨?_, ih⟩
      intro hmem
      obtain ⟨front, rest, rfl⟩ := List.append_of_mem hmem
      have hloop := hnext.of_append
      have heq := hloop.unique (.cons hnext)
      have hlength := congrArg List.length heq
      simp only [List.length_cons, List.length_append] at hlength
      omega

/-- Only the links of the objects in the list matter. -/
theorem congr (h : Linked next p objects) (hsame : ∀ a ∈ objects, next' a = next a) :
    Linked next' p objects := by
  induction h with
  | nil => exact .nil
  | @cons a objects _ ih =>
      refine .cons ?_
      rw [hsame a List.mem_cons_self]
      exact ih fun b hb => hsame b (List.mem_cons_of_mem a hb)

/-- The front of a list whose last object is linked to other objects than before. -/
theorem relink (h : Linked next p (front ++ a :: rest)) (hfront : ∀ b ∈ front, next' b = next b)
    (hrest : Linked next' (next' a) objects) : Linked next' p (front ++ a :: objects) := by
  induction front generalizing p with
  | nil =>
      cases h
      exact .cons hrest
  | cons b front ih =>
      cases h with
      | cons hnext =>
          refine .cons ?_
          rw [hfront b List.mem_cons_self]
          exact ih hnext fun c hc => hfront c (List.mem_cons_of_mem b hc)

/-- Enough fuel lets `linkedObjects` read the list completely. -/
theorem linkedObjects_eq (h : Linked next p objects) {fuel : ℕ} (hfuel : objects.length ≤ fuel) :
    linkedObjects next fuel p = objects := by
  induction h generalizing fuel with
  | nil => cases fuel <;> rfl
  | @cons a objects _ ih =>
      cases fuel with
      | zero => simp at hfuel
      | succ fuel => rw [linkedObjects, ih (by simpa using hfuel)]

/-- Enough fuel lets the walk reach the last object. -/
theorem lastLinked_eq (h : Linked next (some a) objects) {fuel : ℕ}
    (hfuel : objects.length ≤ fuel) : lastLinked next fuel a = objects.getLast? := by
  induction fuel generalizing a objects with
  | zero =>
      cases h
      simp at hfuel
  | succ fuel ih =>
      obtain ⟨rest, rfl, hnext⟩ := some_iff.mp h
      rw [lastLinked]
      cases hb : next a with
      | none =>
          rw [hb, none_iff] at hnext
          subst hnext
          rfl
      | some b =>
          rw [hb] at hnext
          have hne : rest ≠ [] := by
            obtain ⟨rest, rfl, _⟩ := some_iff.mp hnext
            simp
          rw [List.getLast?_cons_of_ne_nil hne]
          exact ih hnext (by simpa using hfuel)

/-- Enough fuel lets the search end. -/
theorem findLinked_eq (h : Linked next p objects) (test : κ → Bool) {fuel : ℕ}
    (hfuel : objects.length ≤ fuel) :
    findLinked next test fuel p = some (objects.find? test) := by
  induction h generalizing fuel with
  | nil => cases fuel <;> rfl
  | @cons a objects _ ih =>
      cases fuel with
      | zero => simp at hfuel
      | succ fuel =>
          rw [findLinked, List.find?_cons]
          cases test a with
          | true => rfl
          | false => exact ih (by simpa using hfuel)

variable [DecidableEq κ]

/-- A new object is linked behind the last one. -/
theorem link (h : Linked next p (front ++ [a])) (hb : b ∉ front ++ [a]) :
    Linked (Function.update (Function.update next a (some b)) b none) p (front ++ [a, b]) := by
  have hnodup := List.nodup_append.mp h.nodup
  have hab : a ≠ b := by
    rintro rfl
    simp at hb
  refine h.relink ?_ ?_
  · intro c hc
    have hca : c ≠ a := by
      rintro rfl
      exact hnodup.2.2 c hc c List.mem_cons_self rfl
    have hcb : c ≠ b := by
      rintro rfl
      exact hb (List.mem_append_left _ hc)
    rw [Function.update_of_ne hcb, Function.update_of_ne hca]
  · rw [Function.update_of_ne hab, Function.update_self]
    simp

/-- A new object is linked in front of the first one. -/
theorem push (h : Linked next p objects) (ha : a ∉ objects) :
    Linked (Function.update next a p) (some a) (a :: objects) := by
  refine .cons ?_
  rw [Function.update_self]
  refine h.congr ?_
  intro b hb
  have hba : b ≠ a := by
    rintro rfl
    exact ha hb
  exact Function.update_of_ne hba ..

omit [DecidableEq κ] in
/-- The first object is left out of the list. -/
theorem tail (h : Linked next p (a :: rest)) : Linked next (next a) rest := by
  cases h with
  | cons hnext => exact hnext

/-- An object is linked past the one behind it. -/
theorem skip (h : Linked next p (front ++ b :: a :: rest)) :
    Linked (Function.update next b (next a)) p (front ++ b :: rest) := by
  have hnodup := List.nodup_append.mp h.nodup
  have hb := List.nodup_cons.mp hnodup.2.1
  refine h.relink ?_ ?_
  · intro c hc
    have hcb : c ≠ b := hnodup.2.2 c hc b List.mem_cons_self
    exact Function.update_of_ne hcb ..
  · rw [Function.update_self]
    refine h.of_append.tail.tail.congr ?_
    intro c hc
    have hcb : c ≠ b := by
      rintro rfl
      exact hb.1 (List.mem_cons_of_mem a hc)
    exact Function.update_of_ne hcb ..

omit [DecidableEq κ] in
/-- An object whose link is set to null becomes the last one. -/
theorem cut (h : Linked next p (front ++ a :: rest))
    (hsame : ∀ b ∈ front, next' b = next b) (ha : next' a = none) :
    Linked next' p (front ++ [a]) := by
  refine h.relink hsame ?_
  rw [ha]
  exact .nil

end Linked

end Library
