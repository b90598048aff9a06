import Dynpm.Library.Links

/-! # The lists of `sys/queue.h`

Each object of a `LIST` holds a pointer to the next object, and the address of the pointer that
leads to itself, so that it can be removed without a search. The operations follow the macros
`LIST_INSERT_HEAD` and `LIST_REMOVE`.
-/

namespace Library

/-- The pointers of a list that an address can name: `lh_first` of the head, or `le_next` of an
object. A wild address is one that names none of them. -/
inductive Slot (κ : Type*) where
  | first
  | next (a : κ)
  | wild
  deriving DecidableEq

/-- The head of a list and the two link fields of all objects. -/
structure ListLinks (κ : Type*) where
  first : Option κ
  next : κ → Option κ
  prev : κ → Slot κ

namespace ListLinks

variable {κ : Type*} [DecidableEq κ]

/-- An assignment through an address. -/
def store (links : ListLinks κ) (slot : Slot κ) (p : Option κ) : Option (ListLinks κ) :=
  match slot with
  | .first => some { links with first := p }
  | .next a => some { links with next := Function.update links.next a p }
  | .wild => none

/-- `LIST_INSERT_HEAD`. -/
def insertHead (links : ListLinks κ) (a : κ) : ListLinks κ :=
  let prev :=
    match links.first with
    | some b => Function.update links.prev b (.next a)
    | none => links.prev
  { first := some a
    next := Function.update links.next a links.first
    prev := Function.update prev a .first }

/-- `LIST_REMOVE`. -/
def remove (links : ListLinks κ) (a : κ) : Option (ListLinks κ) :=
  let links :=
    match links.next a with
    | some b => { links with prev := Function.update links.prev b (links.prev a) }
    | none => links
  links.store (links.prev a) (links.next a)

end ListLinks

variable {κ : Type*} {prev prev' : κ → Slot κ} {slot : Slot κ} {a b : κ}
  {front objects rest : List κ}

/-- Each object holds the address of the pointer that leads to it, which is `slot` for the first
one. -/
def BackLinked (prev : κ → Slot κ) : Slot κ → List κ → Prop
  | _, [] => True
  | slot, a :: rest => prev a = slot ∧ BackLinked prev (.next a) rest

/-- The pointer behind the given objects. -/
def endSlot (slot : Slot κ) (front : List κ) : Slot κ :=
  match front.getLast? with
  | none => slot
  | some a => .next a

theorem endSlot_cons (slot : Slot κ) (a : κ) (front : List κ) :
    endSlot slot (a :: front) = endSlot (.next a) front := by
  cases front with
  | nil => rfl
  | cons b front =>
      rw [endSlot, endSlot, List.getLast?_cons_cons,
        List.getLast?_eq_some_getLast (List.cons_ne_nil b front)]

theorem backLinked_append :
    BackLinked prev slot (front ++ rest) ↔
      BackLinked prev slot front ∧ BackLinked prev (endSlot slot front) rest := by
  induction front generalizing slot with
  | nil => simp [BackLinked, endSlot]
  | cons a front ih => rw [List.cons_append, BackLinked, BackLinked, ih, endSlot_cons, and_assoc]

theorem BackLinked.congr (h : BackLinked prev slot objects)
    (hsame : ∀ a ∈ objects, prev' a = prev a) : BackLinked prev' slot objects := by
  induction objects generalizing slot with
  | nil => trivial
  | cons a rest ih =>
      obtain ⟨ha, hrest⟩ := h
      refine ⟨(hsame a List.mem_cons_self).trans ha, ?_⟩
      exact ih hrest fun b hb => hsame b (List.mem_cons_of_mem a hb)

namespace ListLinks

variable {links links' : ListLinks κ}

/-- The head and the link fields form the list of the given objects. -/
structure Holds (links : ListLinks κ) (objects : List κ) : Prop where
  linked : Linked links.next links.first objects
  backLinked : BackLinked links.prev .first objects

variable [DecidableEq κ]

/-- An object that is not in the list becomes its first one. -/
theorem Holds.insertHead (h : Holds links objects) (ha : a ∉ objects) :
    Holds (links.insertHead a) (a :: objects) := by
  refine ⟨h.linked.push ha, Function.update_self .., ?_⟩
  have hne : ∀ b ∈ objects, b ≠ a := by
    rintro b hb rfl
    exact ha hb
  have hhead := h.linked.head_eq
  cases objects with
  | nil => trivial
  | cons c rest =>
      have hnodup := List.nodup_cons.mp h.linked.nodup
      rw [List.head?_cons] at hhead
      have hca := hne c List.mem_cons_self
      refine ⟨?_, h.backLinked.2.congr ?_⟩
      · simp only [ListLinks.insertHead, hhead, Function.update_of_ne hca, Function.update_self]
      · intro b hb
        have hbc : b ≠ c := by
          rintro rfl
          exact hnodup.1 hb
        have hba := hne b (List.mem_cons_of_mem c hb)
        simp only [ListLinks.insertHead, hhead, Function.update_of_ne hba,
          Function.update_of_ne hbc]

/-- The pointer behind the front of a list is made to lead past the object behind it. -/
theorem store_endSlot (h : Linked links.next links.first (front ++ a :: rest)) :
    ∃ links', links.store (endSlot .first front) (links.next a) = some links' ∧
      links'.prev = links.prev ∧ Linked links'.next links'.first (front ++ rest) := by
  rcases List.eq_nil_or_concat front with rfl | ⟨most, b, rfl⟩
  · exact ⟨_, rfl, rfl, h.tail⟩
  · rw [List.concat_eq_append] at h ⊢
    rw [List.append_assoc] at h ⊢
    rw [endSlot, List.getLast?_concat]
    exact ⟨_, rfl, rfl, h.skip⟩

/-- An object of the list is removed from it, wherever it stands. -/
theorem Holds.remove (h : Holds links (front ++ a :: rest)) :
    ∃ links', links.remove a = some links' ∧ Holds links' (front ++ rest) := by
  have hnodup := List.nodup_append.mp h.linked.nodup
  obtain ⟨hfront, hslot, hrest⟩ := backLinked_append.mp h.backLinked
  have hhead := h.linked.of_append.tail.head_eq
  cases rest with
  | nil =>
      obtain ⟨links', hstore, hprev, hlinked⟩ := store_endSlot h.linked
      rw [List.head?_nil] at hhead
      refine ⟨links', ?_, hlinked, ?_⟩
      · simp only [ListLinks.remove, hhead, hslot]
        rwa [← hhead]
      · rw [hprev]
        exact backLinked_append.mpr ⟨hfront, trivial⟩
  | cons b rest =>
      have ha := List.nodup_cons.mp hnodup.2.1
      have hb := List.nodup_cons.mp ha.2
      have hab : a ≠ b := by
        rintro rfl
        exact ha.1 List.mem_cons_self
      rw [List.head?_cons] at hhead
      -- the field `le_prev` of the next object is set first
      let relinked : ListLinks κ :=
        { links with prev := Function.update links.prev b (links.prev a) }
      have hrelinked : Linked relinked.next relinked.first (front ++ a :: b :: rest) := h.linked
      obtain ⟨links', hstore, hprev, hlinked⟩ := store_endSlot hrelinked
      refine ⟨links', ?_, hlinked, ?_⟩
      · simp only [ListLinks.remove, hhead, Function.update_of_ne hab, hslot]
        rw [show relinked.next a = some b from hhead] at hstore
        simpa only [relinked, hslot] using hstore
      · rw [hprev]
        refine backLinked_append.mpr ⟨hfront.congr ?_, ?_, hrest.2.congr ?_⟩
        · intro c hc
          have hcb : c ≠ b := hnodup.2.2 c hc b (List.mem_cons_of_mem a List.mem_cons_self)
          exact Function.update_of_ne hcb ..
        · exact (Function.update_self ..).trans hslot
        · intro c hc
          have hcb : c ≠ b := by
            rintro rfl
            exact hb.1 hc
          exact Function.update_of_ne hcb ..

end ListLinks

end Library
