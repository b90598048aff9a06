import Dynpm.Library.Stdio

/-! # The fields that a scan finds

Which conversions of a format `sscanf` performs depends on the text alone. This module says in
terms of the text when all conversions find their fields, and when a string is too long for its
buffer.
-/

namespace Library.Stdio

def Directive.isConversion : Directive → Bool
  | .int | .str => true
  | .byte _ => false

/-- The conversions of a format, in order. -/
def conversions (directives : List Directive) : List Directive :=
  directives.filter Directive.isConversion

@[simp] theorem conversions_nil : conversions [] = [] := rfl

@[simp] theorem conversions_int (directives : List Directive) :
    conversions (.int :: directives) = .int :: conversions directives := rfl

@[simp] theorem conversions_str (directives : List Directive) :
    conversions (.str :: directives) = .str :: conversions directives := rfl

@[simp] theorem conversions_byte (b : UInt8) (directives : List Directive) :
    conversions (.byte b :: directives) = conversions directives := rfl

def Directive.isBlank : Directive → Bool
  | .int | .str => true
  | .byte b => isSpace b

/-- Apart from its conversions the format has only blanks. -/
def Blank (directives : List Directive) : Prop :=
  ∀ directive ∈ directives, directive.isBlank = true

instance (directives : List Directive) : Decidable (Blank directives) :=
  inferInstanceAs (Decidable (∀ directive ∈ directives, directive.isBlank = true))

/-- The text has a field for each conversion. -/
def HasFields : List Directive → List UInt8 → Prop
  | [], _ => True
  | .int :: directives, text =>
      match scanInt text with
      | none => False
      | some (_, rest) => HasFields directives rest
  | .str :: directives, text =>
      match scanStr text with
      | none => False
      | some (_, rest) => HasFields directives rest
  | .byte _ :: directives, text => HasFields directives (skipSpace text)

/-- Among the strings that are read from the text, one does not fit its buffer. -/
def Overlong : List Directive → List ℕ → List UInt8 → Prop
  | [], _, _ => False
  | .int :: directives, capacities, text =>
      match scanInt text with
      | none => False
      | some (_, rest) => Overlong directives capacities rest
  | .str :: _, [], _ => True
  | .str :: directives, capacity :: capacities, text =>
      match scanStr text with
      | none => False
      | some (s, rest) => capacity ≤ s.length ∨ Overlong directives capacities rest
  | .byte _ :: directives, capacities, text => Overlong directives capacities (skipSpace text)

theorem Blank.tail {directive : Directive} {directives : List Directive}
    (h : Blank (directive :: directives)) : Blank directives := by
  intro d hd
  exact h d (List.mem_cons_of_mem _ hd)

/-- A blank of the format only skips blanks of the text. -/
theorem Blank.scan_byte {b : UInt8} {directives : List Directive}
    (h : Blank (.byte b :: directives)) (capacities : List ℕ) (text : List UInt8) :
    scan (.byte b :: directives) capacities text =
      scan directives capacities (skipSpace text) := by
  have hspace : isSpace b = true := h _ List.mem_cons_self
  cases text with
  | nil => simp [scan, hspace]
  | cons c text => simp [scan, hspace]

/-- Numbers have no length to exceed. -/
theorem not_overlong_of_no_str {directives : List Directive}
    (h : ∀ directive ∈ directives, directive ≠ .str) (capacities : List ℕ) (text : List UInt8) :
    ¬ Overlong directives capacities text := by
  induction directives generalizing text with
  | nil => simp [Overlong]
  | cons directive directives ih =>
      have htail := fun d hd => h d (List.mem_cons_of_mem _ hd)
      cases directive with
      | int =>
          simp only [Overlong]
          cases scanInt text with
          | none => simp
          | some field => exact ih htail field.2
      | str => exact absurd rfl (h .str List.mem_cons_self)
      | byte b => exact ih htail (skipSpace text)

theorem length_skipSpace_le (text : List UInt8) : (skipSpace text).length ≤ text.length :=
  (List.dropWhile_sublist _).length_le

theorem length_scanSign_le (text : List UInt8) : (scanSign text).2.length ≤ text.length := by
  unfold scanSign
  split
  · exact Nat.le_succ _
  · exact Nat.le_succ _
  · exact le_rfl

/-- What a scan leaves is not longer than the text. -/
theorem length_scanInt_le {text rest : List UInt8} {v : UInt32}
    (h : scanInt text = some (v, rest)) : rest.length ≤ text.length := by
  unfold scanInt at h
  split at h
  next negative digits hsign =>
  dsimp only at h
  split at h
  · exact absurd h (by simp)
  · obtain ⟨_, rfl⟩ := Prod.mk.inj (Option.some.inj h)
    have hlen := length_scanSign_le (skipSpace text)
    rw [hsign] at hlen
    exact ((List.dropWhile_sublist _).length_le.trans hlen).trans (length_skipSpace_le text)

theorem length_scanStr_le {text s rest : List UInt8} (h : scanStr text = some (s, rest)) :
    s.length ≤ text.length ∧ rest.length ≤ text.length := by
  unfold scanStr at h
  dsimp only at h
  split at h
  · exact absurd h (by simp)
  · obtain ⟨rfl, rfl⟩ := Prod.mk.inj (Option.some.inj h)
    have hskip := length_skipSpace_le text
    exact ⟨(List.takeWhile_sublist _).length_le.trans hskip,
      (List.dropWhile_sublist _).length_le.trans hskip⟩

/-- A text that is shorter than every buffer has no overlong string. -/
theorem not_overlong_of_length_lt {directives : List Directive} {capacities : List ℕ}
    {text : List UInt8} (hcount : directives.count .str ≤ capacities.length)
    (h : ∀ capacity ∈ capacities, text.length < capacity) :
    ¬ Overlong directives capacities text := by
  induction directives generalizing capacities text with
  | nil => simp [Overlong]
  | cons directive directives ih =>
      cases directive with
      | int =>
          simp only [Overlong]
          cases hscan : scanInt text with
          | none => simp
          | some field =>
              have hrest := length_scanInt_le hscan
              apply ih (by simpa using hcount)
              intro capacity hmem
              exact Nat.lt_of_le_of_lt hrest (h capacity hmem)
      | str =>
          cases capacities with
          | nil => exact absurd hcount (by simp)
          | cons capacity capacities =>
              simp only [Overlong]
              cases hscan : scanStr text with
              | none => simp
              | some field =>
                  obtain ⟨hs, hrest⟩ := length_scanStr_le hscan
                  obtain ⟨hfirst, hothers⟩ := List.forall_mem_cons.mp h
                  rintro (hlong | hlong)
                  · omega
                  · refine ih (by simpa using hcount) ?_ hlong
                    intro capacity hmem
                    exact Nat.lt_of_le_of_lt hrest (hothers capacity hmem)
      | byte b =>
          apply ih (by simpa using hcount)
          intro capacity hmem
          exact Nat.lt_of_le_of_lt (length_skipSpace_le text) (h capacity hmem)

/-- A string that does not fit its buffer is a fault. -/
theorem scan_of_overlong {directives : List Directive} (hblank : Blank directives)
    {capacities : List ℕ} {text : List UInt8} (h : Overlong directives capacities text) :
    scan directives capacities text = .error .outOfBounds := by
  induction directives generalizing capacities text with
  | nil => exact absurd h (by simp [Overlong])
  | cons directive directives ih =>
      cases directive with
      | int =>
          simp only [Overlong] at h
          rw [scan]
          cases hscan : scanInt text with
          | none => simp [hscan] at h
          | some field =>
              simp only [hscan] at h ⊢
              rw [ih hblank.tail h]
              rfl
      | str =>
          cases capacities with
          | nil => rw [scan]
          | cons capacity capacities =>
              simp only [Overlong] at h
              rw [scan]
              cases hscan : scanStr text with
              | none => simp [hscan] at h
              | some field =>
                  simp only [hscan] at h ⊢
                  split
                  · next hlt =>
                      rw [ih hblank.tail (h.resolve_left (Nat.not_le.mpr hlt))]
                      rfl
                  · rfl
      | byte b =>
          rw [hblank.scan_byte]
          exact ih hblank.tail h

/-- Otherwise the scan assigns values to the first conversions, and to all of them exactly when
the text has all fields. -/
theorem scan_of_not_overlong {directives : List Directive} (hblank : Blank directives)
    {capacities : List ℕ} {text : List UInt8} (h : ¬ Overlong directives capacities text) :
    ∃ values, scan directives capacities text = .ok values ∧
      values.map Arg.directive <+: conversions directives ∧
      (HasFields directives text ↔ values.map Arg.directive = conversions directives) := by
  induction directives generalizing capacities text with
  | nil => exact ⟨[], scan_nil _ _, List.prefix_refl _, by simp [HasFields]⟩
  | cons directive directives ih =>
      cases directive with
      | int =>
          simp only [Overlong] at h
          rw [scan]
          cases hscan : scanInt text with
          | none => exact ⟨[], rfl, List.nil_prefix, by simp [HasFields, hscan]⟩
          | some field =>
              simp only [hscan] at h ⊢
              obtain ⟨values, hvalues, hfront, hall⟩ := ih hblank.tail h
              refine ⟨.int field.1 :: values, by rw [hvalues]; rfl, ?_, ?_⟩
              · exact List.cons_prefix_cons.mpr ⟨rfl, hfront⟩
              · simp only [HasFields, hscan, hall]
                simp [Arg.directive]
      | str =>
          cases capacities with
          | nil => exact absurd trivial h
          | cons capacity capacities =>
              simp only [Overlong] at h
              rw [scan]
              cases hscan : scanStr text with
              | none => exact ⟨[], rfl, List.nil_prefix, by simp [HasFields, hscan]⟩
              | some field =>
                  simp only [hscan, not_or, Nat.not_le] at h ⊢
                  obtain ⟨values, hvalues, hfront, hall⟩ := ih hblank.tail h.2
                  refine ⟨.str field.1 :: values, by rw [if_pos h.1, hvalues]; rfl, ?_, ?_⟩
                  · exact List.cons_prefix_cons.mpr ⟨rfl, hfront⟩
                  · simp only [HasFields, hscan, hall]
                    simp [Arg.directive]
      | byte b =>
          rw [hblank.scan_byte]
          simp only [Overlong] at h
          simpa [HasFields] using ih hblank.tail h

/-- What has been scanned into buffers is scanned into larger ones too. -/
theorem scan_of_larger {directives : List Directive} {capacities capacities' : List ℕ}
    (hlarger : List.Forall₂ (· ≤ ·) capacities capacities') {text : List UInt8} {values : List Arg}
    (h : scan directives capacities text = .ok values) :
    scan directives capacities' text = .ok values := by
  induction directives generalizing capacities capacities' text values with
  | nil =>
      rw [scan_nil] at h
      rw [scan_nil, h]
  | cons directive directives ih =>
      cases directive with
      | int =>
          rw [scan] at h ⊢
          cases hscan : scanInt text with
          | none => simpa [hscan] using h
          | some field =>
              simp only [hscan] at h ⊢
              obtain ⟨rest, hrest, rfl⟩ := map_eq_ok_iff.mp h
              exact map_eq_ok_iff.mpr ⟨rest, ih hlarger hrest, rfl⟩
      | str =>
          cases hlarger with
          | nil => exact h
          | cons hle hlarger =>
              rw [scan] at h ⊢
              cases hscan : scanStr text with
              | none => simpa [hscan] using h
              | some field =>
                  simp only [hscan] at h ⊢
                  split at h
                  · next hlt =>
                      obtain ⟨rest, hrest, rfl⟩ := map_eq_ok_iff.mp h
                      rw [if_pos (Nat.lt_of_lt_of_le hlt hle)]
                      exact map_eq_ok_iff.mpr ⟨rest, ih hlarger hrest, rfl⟩
                  · exact absurd h (by simp)
      | byte b =>
          by_cases hspace : isSpace b = true
          · cases text with
            | nil =>
                simp only [scan, hspace, if_true] at h ⊢
                exact ih hlarger h
            | cons c text =>
                simp only [scan, hspace, if_true] at h ⊢
                exact ih hlarger h
          · cases text with
            | nil =>
                rw [scan, if_neg hspace] at h ⊢
                exact h
            | cons c text =>
                rw [scan, if_neg hspace] at h ⊢
                by_cases heq : c = b
                · rw [if_pos heq] at h ⊢
                  exact ih hlarger h
                · rw [if_neg heq] at h ⊢
                  exact h

/-! ## Printed lines -/

/-- A field is read back by its own conversion, so that the strings are too long from here on if
they do not fit. -/
theorem overlong_directive_iff {arg : Arg} {args : List Arg} (htokens : Tokens (arg :: args))
    {directives : List Directive} {tail : List UInt8} (htail : Separated tail)
    (hargs : ∀ capacities, Overlong directives capacities tail ↔ ¬ Fits args capacities)
    (capacities : List ℕ) :
    Overlong (arg.directive :: directives) capacities (arg.text ++ tail) ↔
      ¬ Fits (arg :: args) capacities := by
  cases arg with
  | int v =>
      simp only [Arg.directive, Arg.text, Overlong, scanInt_printInt v htail, Fits]
      exact hargs capacities
  | str s =>
      have htoken := htokens s List.mem_cons_self
      have htext : (Arg.str s).text = s := cstring_eq_self fun b hb => (htoken.2 b hb).1
      cases capacities with
      | nil => simp [Arg.directive, Overlong, Fits]
      | cons capacity capacities =>
          simp only [Arg.directive, htext, Overlong, scanStr_token htoken htail, Fits, htoken,
            true_and, hargs capacities]
          rw [not_and_or, Nat.not_lt]

section

variable {rest : List Directive} (hrest : ∀ capacities text, ¬ Overlong rest capacities text)
  {tail : List UInt8} (htail : Separated tail) {args : List Arg} (htokens : Tokens args)

include hrest htail htokens

theorem overlong_blankDirectives_iff (capacities : List ℕ) :
    Overlong (blankDirectives args ++ rest) capacities (blankFields args ++ tail) ↔
      ¬ Fits args capacities := by
  induction args generalizing capacities with
  | nil => exact iff_of_false (hrest capacities tail) (not_not_intro trivial)
  | cons arg args ih =>
      rw [blankDirectives_cons_append, blankFields_cons_append, Overlong, skipSpace_text htokens]
      exact overlong_directive_iff htokens (separated_blankFields args htail) (ih htokens.tail)
        capacities

/-- A printed line has a string that is too long exactly when its strings do not fit. -/
theorem overlong_line_iff (capacities : List ℕ) :
    Overlong (lineDirectives args ++ rest) capacities (line args ++ tail) ↔
      ¬ Fits args capacities := by
  cases args with
  | nil => exact iff_of_false (hrest capacities tail) (not_not_intro trivial)
  | cons arg args =>
      rw [lineDirectives, line, List.cons_append, List.append_assoc]
      exact overlong_directive_iff htokens (separated_blankFields args htail)
        (overlong_blankDirectives_iff hrest htail htokens.tail) capacities

end

end Library.Stdio
