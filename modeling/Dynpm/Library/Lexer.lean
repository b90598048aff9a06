import Mathlib.Data.List.Basic
import Mathlib.Data.List.TakeWhile

/-! # Scanners with longest match

A scanner is a list of rules. At each position it takes the rule with the longest match, the
first of these if there are several, and continues behind the match.
-/

namespace Library.Lexer

variable {α : Type}

/-- The length of the longest match of a rule at the beginning of a text, which is zero if there
is none, and what the rule does with the text it has matched. -/
structure Rule (α : Type) where
  longest : List UInt8 → ℕ
  longest_le : ∀ text, longest text ≤ text.length
  action : List UInt8 → α

/-- A non-empty run of characters of a class. -/
def Rule.run (p : UInt8 → Bool) (action : List UInt8 → α) : Rule α where
  longest text := (text.takeWhile p).length
  longest_le _ := (List.takeWhile_sublist p).length_le
  action := action

/-- A character of one class, followed by any number of another one. -/
def Rule.headed (first p : UInt8 → Bool) (action : List UInt8 → α) : Rule α where
  longest
    | [] => 0
    | b :: text => if first b then 1 + (text.takeWhile p).length else 0
  longest_le
    | [] => le_rfl
    | b :: text => by
        have := (List.takeWhile_sublist (l := text) p).length_le
        simp only [List.length_cons]
        split <;> omega
  action := action

/-- One character of a class. -/
def Rule.single (p : UInt8 → Bool) (action : List UInt8 → α) : Rule α where
  longest
    | [] => 0
    | b :: _ => if p b then 1 else 0
  longest_le
    | [] => le_rfl
    | b :: text => by
        simp only [List.length_cons]
        split <;> omega
  action := action

/-- The rule that is taken. -/
def select : List (Rule α) → List UInt8 → Option (Rule α)
  | [], _ => none
  | rule :: rules, text =>
      match select rules text with
      | none => if 0 < rule.longest text then some rule else none
      | some other => if other.longest text ≤ rule.longest text then some rule else some other

/-- The results of at most `fuel` matches. -/
def scanUpTo (rules : List (Rule α)) : ℕ → List UInt8 → List α
  | 0, _ => []
  | fuel + 1, text =>
      match select rules text with
      | none => []
      | some rule =>
          rule.action (text.take (rule.longest text)) ::
            scanUpTo rules fuel (text.drop (rule.longest text))

/-- The results of all matches. A match takes at least one character, so that the length of the
text bounds their number. -/
def scan (rules : List (Rule α)) (text : List UInt8) : List α := scanUpTo rules text.length text

/-! ## The rule that is taken -/

theorem longest_pos_of_select {rules : List (Rule α)} {text : List UInt8} {rule : Rule α}
    (h : select rules text = some rule) : 0 < rule.longest text := by
  induction rules generalizing rule with
  | nil => cases h
  | cons first rules ih =>
      rw [select] at h
      cases hrest : select rules text with
      | none =>
          simp only [hrest, Option.ite_none_right_eq_some, Option.some.injEq] at h
          obtain ⟨hpos, rfl⟩ := h
          exact hpos
      | some other =>
          have hpos := ih hrest
          simp only [hrest] at h
          split at h
          · obtain rfl := Option.some.inj h
            omega
          · obtain rfl := Option.some.inj h
            exact hpos

theorem select_le {rules : List (Rule α)} {text : List UInt8} {bound : ℕ}
    (h : ∀ rule ∈ rules, rule.longest text ≤ bound) :
    ∀ rule ∈ select rules text, rule.longest text ≤ bound := by
  induction rules with
  | nil => simp [select]
  | cons first rules ih =>
      have hfirst := h first List.mem_cons_self
      have hrest := ih fun rule hrule => h rule (List.mem_cons_of_mem _ hrule)
      intro rule hrule
      rw [select] at hrule
      cases hselect : select rules text with
      | none =>
          simp only [hselect, Option.mem_def, Option.ite_none_right_eq_some,
            Option.some.injEq] at hrule
          exact hrule.2 ▸ hfirst
      | some other =>
          have hother := hrest other (by simp [hselect])
          simp only [hselect, Option.mem_def] at hrule
          split at hrule
          · exact Option.some.inj hrule ▸ hfirst
          · exact Option.some.inj hrule ▸ hother

/-- The rule taken is the one that matches more than the rules before it and at least as much as
the rules behind it. -/
theorem select_append {front back : List (Rule α)} {rule : Rule α} {text : List UInt8}
    (hpos : 0 < rule.longest text) (hfront : ∀ r ∈ front, r.longest text < rule.longest text)
    (hback : ∀ r ∈ back, r.longest text ≤ rule.longest text) :
    select (front ++ rule :: back) text = some rule := by
  induction front with
  | nil =>
      rw [List.nil_append, select]
      cases hselect : select back text with
      | none => simp [hpos]
      | some other => simp [select_le hback other (by simp [hselect])]
  | cons first front ih =>
      have hfirst := hfront first List.mem_cons_self
      have hrest := ih fun r hr => hfront r (List.mem_cons_of_mem _ hr)
      rw [List.cons_append, select, hrest]
      exact if_neg (Nat.not_le_of_lt hfirst)

/-! ## All matches -/

theorem scanUpTo_nil (rules : List (Rule α)) (fuel : ℕ) : scanUpTo rules fuel [] = [] := by
  cases fuel with
  | zero => rfl
  | succ fuel =>
      rw [scanUpTo]
      cases hselect : select rules [] with
      | none => rfl
      | some rule =>
          have hpos := longest_pos_of_select hselect
          have hle := rule.longest_le []
          simp only [List.length_nil] at hle
          omega

theorem scan_nil (rules : List (Rule α)) : scan rules [] = [] := rfl

/-- More fuel than characters makes no difference. -/
theorem scanUpTo_congr (rules : List (Rule α)) {fuel fuel' : ℕ} {text : List UInt8}
    (h : text.length ≤ fuel) (h' : text.length ≤ fuel') :
    scanUpTo rules fuel text = scanUpTo rules fuel' text := by
  induction fuel generalizing fuel' text with
  | zero =>
      obtain rfl := List.length_eq_zero_iff.mp (Nat.le_zero.mp h)
      rw [scanUpTo_nil, scanUpTo_nil]
  | succ fuel ih =>
      cases fuel' with
      | zero =>
          obtain rfl := List.length_eq_zero_iff.mp (Nat.le_zero.mp h')
          rw [scanUpTo_nil, scanUpTo_nil]
      | succ fuel' =>
          rw [scanUpTo, scanUpTo]
          cases hselect : select rules text with
          | none => rfl
          | some rule =>
              have hpos := longest_pos_of_select hselect
              have hlen : (text.drop (rule.longest text)).length = text.length -
                  rule.longest text := List.length_drop
              exact congrArg _ (ih (by omega) (by omega))

/-- A match and what follows it. -/
theorem scan_append {rules : List (Rule α)} {rule : Rule α} {lexeme rest : List UInt8}
    (hselect : select rules (lexeme ++ rest) = some rule)
    (hlongest : rule.longest (lexeme ++ rest) = lexeme.length) :
    scan rules (lexeme ++ rest) = rule.action lexeme :: scan rules rest := by
  have hpos := longest_pos_of_select hselect
  have hlen : (lexeme ++ rest).length = (lexeme ++ rest).length - 1 + 1 := by
    rw [List.length_append]
    omega
  rw [scan, hlen, scanUpTo, hselect]
  simp only [hlongest, List.take_left, List.drop_left]
  rw [scan, scanUpTo_congr rules _ le_rfl]
  rw [List.length_append]
  omega

end Library.Lexer
