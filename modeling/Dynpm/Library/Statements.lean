import Mathlib.Computability.ContextFreeGrammar
import Mathlib.Data.Fintype.Sets
import Mathlib.Data.List.Infix
import Mathlib.Order.CompletePartialOrder

/-! # Sequences of statements

The grammar of the texts that consist of statements of fixed shapes, and a shift-reduce parser
for it. Where no shape is the beginning of another one, the parser can reduce a statement as soon
as it is complete, without looking at the next token.
-/

namespace Library.Statements

open Computability

/-! ## Languages of grammars -/

section Interpretation

variable {T : Type*} {g : ContextFreeGrammar T}

/-- The words of a symbol, given the words of the nonterminals. -/
def words (sem : g.NT → Language T) : Symbol T g.NT → Language T
  | .terminal a => {[a]}
  | .nonterminal n => sem n

theorem prod_words_terminal (sem : g.NT → Language T) (w : List T) :
    ((w.map Symbol.terminal).map (words sem)).prod = {w} := by
  induction w with
  | nil => rfl
  | cons a w ih =>
      rw [List.map_cons, List.map_cons, List.prod_cons, ih]
      exact Set.image2_singleton

/-- An interpretation of the nonterminals that is closed under the rules contains the language
of the grammar. -/
theorem language_le (sem : g.NT → Language T)
    (hclosed : ∀ r ∈ g.rules, (r.output.map (words sem)).prod ≤ sem r.input) :
    g.language ≤ sem g.initial := by
  have hderives : ∀ u v, g.Derives u v →
      (v.map (words sem)).prod ≤ (u.map (words sem)).prod := by
    intro u v h
    induction h with
    | refl => exact le_rfl
    | tail _ hstep ih =>
        obtain ⟨r, hr, hrewrites⟩ := hstep
        obtain ⟨front, back, rfl, rfl⟩ := hrewrites.exists_parts
        refine le_trans ?_ ih
        simp only [List.map_append, List.prod_append, List.map_cons, List.map_nil, List.prod_cons,
          List.prod_nil, mul_one]
        gcongr
        exact hclosed r hr
  intro w hw
  have hle := hderives _ _ hw
  rw [prod_words_terminal] at hle
  simpa [words] using hle (Set.mem_singleton w)

end Interpretation

/-! ## The grammar of statements -/

section Grammar

variable {κ ι : Type} [DecidableEq κ] [DecidableEq ι] [Fintype ι]

inductive Nonterminal (ι : Type) where
  | sequence
  | statement (i : ι)
  deriving DecidableEq

/-- A sequence is empty or a sequence followed by a statement, and each kind of statement has one
rule. -/
def rules (shape : ι → List κ) : Finset (ContextFreeRule κ (Nonterminal ι)) :=
  {⟨.sequence, []⟩} ∪
    (Finset.univ.image fun i =>
      ⟨.sequence, [.nonterminal .sequence, .nonterminal (.statement i)]⟩) ∪
    Finset.univ.image fun i => ⟨.statement i, (shape i).map .terminal⟩

def grammar (shape : ι → List κ) : ContextFreeGrammar κ where
  NT := Nonterminal ι
  initial := .sequence
  rules := rules shape

theorem mem_rules {shape : ι → List κ} {r : ContextFreeRule κ (Nonterminal ι)} :
    r ∈ rules shape ↔ r = ⟨.sequence, []⟩ ∨
      (∃ i, ⟨.sequence, [.nonterminal .sequence, .nonterminal (.statement i)]⟩ = r) ∨
      ∃ i, ⟨.statement i, (shape i).map .terminal⟩ = r := by
  simp only [rules, Finset.mem_union, Finset.mem_singleton, Finset.mem_image, Finset.mem_univ,
    true_and, or_assoc]

/-- The words of the given shapes. -/
def shapes (shape : ι → List κ) : Language κ := Set.range shape

/-- A nonterminal becomes the right side of one of its rules. -/
theorem derives_rule {shape : ι → List κ} {r : ContextFreeRule κ (Nonterminal ι)}
    (h : r ∈ rules shape) :
    (grammar shape).Derives [.nonterminal r.input] r.output :=
  ContextFreeGrammar.Produces.single ⟨r, h, ContextFreeRule.Rewrites.input_output⟩

theorem derives_flatten (shape : ι → List κ) (ss : List (List κ))
    (h : ∀ s ∈ ss, s ∈ shapes shape) :
    (grammar shape).Derives [.nonterminal .sequence] (ss.flatten.map .terminal) := by
  induction ss using List.reverseRecOn with
  | nil => exact derives_rule (mem_rules.mpr (.inl rfl))
  | append_singleton ss s ih =>
      obtain ⟨i, rfl⟩ := h s (by simp)
      have hfront := ih fun s hs => h s (by simp [hs])
      have hsplit : (grammar shape).Derives [.nonterminal .sequence]
          ([.nonterminal .sequence] ++ [.nonterminal (.statement i)]) :=
        derives_rule (mem_rules.mpr (.inr (.inl ⟨i, rfl⟩)))
      have hlast : (grammar shape).Derives [.nonterminal (.statement i)]
          ((shape i).map .terminal) :=
        derives_rule (mem_rules.mpr (.inr (.inr ⟨i, rfl⟩)))
      rw [List.flatten_append, List.flatten_singleton, List.map_append]
      exact (hsplit.trans (hfront.append_right _)).trans (hlast.append_left _)

/-- The words of the grammar are the sequences of words of the given shapes. -/
theorem language_grammar (shape : ι → List κ) : (grammar shape).language = (shapes shape)∗ := by
  apply le_antisymm
  · let sem : Nonterminal ι → Language κ
      | .sequence => (shapes shape)∗
      | .statement i => {shape i}
    refine language_le (g := grammar shape) sem ?_
    intro r hr
    rcases mem_rules.mp hr with rfl | ⟨i, rfl⟩ | ⟨i, rfl⟩
    · exact one_le_kstar
    · change (shapes shape)∗ * (({shape i} : Language κ) * 1) ≤ (shapes shape)∗
      have hshape : ({shape i} : Language κ) ≤ shapes shape := by
        rintro w rfl
        exact ⟨i, rfl⟩
      calc (shapes shape)∗ * (({shape i} : Language κ) * 1)
          ≤ (shapes shape)∗ * (shapes shape)∗ := by
            rw [mul_one]
            gcongr
            exact hshape.trans le_kstar
        _ = (shapes shape)∗ := kstar_mul_kstar _
    · exact (prod_words_terminal (g := grammar shape) sem (shape i)).le
  · intro w hw
    obtain ⟨ss, rfl, hss⟩ := Language.mem_kstar.mp hw
    exact derives_flatten shape ss hss

end Grammar

/-! ## The parser -/

section Parser

variable {τ κ ι ε σ : Type} [DecidableEq κ] [Fintype ι]

/-- The shift-reduce parser. Its stack holds the tokens of the statement under way; a token is
shifted if some statement can go on with it, and a complete statement is reduced at once, by an
action on the values of its tokens. The scanner and the actions may abort the parse. The result
tells whether the text was accepted. -/
def parse (shape : ι → List κ) (kind : τ → κ) (reduce : σ → List τ → Except ε σ) :
    σ → List τ → List (Except ε τ) → Except ε (Bool × σ)
  | s, stack, [] => .ok (stack.isEmpty, s)
  | _, _, .error e :: _ => .error e
  | s, stack, .ok t :: tokens =>
      if ∃ i, (stack ++ [t]).map kind = shape i then
        reduce s (stack ++ [t]) >>= fun s => parse shape kind reduce s [] tokens
      else if ∃ i, (stack ++ [t]).map kind <+: shape i then
        parse shape kind reduce s (stack ++ [t]) tokens
      else .ok (false, s)

/-- No shape is empty or the beginning of another one. -/
structure Separable (shape : ι → List κ) : Prop where
  nonempty : ∀ i, shape i ≠ []
  not_within : ∀ i j, shape i <+: shape j → shape i = shape j

variable {shape : ι → List κ} {kind : τ → κ} {reduce : σ → List τ → Except ε σ}

/-- The rest of a statement is shifted, and then the statement is reduced. -/
theorem parse_rest (hshape : Separable shape) (s : σ) (stack rest : List τ) (hrest : rest ≠ [])
    {i : ι} (hkind : (stack ++ rest).map kind = shape i) (tokens : List (Except ε τ)) :
    parse shape kind reduce s stack (rest.map .ok ++ tokens) =
      reduce s (stack ++ rest) >>= fun s => parse shape kind reduce s [] tokens := by
  induction rest generalizing stack with
  | nil => exact absurd rfl hrest
  | cons t rest ih =>
      rw [List.map_cons, List.cons_append, parse]
      by_cases hlast : rest = []
      · subst hlast
        rw [if_pos ⟨i, hkind⟩]
        rfl
      · have hwithin : (stack ++ [t]).map kind <+: shape i := by
          refine ⟨rest.map kind, ?_⟩
          rw [← List.map_append, ← List.append_cons]
          exact hkind
        have hincomplete : ¬ ∃ j, (stack ++ [t]).map kind = shape j := by
          rintro ⟨j, hj⟩
          have hsame := hshape.not_within j i (hj ▸ hwithin)
          rw [← hj, ← hkind] at hsame
          have hlen := congrArg List.length hsame
          have hpos := List.length_pos_of_ne_nil hlast
          simp only [List.length_map, List.length_append, List.length_cons, List.length_nil] at hlen
          omega
        rw [if_neg hincomplete, if_pos ⟨i, hwithin⟩]
        have hnext := ih (stack ++ [t]) hlast (by rw [← List.append_cons]; exact hkind)
        rw [hnext, ← List.append_cons]

/-- A sequence of statements is accepted, and its statements are reduced in order. -/
theorem parse_statements (hshape : Separable shape) (ss : List (List τ))
    (hss : ∀ u ∈ ss, ∃ i, u.map kind = shape i) (s : σ) :
    parse shape kind reduce s [] (ss.flatten.map .ok) =
      (ss.foldlM reduce s).map fun s => (true, s) := by
  induction ss generalizing s with
  | nil => rfl
  | cons u ss ih =>
      obtain ⟨i, hi⟩ := hss u List.mem_cons_self
      have hne : u ≠ [] := by
        rintro rfl
        exact hshape.nonempty i hi.symm
      rw [List.flatten_cons, List.map_append, parse_rest hshape s [] u hne hi, List.nil_append,
        List.foldlM_cons]
      cases reduce s u with
      | error e => rfl
      | ok s => exact ih (fun u hu => hss u (List.mem_cons_of_mem _ hu)) s

end Parser

end Library.Statements
