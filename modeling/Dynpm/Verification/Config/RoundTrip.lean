import Dynpm.Verification.Config.Tables
import Mathlib.Data.List.Find

/-! # Parsing a rendered configuration

A configuration can be written down with any blanks and comments between its tokens. The scanner
gets the tokens back, and the parser stores the entries in the order of the file.
-/

namespace Dynpm.Config

open Library Library.Lexer Library.Stdio

/-! ## One match of the scanner -/

/-- The rules for the five symbols. -/
def symbolRules : List (Rule Lexeme) :=
  [symbolRule 61 .equals, symbolRule 123 .left, symbolRule 125 .right, symbolRule 44 .comma,
    symbolRule 58 .colon]

theorem longest_symbolRules {b : UInt8} (text : List UInt8) (h : b ∉ [61, 123, 125, 44, 58]) :
    ∀ rule ∈ symbolRules, rule.longest (b :: text) = 0 := by
  simp only [List.mem_cons, List.not_mem_nil, or_false, not_or] at h
  simp [symbolRules, symbolRule, Rule.single, h]

theorem longest_run_of_head {p : UInt8 → Bool} {b : UInt8} (action : List UInt8 → Lexeme)
    (text : List UInt8) (h : p b = false) : (Rule.run p action).longest (b :: text) = 0 := by
  simp [Rule.run, h]

theorem longest_otherRule_le (text : List UInt8) : otherRule.longest text ≤ 1 := by
  cases text with
  | nil => exact Nat.zero_le _
  | cons b text =>
      simp only [otherRule, Rule.single]
      split <;> omega

theorem longest_commentRule_of_ne {b : UInt8} (text : List UInt8) (h : b ≠ 35) :
    commentRule.longest (b :: text) = 0 := by
  simp [commentRule, Rule.headed, h]

/-- The rules other than those for numbers and strings do not match a word. -/
theorem longest_of_isWord {b : UInt8} (text : List UInt8) (h : isWord b = true) :
    ∀ rule ∈ symbolRules ++ [blankRule, commentRule, otherRule], rule.longest (b :: text) ≤ 1 := by
  have hsymbol : b ∉ [61, 123, 125, 44, 58] := by
    intro hmem
    simp only [List.mem_cons, List.not_mem_nil, or_false] at hmem
    rcases hmem with rfl | rfl | rfl | rfl | rfl <;> exact absurd h (by decide)
  have hblank : isBlank b = false := by
    cases hb : isBlank b with
    | false => rfl
    | true =>
        have hcases : b = 32 ∨ b = 9 ∨ b = 10 := by simpa [isBlank, or_assoc] using hb
        rcases hcases with rfl | rfl | rfl <;> exact absurd h (by decide)
  have hcomment : b ≠ 35 := by
    rintro rfl
    exact absurd h (by decide)
  simp only [List.forall_mem_append, List.forall_mem_cons, List.not_mem_nil, false_implies,
    implies_true, and_true]
  refine ⟨fun rule hrule => ?_, ?_, ?_, longest_otherRule_le _⟩
  · rw [longest_symbolRules text hsymbol rule hrule]
    exact Nat.zero_le 1
  · rw [blankRule, longest_run_of_head _ _ hblank]
    exact Nat.zero_le 1
  · rw [longest_commentRule_of_ne text hcomment]
    exact Nat.zero_le 1

theorem select_blank {b : UInt8} (text : List UInt8) (h : isBlank b = true) :
    select flexRules (b :: text) = some blankRule := by
  have hb : isDigit b = false ∧ isWord b = false ∧ b ∉ [61, 123, 125, 44, 58] ∧ b ≠ 35 := by
    have hcases : b = 32 ∨ b = 9 ∨ b = 10 := by simpa [isBlank, or_assoc] using h
    rcases hcases with rfl | rfl | rfl <;> decide
  obtain ⟨hdigit, hword, hsymbol, hcomment⟩ := hb
  have hpos : 0 < blankRule.longest (b :: text) := by simp [blankRule, Rule.run, h]
  change select ([numberRule, stringRule] ++ symbolRules ++
    blankRule :: [commentRule, otherRule]) _ = _
  refine select_append hpos ?_ ?_
  · simp only [List.forall_mem_append, List.forall_mem_cons, List.not_mem_nil, false_implies,
      implies_true, and_true]
    refine ⟨⟨?_, ?_⟩, fun rule hrule => ?_⟩
    · rwa [numberRule, longest_run_of_head _ _ hdigit]
    · rwa [stringRule, longest_run_of_head _ _ hword]
    · rwa [longest_symbolRules text hsymbol rule hrule]
  · simp only [List.forall_mem_cons, List.not_mem_nil, false_implies, implies_true, and_true]
    refine ⟨?_, (longest_otherRule_le _).trans hpos⟩
    rw [longest_commentRule_of_ne text hcomment]
    exact Nat.zero_le _

theorem select_comment (text : List UInt8) : select flexRules (35 :: text) = some commentRule := by
  have hpos : 0 < commentRule.longest (35 :: text) := by
    simp only [commentRule, Rule.headed, beq_self_eq_true, if_true]
    omega
  change select ([numberRule, stringRule] ++ symbolRules ++ [blankRule] ++
    commentRule :: [otherRule]) _ = _
  refine select_append hpos ?_ ?_
  · simp only [List.forall_mem_append, List.forall_mem_cons, List.not_mem_nil, false_implies,
      implies_true, and_true]
    refine ⟨⟨⟨?_, ?_⟩, fun rule hrule => ?_⟩, ?_⟩
    · rwa [numberRule, longest_run_of_head _ _ (by decide)]
    · rwa [stringRule, longest_run_of_head _ _ (by decide)]
    · rwa [longest_symbolRules text (by decide) rule hrule]
    · rwa [blankRule, longest_run_of_head _ _ (by decide)]
  · simp only [List.forall_mem_cons, List.not_mem_nil, false_implies, implies_true, and_true]
    exact (longest_otherRule_le _).trans hpos

/-- What follows a word does not continue it. -/
def Stops (text : List UInt8) : Prop := ∀ b ∈ text.head?, isWord b = false

theorem isWord_of_isDigit {b : UInt8} (h : isDigit b = true) : isWord b = true := by
  simp [isWord, h]

theorem longest_stringRule {word rest : List UInt8} (hword : ∀ b ∈ word, isWord b = true)
    (hrest : Stops rest) : stringRule.longest (word ++ rest) = word.length := by
  simp only [stringRule, Rule.run]
  rw [(takeWhile_append_stop hword hrest).1]

theorem select_number {digits rest : List UInt8} (hne : digits ≠ [])
    (hdigits : ∀ b ∈ digits, isDigit b = true) (hrest : Stops rest) :
    select flexRules (digits ++ rest) = some numberRule ∧
      numberRule.longest (digits ++ rest) = digits.length := by
  have hwords : ∀ b ∈ digits, isWord b = true := fun b hb => isWord_of_isDigit (hdigits b hb)
  have hstop : ∀ b ∈ rest.head?, isDigit b = false := by
    intro b hb
    by_contra hdigit
    have := isWord_of_isDigit (by simpa using hdigit)
    simp [hrest b hb] at this
  have hlongest : numberRule.longest (digits ++ rest) = digits.length := by
    simp only [numberRule, Rule.run]
    rw [(takeWhile_append_stop hdigits hstop).1]
  have hpos := List.length_pos_of_ne_nil hne
  refine ⟨?_, hlongest⟩
  change select ([] ++ numberRule :: (stringRule :: (symbolRules ++
    [blankRule, commentRule, otherRule]))) _ = _
  refine select_append (by omega) (by simp) ?_
  rw [List.forall_mem_cons]
  refine ⟨?_, fun rule hrule => ?_⟩
  · rw [longest_stringRule hwords hrest, hlongest]
  · obtain ⟨b, digits, rfl⟩ := List.exists_cons_of_ne_nil hne
    have hle := longest_of_isWord (digits ++ rest) (hwords b List.mem_cons_self) rule hrule
    rw [← List.cons_append] at hle
    omega

theorem select_string {word rest : List UInt8} (hword : ∀ b ∈ word, isWord b = true)
    (hdigit : ∃ b ∈ word, isDigit b = false) (hrest : Stops rest) :
    select flexRules (word ++ rest) = some stringRule := by
  have hlongest := longest_stringRule hword hrest
  obtain ⟨c, hc, hnot⟩ := hdigit
  have hne : word ≠ [] := List.ne_nil_of_mem hc
  have hpos := List.length_pos_of_ne_nil hne
  change select ([numberRule] ++ stringRule :: (symbolRules ++
    [blankRule, commentRule, otherRule])) _ = _
  refine select_append (by omega) ?_ ?_
  · simp only [List.forall_mem_cons, List.not_mem_nil, false_implies, implies_true, and_true]
    -- the digits in front of the first other character are fewer than the word
    have hfewer : (word.takeWhile isDigit).length ≠ word.length := by
      intro hlen
      have hall := (List.takeWhile_prefix isDigit).eq_of_length hlen
      have hdigit := List.takeWhile_eq_self_iff.mp hall c hc
      simp [hnot] at hdigit
    have hle := (List.takeWhile_prefix (l := word) isDigit).length_le
    rw [hlongest]
    simp only [numberRule, Rule.run, List.takeWhile_append, if_neg hfewer]
    omega
  · intro rule hrule
    obtain ⟨b, word, rfl⟩ := List.exists_cons_of_ne_nil hne
    have hle := longest_of_isWord (word ++ rest) (hword b List.mem_cons_self) rule hrule
    rw [← List.cons_append] at hle
    omega

/-! ## Blanks and comments -/

theorem yylex_append {rule : Rule Lexeme} {lexeme rest : List UInt8}
    (hselect : select flexRules (lexeme ++ rest) = some rule)
    (hlongest : rule.longest (lexeme ++ rest) = lexeme.length) :
    yylex (lexeme ++ rest) = (rule.action lexeme).toList ++ yylex rest := by
  rw [yylex, Lexer.scan_append hselect hlongest, List.filterMap_cons, yylex]
  cases hresult : rule.action lexeme with
  | none => rfl
  | some result => rfl

/-- A run of blanks is one match, which returns nothing. -/
theorem yylex_dropWhile (text : List UInt8) : yylex text = yylex (text.dropWhile isBlank) := by
  cases text with
  | nil => rfl
  | cons b text =>
      cases hb : isBlank b with
      | false => rw [List.dropWhile_cons_of_neg (by simp [hb])]
      | true =>
          have hselect := select_blank text hb
          have hsplit := List.takeWhile_append_dropWhile (p := isBlank) (l := b :: text)
          have happend := @yylex_append blankRule ((b :: text).takeWhile isBlank)
            ((b :: text).dropWhile isBlank) (hsplit.symm ▸ hselect) (by rw [hsplit]; rfl)
          rw [hsplit] at happend
          rw [happend]
          rfl

theorem yylex_blank {b : UInt8} (text : List UInt8) (h : isBlank b = true) :
    yylex (b :: text) = yylex text := by
  rw [yylex_dropWhile (b :: text), List.dropWhile_cons_of_pos h, ← yylex_dropWhile]

/-- A comment extends to the end of its line. -/
theorem yylex_comment {body rest : List UInt8} (hbody : ∀ b ∈ body, b ≠ 10)
    (hrest : ∀ b ∈ rest.head?, b = 10) : yylex (35 :: body ++ rest) = yylex rest := by
  have htake : (body ++ rest).takeWhile (· != 10) = body :=
    (takeWhile_append_stop (by simpa using hbody) (by simpa using hrest)).1
  have hlongest : commentRule.longest (35 :: body ++ rest) = (35 :: body).length := by
    simp only [commentRule, Rule.headed, List.cons_append, beq_self_eq_true, if_true, htake,
      List.length_cons]
    omega
  have hselect : select flexRules (35 :: body ++ rest) = some commentRule := by
    rw [List.cons_append]
    exact select_comment (body ++ rest)
  rw [yylex_append hselect hlongest]
  rfl

/-- What may stand between two tokens. -/
inductive Separator : List UInt8 → Prop where
  | nil : Separator []
  | blank {b : UInt8} {text : List UInt8} : isBlank b = true → Separator text →
      Separator (b :: text)
  | comment {body text : List UInt8} : (∀ b ∈ body, b ≠ 10) → Separator text →
      Separator (35 :: body ++ 10 :: text)

theorem Separator.yylex_append {separator : List UInt8} (h : Separator separator)
    (text : List UInt8) : yylex (separator ++ text) = yylex text := by
  induction h with
  | nil => rfl
  | blank hb _ ih => rw [List.cons_append, yylex_blank _ hb, ih]
  | comment hbody _ ih =>
      rw [List.append_assoc, yylex_comment hbody (by simp), List.cons_append,
        yylex_blank _ (by decide), ih]

/-- What may stand behind the last token: the last line may be a comment that the file ends. -/
def Trailer (text : List UInt8) : Prop :=
  Separator text ∨
    ∃ separator body, Separator separator ∧ (∀ b ∈ body, b ≠ 10) ∧ text = separator ++ 35 :: body

theorem Trailer.yylex_eq {text : List UInt8} (h : Trailer text) : yylex text = [] := by
  rcases h with h | ⟨separator, body, hseparator, hbody, rfl⟩
  · have := h.yylex_append []
    rwa [List.append_nil] at this
  · rw [hseparator.yylex_append]
    have := @yylex_comment body [] hbody (by simp)
    rwa [List.append_nil] at this

/-! ## Renderings -/

/-- How a token is written. A number may have leading zeros; a string is not a number and fits
its buffer. -/
inductive Spelling : Token → List UInt8 → Prop where
  | number {digits : List UInt8} : digits ≠ [] → (∀ b ∈ digits, isDigit b = true) →
      digitsValue digits < 2 ^ 31 → Spelling (.number (Int32.ofNat (digitsValue digits))) digits
  | stringVal {word : List UInt8} : (∀ b ∈ word, isWord b = true) →
      (∃ b ∈ word, isDigit b = false) → word.length < configMaxStrLen →
      Spelling (.stringVal word) word
  | equals : Spelling .equals [61]
  | left : Spelling .left [123]
  | right : Spelling .right [125]
  | comma : Spelling .comma [44]
  | colon : Spelling .colon [58]

/-- A number or a string. -/
def Token.IsWord (t : Token) : Prop := t.kind = .number ∨ t.kind = .stringVal

instance (t : Token) : Decidable t.IsWord := instDecidableOr

/-- A text with the given tokens, with blanks and comments between them, so that no word is
directly followed by another one. -/
inductive Renders : List Token → List UInt8 → Prop where
  | done {text : List UInt8} : Trailer text → Renders [] text
  | token {t : Token} {tokens : List Token} {separator lexeme rest : List UInt8} :
      Separator separator → Spelling t lexeme → (t.IsWord → Stops rest) → Renders tokens rest →
      Renders (t :: tokens) (separator ++ (lexeme ++ rest))

theorem atoi_eq {digits : List UInt8} (h : digitsValue digits < 2 ^ 31) :
    atoi digits = Int32.ofNat (digitsValue digits) := by
  have hvalue : (UInt32.ofNat (digitsValue digits)).toNat = digitsValue digits :=
    UInt32.toNat_ofNat_of_lt' (by simp only [UInt32.size]; omega)
  have hstore : storeInt false (digitsValue digits) = UInt32.ofNat (digitsValue digits) := by
    conv_lhs => rw [← hvalue]
    exact storeInt_false
  rw [atoi, hstore, UInt32.toInt32_ofNat']

theorem yylex_spelling {t : Token} {lexeme rest : List UInt8} (h : Spelling t lexeme)
    (hstops : t.IsWord → Stops rest) : yylex (lexeme ++ rest) = .ok t :: yylex rest := by
  cases h with
  | number hne hdigits hvalue =>
      obtain ⟨hselect, hlongest⟩ := select_number hne hdigits (hstops (.inl rfl))
      rw [yylex_append hselect hlongest, numberRule]
      simp only [Rule.run, atoi_eq hvalue]
      rfl
  | stringVal hword hdigit hlength =>
      have hselect := select_string hword hdigit (hstops (.inr rfl))
      rw [yylex_append hselect (longest_stringRule hword (hstops (.inr rfl))), stringRule]
      simp only [Rule.run, if_pos hlength]
      rfl
  | equals => exact @yylex_append (symbolRule 61 .equals) [61] rest rfl rfl
  | left => exact @yylex_append (symbolRule 123 .left) [123] rest rfl rfl
  | right => exact @yylex_append (symbolRule 125 .right) [125] rest rfl rfl
  | comma => exact @yylex_append (symbolRule 44 .comma) [44] rest rfl rfl
  | colon => exact @yylex_append (symbolRule 58 .colon) [58] rest rfl rfl

/-- The scanner returns the tokens of every rendering. -/
theorem Renders.yylex_eq {tokens : List Token} {text : List UInt8} (h : Renders tokens text) :
    yylex text = tokens.map .ok := by
  induction h with
  | done htrailer => exact htrailer.yylex_eq
  | token hseparator hspelling hstops _ ih =>
      rw [hseparator.yylex_append, yylex_spelling hspelling hstops, ih]
      rfl

theorem Renders.spelled {tokens : List Token} {text : List UInt8} (h : Renders tokens text) :
    ∀ t ∈ tokens, ∃ lexeme, Spelling t lexeme := by
  induction h with
  | done => simp
  | token _ hspelling _ _ ih =>
      rw [List.forall_mem_cons]
      exact ⟨⟨_, hspelling⟩, ih⟩

/-- A string that can be written down has no NUL. -/
theorem Spelling.cstring_eq {word lexeme : List UInt8} (h : Spelling (.stringVal word) lexeme) :
    cstring word = word := by
  cases h with
  | stringVal hword _ _ =>
      apply cstring_eq_self
      rintro b hb rfl
      exact absurd (hword 0 hb) (by decide)

/-! ## The tables of a rendered configuration -/

/-- The statements of the given process and plugin entries, merged in any order. -/
structure Merges (processes : List ProcessConfEntry) (plugins : List PluginConfEntry)
    (entries : List Statement) : Prop where
  no_size : ∀ statement ∈ entries, statement.size? = none
  processes_eq : processesOf entries = processes
  plugins_eq : pluginsOf entries = plugins

/-- The size statement of a configuration, with any two names in it. -/
def sizeStatement (processesName : List UInt8) (processes : ℕ) (pluginsName : List UInt8)
    (plugins : ℕ) : Statement :=
  .configurationSize processesName (Int32.ofNat processes) pluginsName (Int32.ofNat plugins)

theorem sized_entries {entries : List Statement}
    (h : ∀ statement ∈ entries, statement.size? = none) : sized entries = none := by
  induction entries with
  | nil => rfl
  | cons statement entries ih =>
      rw [List.forall_mem_cons] at h
      simp [sized, ih h.2, h.1]

theorem sized_size_cons {entries : List Statement}
    (h : ∀ statement ∈ entries, statement.size? = none) (processesName pluginsName : List UInt8)
    (processes plugins : Int32) :
    sized (.configurationSize processesName processes pluginsName plugins :: entries) =
      some ⟨[], processes, plugins, entries⟩ := by
  rw [sized, sized_entries h]
  rfl

/-- With the declared sizes all entries fit. -/
theorem Merges.storesFit {processes : List ProcessConfEntry} {plugins : List PluginConfEntry}
    {entries : List Statement} (h : Merges processes plugins entries)
    (hprocesses : processes.length < 2 ^ 31) (hplugins : plugins.length < 2 ^ 31)
    (processesName pluginsName : List UInt8) :
    StoresFit (sizeStatement processesName processes.length pluginsName plugins.length ::
      entries) := by
  have hP := Int32.toInt_ofNat_of_lt hprocesses
  have hQ := Int32.toInt_ofNat_of_lt hplugins
  refine fitsAfter_cons.mpr ⟨trivial, ?_⟩
  intro front statement back heq
  have hfront : ∀ statement ∈ front, statement.size? = none := by
    intro statement hmem
    exact h.no_size statement (by simp [heq, hmem])
  have hcut := sized_size_cons hfront processesName pluginsName (Int32.ofNat processes.length)
    (Int32.ofNat plugins.length)
  have hp := congrArg List.length h.processes_eq
  have hq := congrArg List.length h.plugins_eq
  rw [heq, List.append_cons, processesOf_append, processesOf_append] at hp
  rw [heq, List.append_cons, pluginsOf_append, pluginsOf_append] at hq
  simp only [List.length_append] at hp hq
  cases statement with
  | configuration entry =>
      refine ⟨_, hcut, ?_⟩
      change ((processesOf front).length : ℤ) < (Int32.ofNat processes.length).toInt
      rw [hP]
      simp only [processesOf_configuration, List.length_singleton] at hp
      omega
  | wrapping entry =>
      refine ⟨_, hcut, ?_⟩
      change ((pluginsOf front).length : ℤ) < (Int32.ofNat plugins.length).toInt
      rw [hQ]
      simp only [pluginsOf_wrapping, List.length_singleton] at hq
      omega
  | configurationSize => trivial

/-- The configuration with exactly the given entries. -/
def confOf (processes : List ProcessConfEntry) (plugins : List PluginConfEntry) : Conf where
  processes := Int32.ofNat processes.length
  processEntries := processes.map some
  plugins := Int32.ofNat plugins.length
  pluginEntries := plugins.map some

theorem yyparse_merged {processes : List ProcessConfEntry} {plugins : List PluginConfEntry}
    {entries : List Statement} (h : Merges processes plugins entries)
    (hprocesses : processes.length < 2 ^ 31) (hplugins : plugins.length < 2 ^ 31)
    {processesName pluginsName text : List UInt8}
    (hrenders : Renders ((sizeStatement processesName processes.length pluginsName
      plugins.length :: entries).flatMap Statement.tokens) text) :
    ∃ s, yyparse State.start (yylex text) = .ok (0, s) ∧
      s.configuration = some (confOf processes plugins) := by
  have hP := Int32.toInt_ofNat_of_lt hprocesses
  have hQ := Int32.toInt_ofNat_of_lt hplugins
  obtain ⟨t, ht, hreflects⟩ := (reflects_start.run _).1
    (h.storesFit hprocesses hplugins processesName pluginsName)
  refine ⟨t, ?_, ?_⟩
  · rw [hrenders.yylex_eq, yyparse_statements, ht]
    rfl
  · rw [hreflects.configuration, List.nil_append, sizeStatement, sized_size_cons h.no_size]
    simp only [Option.map_some, Sized.conf, confOf, h.processes_eq, h.plugins_eq, hP, hQ,
      Int.toNat_natCast]
    change some (Conf.mk _ (filled 0 _ _) _ (filled 0 _ _)) = _
    rw [filled_all, filled_all]

/-- A lookup in a table all of whose entries are filled. -/
theorem lookup_filled {α : Type} (key : α → List UInt8) {entries : List α}
    (hlength : entries.length < 2 ^ 31) (hkey : ∀ entry ∈ entries, cstring (key entry) = key entry)
    (malloc : ℕ → α) (name : List UInt8) :
    lookup key (Int32.ofNat entries.length) (entries.map some) malloc name =
      (if ∃ entry ∈ entries, key entry = cstring name then 0 else -1,
        entries.find? fun entry => key entry = cstring name) := by
  have hcount := Int32.toInt_ofNat_of_lt hlength
  have htable : ((entries.map some).take entries.length).mapIdx
      (fun i entry => entry.getD (malloc i)) = entries := by
    rw [List.take_of_length_le (by simp)]
    apply List.ext_getElem?
    intro i
    rw [List.getElem?_mapIdx, List.getElem?_map]
    cases entries[i]? <;> rfl
  have hfind : (entries.find? fun entry => decide (cstring (key entry) = cstring name)) =
      entries.find? fun entry => decide (key entry = cstring name) :=
    List.find?_congr fun entry hentry => by rw [hkey entry hentry]
  simp only [lookup, hcount, Int.toNat_natCast, htable, hfind]
  cases hresult : entries.find? fun entry => decide (key entry = cstring name) with
  | none =>
      have hnone : ¬ ∃ entry ∈ entries, key entry = cstring name := by
        simpa using List.find?_eq_none.mp hresult
      rw [if_neg hnone]
  | some entry =>
      have hmem := List.mem_of_find?_eq_some hresult
      have hmatch := List.find?_some hresult
      rw [if_pos ⟨entry, hmem, by simpa using hmatch⟩]

/-- Parsing any rendering of a size statement that declares the numbers of the entries, followed
by the entries in any order of the two kinds, accepts the text and fills the tables with exactly
these entries in the order of the file. The lookups then find the first entry with a given key,
and they fail exactly when there is none. -/
theorem rendered_configuration_recovered {processes : List ProcessConfEntry}
    {plugins : List PluginConfEntry} {entries : List Statement}
    (hmerges : Merges processes plugins entries) (hprocesses : processes.length < 2 ^ 31)
    (hplugins : plugins.length < 2 ^ 31) {processesName pluginsName text : List UInt8}
    (hrenders : Renders ((sizeStatement processesName processes.length pluginsName
      plugins.length :: entries).flatMap Statement.tokens) text) :
    ∃ s conf, yyparse State.start (yylex text) = .ok (0, s) ∧ s.configuration = some conf ∧
      conf = confOf processes plugins ∧
      (∀ malloc name, dynpmConfGetProcessConfig conf malloc name =
        (if ∃ entry ∈ processes, entry.name = cstring name then 0 else -1,
          processes.find? fun entry => entry.name = cstring name)) ∧
      ∀ malloc name, dynpmConfGetPluginConfig conf malloc name =
        (if ∃ entry ∈ plugins, entry.pluginType = cstring name then 0 else -1,
          plugins.find? fun entry => entry.pluginType = cstring name) := by
  obtain ⟨s, hparse, hconf⟩ := yyparse_merged hmerges hprocesses hplugins hrenders
  have hspelled : ∀ statement ∈ entries, ∀ t ∈ statement.tokens, ∃ lexeme, Spelling t lexeme := by
    intro statement hstatement t ht
    apply hrenders.spelled
    rw [List.mem_flatMap]
    exact ⟨statement, List.mem_cons_of_mem _ hstatement, ht⟩
  refine ⟨s, _, hparse, hconf, rfl, ?_, ?_⟩
  · apply lookup_filled _ hprocesses
    intro entry hentry
    rw [← hmerges.processes_eq, processesOf, List.mem_filterMap] at hentry
    obtain ⟨statement, hstatement, heq⟩ := hentry
    cases statement with
    | configuration e =>
        obtain rfl := Option.some.inj heq
        obtain ⟨lexeme, hlexeme⟩ :=
          hspelled _ hstatement (.stringVal e.name) (by simp [Statement.tokens])
        exact hlexeme.cstring_eq
    | wrapping e => cases heq
    | configurationSize => cases heq
  · apply lookup_filled _ hplugins
    intro entry hentry
    rw [← hmerges.plugins_eq, pluginsOf, List.mem_filterMap] at hentry
    obtain ⟨statement, hstatement, heq⟩ := hentry
    cases statement with
    | configuration e => cases heq
    | wrapping e =>
        obtain rfl := Option.some.inj heq
        obtain ⟨lexeme, hlexeme⟩ :=
          hspelled _ hstatement (.stringVal e.pluginType) (by simp [Statement.tokens])
        exact hlexeme.cstring_eq
    | configurationSize => cases heq

/-! ## Statements without blanks -/

theorem stops_cons {b : UInt8} (text : List UInt8) (h : isWord b = false) : Stops (b :: text) := by
  intro c hc
  obtain rfl := Option.some.inj hc
  exact h

section

variable {tokens : List Token} {separator rest : List UInt8}

theorem Renders.symbol {t : Token} {lexeme : List UInt8} (hspelling : Spelling t lexeme)
    (h : ¬t.IsWord) (hrest : Renders tokens rest) : Renders (t :: tokens) (lexeme ++ rest) :=
  Renders.token .nil hspelling (fun hword => absurd hword h) hrest

/-- A word in front of a symbol. -/
theorem Renders.word {t : Token} {lexeme : List UInt8} {b : UInt8} (hspelling : Spelling t lexeme)
    (hb : isWord b = false) (hrest : Renders tokens (b :: rest)) :
    Renders (t :: tokens) (lexeme ++ b :: rest) :=
  Renders.token .nil hspelling (fun _ => stops_cons rest hb) hrest

theorem Renders.wrapping (entry : PluginConfEntry) {pluginType pluginName : List UInt8}
    (hseparator : Separator separator) (htype : Spelling (.stringVal entry.pluginType) pluginType)
    (hname : Spelling (.stringVal entry.pluginName) pluginName) (hstops : Stops rest)
    (h : Renders tokens rest) :
    Renders ((Statement.wrapping entry).tokens ++ tokens)
      (separator ++ (pluginType ++ 58 :: (pluginName ++ rest))) := by
  have hend := Renders.token .nil hname (fun _ => hstops) h
  exact Renders.token hseparator htype (fun _ => stops_cons _ rfl)
    (Renders.symbol .colon (by decide) hend)

theorem Renders.configuration (entry : ProcessConfEntry) {name port threads host : List UInt8}
    (hseparator : Separator separator) (hname : Spelling (.stringVal entry.name) name)
    (hport : Spelling (.number entry.port) port)
    (hthreads : Spelling (.number entry.threads) threads)
    (hhost : Spelling (.stringVal entry.host) host) (h : Renders tokens rest) :
    Renders ((Statement.configuration entry).tokens ++ tokens)
      (separator ++ (name ++ 61 :: 123 :: (port ++ 44 :: (threads ++ 44 :: (host ++
        125 :: rest))))) := by
  have hlast := Renders.word hhost rfl (Renders.symbol .right (by decide) h)
  have hsecond := Renders.word hthreads rfl (Renders.symbol .comma (by decide) hlast)
  have hfirst := Renders.word hport rfl (Renders.symbol .comma (by decide) hsecond)
  exact Renders.token hseparator hname (fun _ => stops_cons _ rfl)
    (Renders.symbol .equals (by decide) (Renders.symbol .left (by decide) hfirst))

theorem Renders.size {processesName pluginsName processesWord pluginsWord processesDigits
      pluginsDigits : List UInt8} {processes plugins : Int32}
    (hseparator : Separator separator)
    (hprocessesName : Spelling (.stringVal processesName) processesWord)
    (hprocesses : Spelling (.number processes) processesDigits)
    (hpluginsName : Spelling (.stringVal pluginsName) pluginsWord)
    (hplugins : Spelling (.number plugins) pluginsDigits) (h : Renders tokens rest) :
    Renders ((Statement.configurationSize processesName processes pluginsName plugins).tokens ++
        tokens)
      (separator ++ 123 :: (processesWord ++ 61 :: (processesDigits ++ 44 :: (pluginsWord ++
        61 :: (pluginsDigits ++ 125 :: rest))))) := by
  have hlast := Renders.word hplugins rfl (Renders.symbol .right (by decide) h)
  have hthird := Renders.word hpluginsName rfl (Renders.symbol .equals (by decide) hlast)
  have hsecond := Renders.word hprocesses rfl (Renders.symbol .comma (by decide) hthird)
  have hfirst := Renders.word hprocessesName rfl (Renders.symbol .equals (by decide) hsecond)
  exact Renders.token hseparator .left (fun hword => absurd hword (by decide)) hfirst

end

/-! ## A file with two processes and two plugins -/

def sampleProcesses : List ProcessConfEntry := [⟨[112], 1, 2, [104]⟩, ⟨[113], 3, 4, [104]⟩]

def samplePlugins : List PluginConfEntry := [⟨[99], [100]⟩, ⟨[101], [102]⟩]

/-- The plugins `c` and `e` in front of the processes `p` and `q`, in turn. -/
def sampleEntries : List Statement :=
  [.wrapping ⟨[99], [100]⟩, .configuration ⟨[112], 1, 2, [104]⟩, .wrapping ⟨[101], [102]⟩,
    .configuration ⟨[113], 3, 4, [104]⟩]

/-- `{a=2,b=2}` with a comment, `c:d`, `p={1,2,h}`, `e:f` and `q={3,04,h}`, on a line each. -/
def sampleConf : List UInt8 :=
  [123, 97, 61, 50, 44, 98, 61, 50, 125] ++ [35, 120, 10, 99, 58, 100] ++
    [10, 112, 61, 123, 49, 44, 50, 44, 104, 125] ++ [10, 101, 58, 102] ++
    [10, 113, 61, 123, 51, 44, 48, 52, 44, 104, 125]

theorem spelling_letter {b : UInt8} (h : isWord b = true) (hdigit : isDigit b = false) :
    Spelling (.stringVal [b]) [b] :=
  .stringVal (by simpa using h) ⟨b, by simp, hdigit⟩ (by simp [configMaxStrLen])

theorem spelling_digit {b : UInt8} (h : isDigit b = true) (hvalue : digitsValue [b] < 2 ^ 31) :
    Spelling (.number (Int32.ofNat (digitsValue [b]))) [b] :=
  .number (by simp) (by simpa using h) hvalue

theorem sampleConf_renders :
    Renders ((sizeStatement [97] 2 [98] 2 :: sampleEntries).flatMap Statement.tokens)
      sampleConf := by
  have hcomment : Separator [35, 120, 10] := @Separator.comment [120] [] (by simp) .nil
  have hline : Separator [10] := .blank rfl .nil
  have hzeroFour : Spelling (.number 4) [48, 52] :=
    @Spelling.number [48, 52] (by simp) (by simp [isDigit]) (by decide)
  have hfourth := Renders.configuration ⟨[113], 3, 4, [104]⟩ hline (spelling_letter rfl rfl)
    (spelling_digit (b := 51) rfl (by decide)) hzeroFour (spelling_letter rfl rfl)
    (.done (.inl .nil))
  have hthird := Renders.wrapping ⟨[101], [102]⟩ hline (spelling_letter rfl rfl)
    (spelling_letter rfl rfl) (stops_cons _ rfl) hfourth
  have hsecond := Renders.configuration ⟨[112], 1, 2, [104]⟩ hline (spelling_letter rfl rfl)
    (spelling_digit (b := 49) rfl (by decide)) (spelling_digit (b := 50) rfl (by decide))
    (spelling_letter rfl rfl) hthird
  have hfirst := Renders.wrapping ⟨[99], [100]⟩ hcomment (spelling_letter rfl rfl)
    (spelling_letter rfl rfl) (stops_cons _ rfl) hsecond
  exact Renders.size .nil (spelling_letter rfl rfl) (spelling_digit (b := 50) rfl (by decide))
    (spelling_letter rfl rfl) (spelling_digit (b := 50) rfl (by decide)) hfirst

theorem sampleConf_recovered :
    ∃ s conf, yyparse State.start (yylex sampleConf) = .ok (0, s) ∧
      s.configuration = some conf ∧ conf = confOf sampleProcesses samplePlugins ∧
      dynpmConfGetProcessConfig conf (fun _ => ⟨[], 0, 0, []⟩) [113] =
        (0, some ⟨[113], 3, 4, [104]⟩) ∧
      dynpmConfGetProcessConfig conf (fun _ => ⟨[], 0, 0, []⟩) [99] = (-1, none) ∧
      dynpmConfGetPluginConfig conf (fun _ => ⟨[], []⟩) [101] = (0, some ⟨[101], [102]⟩) ∧
      dynpmConfGetPluginConfig conf (fun _ => ⟨[], []⟩) [113] = (-1, none) := by
  have hmerges : Merges sampleProcesses samplePlugins sampleEntries :=
    ⟨by simp [sampleEntries, Statement.size?], rfl, rfl⟩
  obtain ⟨s, conf, hparse, hconf, heq, hprocess, hplugin⟩ :=
    rendered_configuration_recovered hmerges (by decide) (by decide) sampleConf_renders
  refine ⟨s, conf, hparse, hconf, heq, ?_, ?_, ?_, ?_⟩
  · rw [hprocess]
    decide +kernel
  · rw [hprocess]
    decide +kernel
  · rw [hplugin]
    decide +kernel
  · rw [hplugin]
    decide +kernel

end Dynpm.Config
