import Dynpm.Library.Stdio
import Mathlib.Data.List.DropRight

/-! # Splitting a string in place

`strtok` of the C library on a region of memory, with its saved cursor as an explicit position.
-/

namespace Library

/-- What one call of `strtok` returns and saves. `overwritten` is the position of the delimiter
that the call replaces by a NUL. -/
structure Strtok where
  token : Option (List UInt8)
  overwritten : Option ℕ
  cursor : ℕ
  deriving DecidableEq, Repr

/-- `strtok` from the saved cursor. The search for the end of the token must stop inside the
memory. -/
def strtok (delimiters : List UInt8) (memory : List UInt8) (cursor : ℕ) : Except Fault Strtok :=
  let rest := memory.drop cursor
  let start := cursor + (rest.takeWhile (· ∈ delimiters)).length
  let token := (rest.dropWhile (· ∈ delimiters)).takeWhile fun b => b ≠ 0 && b ∉ delimiters
  let stop := start + token.length
  match memory[stop]? with
  | none => .error .outOfBounds
  | some next =>
      if token = [] then .ok ⟨none, none, start⟩
      else if next = 0 then .ok ⟨some token, none, stop⟩
      else .ok ⟨some token, some stop, stop + 1⟩

/-! ## All tokens of a string -/

open Stdio

/-- The tokens that successive calls of `strtok` find in a text. -/
def tokens (delimiters text : List UInt8) : List (List UInt8) :=
  (text.splitOnP (· ∈ delimiters)).filter (· ≠ [])

section

variable {delimiters : List UInt8}

theorem tokens_nil : tokens delimiters [] = [] := by
  simp [tokens]

theorem tokens_delimiters_append {lead : List UInt8} (h : ∀ b ∈ lead, b ∈ delimiters)
    (text : List UInt8) : tokens delimiters (lead ++ text) = tokens delimiters text := by
  induction lead with
  | nil => rfl
  | cons b lead ih =>
      have hb := h b List.mem_cons_self
      rw [← ih fun b' hb' => h b' (List.mem_cons_of_mem _ hb')]
      simp [tokens, List.splitOnP_cons_eq_if_modifyHead, hb]

theorem tokens_single {token : List UInt8} (hne : token ≠ [])
    (hfree : ∀ b ∈ token, b ∉ delimiters) : tokens delimiters token = [token] := by
  rw [tokens, List.splitOnP_eq_singleton (by simpa using hfree)]
  simp [hne]

theorem tokens_token_append {token : List UInt8} (hne : token ≠ [])
    (hfree : ∀ b ∈ token, b ∉ delimiters) {delimiter : UInt8} (hdelimiter : delimiter ∈ delimiters)
    (rest : List UInt8) :
    tokens delimiters (token ++ delimiter :: rest) = token :: tokens delimiters rest := by
  rw [tokens, List.splitOnP_append_cons_of_forall_mem (by simpa using hfree) delimiter
    (by simpa using hdelimiter)]
  simp [tokens, hne]

/-- The tokens that end inside the memory: those of its string, or without a NUL those in front of
the last delimiter. -/
def tokensIn (delimiters memory : List UInt8) : List (List UInt8) :=
  tokens delimiters
    (if 0 ∈ memory then cstring memory else memory.rdropWhile (· ∉ delimiters))

theorem tokensIn_of_nul {memory : List UInt8} (h : 0 ∈ memory) :
    tokensIn delimiters memory = tokens delimiters (cstring memory) := by
  rw [tokensIn, if_pos h]

/-- Memory is delimiters, the next token and what stands behind it: nothing, a NUL, or the delimiter
that ends the token. -/
theorem exists_token (delimiters rest : List UInt8) :
    ∃ lead token tail, rest = lead ++ (token ++ tail) ∧
      (∀ b ∈ lead, b ∈ delimiters) ∧ (∀ b ∈ token, b ≠ 0 ∧ b ∉ delimiters) ∧
      ∀ b ∈ tail.head?, b = 0 ∨ b ∈ delimiters ∧ token ≠ [] := by
  refine ⟨rest.takeWhile (· ∈ delimiters),
    (rest.dropWhile (· ∈ delimiters)).takeWhile fun b => b ≠ 0 && b ∉ delimiters,
    (rest.dropWhile (· ∈ delimiters)).dropWhile fun b => b ≠ 0 && b ∉ delimiters, ?_, ?_, ?_, ?_⟩
  · rw [List.takeWhile_append_dropWhile, List.takeWhile_append_dropWhile]
  · intro b hb
    simpa using List.mem_takeWhile_imp hb
  · intro b hb
    simpa using List.mem_takeWhile_imp hb
  · intro b hb
    have hstop := List.head?_dropWhile_not (fun b => b ≠ 0 && b ∉ delimiters)
      (rest.dropWhile (· ∈ delimiters))
    rw [Option.mem_def.mp hb] at hstop
    by_cases hzero : b = 0
    · exact Or.inl hzero
    · have hmem : b ∈ delimiters := by simpa [hzero] using hstop
      refine Or.inr ⟨hmem, ?_⟩
      intro hnil
      -- without a token the delimiter would have been skipped
      have hrest : (rest.dropWhile (· ∈ delimiters)).dropWhile
          (fun b => b ≠ 0 && b ∉ delimiters) = rest.dropWhile (· ∈ delimiters) := by
        have happend := List.takeWhile_append_dropWhile
          (p := fun b => b ≠ 0 && b ∉ delimiters) (l := rest.dropWhile (· ∈ delimiters))
        rwa [hnil, List.nil_append] at happend
      rw [hrest] at hb
      have hskip := List.head?_dropWhile_not (· ∈ delimiters) rest
      rw [Option.mem_def.mp hb] at hskip
      simp [hmem] at hskip

theorem rdropWhile_append_cons {p : UInt8 → Bool} {next : UInt8} (hnext : p next = false)
    (xs more : List UInt8) :
    (xs ++ next :: more).rdropWhile p = xs ++ next :: more.rdropWhile p := by
  have hreverse : (xs ++ next :: more).reverse = more.reverse ++ next :: xs.reverse := by simp
  rw [List.rdropWhile, hreverse, List.dropWhile_append]
  split
  · next hnil =>
      have hnil' : more.rdropWhile p = [] := by
        rw [List.rdropWhile, List.isEmpty_iff.mp hnil, List.reverse_nil]
      rw [hnil', List.dropWhile_cons_of_neg (by simp [hnext])]
      simp
  · simp [List.rdropWhile]

section

variable {front lead token tail more : List UInt8} {next : UInt8}
  (hdelimiters : 0 ∉ delimiters) (hlead : ∀ b ∈ lead, b ∈ delimiters)
  (htoken : ∀ b ∈ token, b ≠ 0 ∧ b ∉ delimiters)

include hdelimiters hlead htoken

/-- `strtok` on memory that is taken apart in this way. -/
theorem strtok_split (htail : ∀ b ∈ tail.head?, b = 0 ∨ b ∈ delimiters ∧ token ≠ []) :
    strtok delimiters (front ++ (lead ++ (token ++ tail))) front.length =
      match tail.head? with
      | none => .error .outOfBounds
      | some next =>
          if token = [] then .ok ⟨none, none, front.length + lead.length⟩
          else if next = 0 then
            .ok ⟨some token, none, front.length + lead.length + token.length⟩
          else .ok ⟨some token, some (front.length + lead.length + token.length),
            front.length + lead.length + token.length + 1⟩ := by
  have hdrop : (front ++ (lead ++ (token ++ tail))).drop front.length =
      lead ++ (token ++ tail) := List.drop_left
  have hskip := @takeWhile_append_stop (· ∈ delimiters) lead (token ++ tail)
    (by simpa using hlead) (by
      intro b hb
      cases token with
      | nil =>
          rcases htail b (by simpa using hb) with rfl | ⟨_, hne⟩
          · simpa using hdelimiters
          · exact absurd rfl hne
      | cons b' token =>
          obtain rfl : b' = b := by simpa using hb
          simpa using (htoken b' List.mem_cons_self).2)
  have htake := @takeWhile_append_stop (fun b => b ≠ 0 && b ∉ delimiters) token tail
    (by simpa using htoken) (by
      intro b hb
      rcases htail b hb with rfl | ⟨hmem, _⟩
      · simp
      · simp [hmem])
  have hget : (front ++ (lead ++ (token ++ tail)))[
      front.length + lead.length + token.length]? = tail.head? := by
    rw [List.getElem?_append_right (by omega), List.getElem?_append_right (by omega),
      List.getElem?_append_right (by omega), List.head?_eq_getElem?]
    congr 1
    omega
  simp only [strtok, hdrop, hskip.1, hskip.2, htake.1, hget]

theorem lead_token_ne_zero : ∀ b ∈ lead ++ token, b ≠ 0 := by
  intro b hb
  rcases List.mem_append.mp hb with hb | hb
  · rintro rfl
    exact hdelimiters (hlead 0 hb)
  · exact (htoken b hb).1

/-- A token without an end is not inside the memory. -/
theorem tokensIn_unterminated : tokensIn delimiters (lead ++ token) = [] := by
  have hne := lead_token_ne_zero hdelimiters hlead htoken
  have hnul : 0 ∉ lead ++ token := fun h => hne 0 h rfl
  have hfree : (lead ++ token).rdropWhile (· ∉ delimiters) = lead.rdropWhile (· ∉ delimiters) := by
    rw [List.rdropWhile, List.reverse_append,
      List.dropWhile_append_of_pos (by simpa using fun b hb => (htoken b hb).2)]
    rfl
  have hlead' : ∀ b ∈ lead.rdropWhile (· ∉ delimiters), b ∈ delimiters := by
    intro b hb
    exact hlead b ((List.rdropWhile_prefix _ _).mem hb)
  rw [tokensIn, if_neg hnul, hfree, ← List.append_nil (lead.rdropWhile _),
    tokens_delimiters_append hlead', tokens_nil]

theorem tokensIn_nul : tokensIn delimiters (lead ++ (token ++ 0 :: more)) =
    if token = [] then [] else [token] := by
  have hne := lead_token_ne_zero hdelimiters hlead htoken
  have htext : cstring (lead ++ (token ++ 0 :: more)) = lead ++ token := by
    rw [← List.append_assoc, cstring_of_forall_ne hne]
  rw [tokensIn_of_nul (by simp), htext, tokens_delimiters_append hlead]
  split
  · next hnil => rw [hnil, tokens_nil]
  · next hnil => exact tokens_single hnil fun b hb => (htoken b hb).2

theorem tokensIn_delimiter (hnext : next ∈ delimiters) (hne : token ≠ []) :
    tokensIn delimiters (lead ++ (token ++ next :: more)) =
      token :: tokensIn delimiters more := by
  have hzero : next ≠ 0 := by
    rintro rfl
    exact hdelimiters hnext
  have hne' := lead_token_ne_zero hdelimiters hlead htoken
  have htext : (if 0 ∈ lead ++ (token ++ next :: more) then
        cstring (lead ++ (token ++ next :: more))
      else (lead ++ (token ++ next :: more)).rdropWhile (· ∉ delimiters)) =
      lead ++ (token ++ next :: (if 0 ∈ more then cstring more
        else more.rdropWhile (· ∉ delimiters))) := by
    have hmem : 0 ∈ lead ++ (token ++ next :: more) ↔ 0 ∈ more := by
      rw [← List.append_assoc, List.mem_append, List.mem_cons]
      constructor
      · rintro (h | h | h)
        · exact absurd rfl (hne' 0 h)
        · exact absurd h.symm hzero
        · exact h
      · exact fun h => Or.inr (Or.inr h)
    by_cases hmore : 0 ∈ more
    · rw [if_pos (hmem.mpr hmore), if_pos hmore, cstring, ← List.append_assoc,
        List.takeWhile_append_of_pos (by simpa using hne')]
      simp [cstring, hzero]
    · rw [if_neg (fun h => hmore (hmem.mp h)), if_neg hmore, ← List.append_assoc,
        ← List.append_assoc, rdropWhile_append_cons (by simpa using hnext)]
  rw [tokensIn, htext, tokens_delimiters_append hlead,
    tokens_token_append hne (fun b hb => (htoken b hb).2) hnext]
  rfl

end

/-- The next token is the text up to the next delimiter. -/
theorem strtok_line (front : List UInt8) {line rest : List UInt8} {delimiter : UInt8}
    (hdelimiters : 0 ∉ delimiters) (hline : line ≠ [])
    (hfree : ∀ b ∈ line, b ≠ 0 ∧ b ∉ delimiters) (hdelimiter : delimiter ∈ delimiters) :
    strtok delimiters (front ++ line ++ delimiter :: rest) front.length =
      .ok ⟨some line, some (front.length + line.length), front.length + line.length + 1⟩ := by
  have hzero : delimiter ≠ 0 := by
    rintro rfl
    exact hdelimiters hdelimiter
  have hlead : ∀ b ∈ ([] : List UInt8), b ∈ delimiters := by simp
  have hsplit := @strtok_split _ front [] line (delimiter :: rest) hdelimiters hlead hfree
    (by simp [hdelimiter, hline])
  simpa [hline, hzero] using hsplit

/-- A string that begins with a token and has a delimiter in it is cut there. -/
theorem strtok_cut {text rest : List UInt8} (hdelimiters : 0 ∉ delimiters)
    (hzero : ∀ b ∈ text, b ≠ 0) (hhead : ∀ b ∈ text.head?, b ∉ delimiters)
    (hdelimiter : ∃ b ∈ text, b ∈ delimiters) :
    ∃ result position, strtok delimiters (text ++ 0 :: rest) 0 = .ok result ∧
      result.overwritten = some position ∧ position < text.length := by
  have hsplit := @List.takeWhile_append_dropWhile _ (fun b => b ∉ delimiters) text
  have hstop := List.head?_dropWhile_not (fun b => b ∉ delimiters) text
  have hfree : ∀ b ∈ text.takeWhile (· ∉ delimiters), b ≠ 0 ∧ b ∉ delimiters := by
    intro b hb
    exact ⟨hzero b ((List.takeWhile_prefix _).mem hb), by simpa using List.mem_takeWhile_imp hb⟩
  cases hmore : text.dropWhile (· ∉ delimiters) with
  | nil =>
      obtain ⟨b, hb, hmem⟩ := hdelimiter
      rw [hmore, List.append_nil] at hsplit
      rw [← hsplit] at hb
      exact absurd hmem (hfree b hb).2
  | cons next more =>
      rw [hmore, List.head?_cons] at hstop
      have hnext : next ∈ delimiters := by simpa using hstop
      have hne : text.takeWhile (· ∉ delimiters) ≠ [] := by
        intro hnil
        rw [hnil, List.nil_append, hmore] at hsplit
        exact hhead next (by rw [← hsplit]; rfl) hnext
      have hline := @strtok_line delimiters [] (text.takeWhile (· ∉ delimiters)) (more ++ 0 :: rest)
        next hdelimiters hne hfree hnext
      rw [List.nil_append, ← List.cons_append, ← List.append_assoc, ← hmore, hsplit] at hline
      refine ⟨_, _, hline, rfl, ?_⟩
      have hlength := congrArg List.length hsplit
      rw [hmore, List.length_append, List.length_cons] at hlength
      simp only [List.length_nil]
      omega

/-- No token is left at the end of the string. -/
theorem strtok_end {front rest : List UInt8} (hdelimiters : 0 ∉ delimiters) :
    strtok delimiters (front ++ 0 :: rest) front.length = .ok ⟨none, none, front.length⟩ := by
  have hnone : ∀ b ∈ ([] : List UInt8), b ∈ delimiters := by simp
  have htoken : ∀ b ∈ ([] : List UInt8), b ≠ 0 ∧ b ∉ delimiters := by simp
  have hsplit := @strtok_split _ front [] [] (0 :: rest) hdelimiters hnone htoken (by simp)
  simpa using hsplit

/-- The memory after the call. -/
def Strtok.left (result : Strtok) (memory : List UInt8) : List UInt8 :=
  match result.overwritten with
  | none => memory
  | some position => memory.set position 0

/-- A call that has returned the first token inside the memory behind its cursor and leaves the
others. -/
structure Strtok.Advances (delimiters memory : List UInt8) (cursor : ℕ) (result : Strtok) :
    Prop where
  cursor_le : result.cursor ≤ memory.length
  token_eq : result.token = (tokensIn delimiters (memory.drop cursor)).head?
  nul_mem : 0 ∈ memory.drop cursor → 0 ∈ (result.left memory).drop result.cursor
  left_eq : tokensIn delimiters ((result.left memory).drop result.cursor) =
    (tokensIn delimiters (memory.drop cursor)).tail

section

variable {front lead token tail more : List UInt8} {next : UInt8}
  (hdelimiters : 0 ∉ delimiters) (hlead : ∀ b ∈ lead, b ∈ delimiters)
  (htoken : ∀ b ∈ token, b ≠ 0 ∧ b ∉ delimiters)

theorem drop_front : (front ++ (lead ++ (token ++ tail))).drop front.length =
    lead ++ (token ++ tail) := List.drop_left

theorem drop_token : (front ++ (lead ++ (token ++ tail))).drop
    (front.length + lead.length + token.length) = tail := by
  rw [← List.drop_drop, ← List.drop_drop, drop_front, List.drop_left, List.drop_left]

include hdelimiters hlead htoken

/-- The NUL stands behind the token, if there is one. -/
theorem advances_of_nul : ∃ result,
    strtok delimiters (front ++ (lead ++ (token ++ 0 :: more))) front.length = .ok result ∧
      result.Advances delimiters (front ++ (lead ++ (token ++ 0 :: more))) front.length := by
  have hstrtok := @strtok_split _ front lead token (0 :: more) hdelimiters hlead htoken (by simp)
  have hend : tokensIn delimiters (0 :: more) = [] := by
    rw [tokensIn_of_nul List.mem_cons_self]
    simp [cstring, tokens_nil]
  have htokens := @tokensIn_nul _ lead token more hdelimiters hlead htoken
  have hstop := @drop_token front lead token (0 :: more)
  by_cases hnil : token = []
  · subst hnil
    simp only [List.length_nil, Nat.add_zero] at hstop
    refine ⟨_, by simpa using hstrtok, by simp, ?_, ?_, ?_⟩
    · rw [drop_front, htokens]
      rfl
    · simp [Strtok.left]
    · rw [drop_front, htokens]
      simp only [Strtok.left, hstop, hend, if_true, List.tail_nil]
  · refine ⟨_, by simpa [hnil] using hstrtok, ?_, ?_, ?_, ?_⟩
    · simp only [List.length_append]
      omega
    · rw [drop_front, htokens, if_neg hnil]
      rfl
    · simp [Strtok.left, hstop]
    · rw [drop_front, htokens, if_neg hnil]
      simp only [Strtok.left, hstop, hend, List.tail_cons]

/-- A delimiter ends the token and is overwritten. -/
theorem advances_of_delimiter (hnext : next ∈ delimiters) (hne : token ≠ []) : ∃ result,
    strtok delimiters (front ++ (lead ++ (token ++ next :: more))) front.length = .ok result ∧
      result.Advances delimiters (front ++ (lead ++ (token ++ next :: more))) front.length := by
  have hstrtok := @strtok_split _ front lead token (next :: more) hdelimiters hlead htoken
    (by simp [hnext, hne])
  have hzero : next ≠ 0 := by
    rintro rfl
    exact hdelimiters hnext
  have htokens := @tokensIn_delimiter _ lead token more next hdelimiters hlead htoken hnext hne
  have hmore : ((front ++ (lead ++ (token ++ next :: more))).set
      (front.length + lead.length + token.length) 0).drop
        (front.length + lead.length + token.length + 1) = more := by
    rw [List.drop_set_of_lt (by omega), ← List.drop_drop, drop_token]
    rfl
  refine ⟨_, by simpa [hne, hzero] using hstrtok, ?_, ?_, ?_, ?_⟩
  · simp only [List.length_append, List.length_cons]
    omega
  · rw [drop_front, htokens]
    rfl
  · simp only [Strtok.left, hmore, drop_front]
    intro hnul
    rw [← List.append_assoc, List.mem_append, List.mem_cons] at hnul
    rcases hnul with hnul | hnul | hnul
    · exact absurd rfl (lead_token_ne_zero hdelimiters hlead htoken 0 hnul)
    · exact absurd hnul.symm hzero
    · exact hnul
  · rw [drop_front, htokens]
    simp only [Strtok.left, hmore, List.tail_cons]

end

/-- `strtok` returns the first token that ends inside the memory behind its cursor and leaves the
others. Without such a token it meets the NUL or leaves the memory. -/
theorem strtok_tokensIn {memory : List UInt8} {cursor : ℕ} (hdelimiters : 0 ∉ delimiters)
    (hcursor : cursor ≤ memory.length) :
    (strtok delimiters memory cursor = .error .outOfBounds ∧ 0 ∉ memory.drop cursor ∧
      tokensIn delimiters (memory.drop cursor) = []) ∨
    ∃ result, strtok delimiters memory cursor = .ok result ∧
      result.Advances delimiters memory cursor := by
  obtain ⟨lead, token, tail, hsplit, hlead, htoken, htail⟩ :=
    exists_token delimiters (memory.drop cursor)
  obtain ⟨front, hfront, hmemory⟩ : ∃ front : List UInt8, front.length = cursor ∧
      memory = front ++ (lead ++ (token ++ tail)) := by
    refine ⟨memory.take cursor, List.length_take_of_le hcursor, ?_⟩
    rw [← hsplit, List.take_append_drop]
  subst hfront hmemory
  cases tail with
  | nil =>
      have hne := lead_token_ne_zero hdelimiters hlead htoken
      refine Or.inl ⟨strtok_split hdelimiters hlead htoken htail, ?_, ?_⟩
      · rw [drop_front, List.append_nil]
        exact fun h => hne 0 h rfl
      · rw [drop_front, List.append_nil]
        exact tokensIn_unterminated hdelimiters hlead htoken
  | cons next more =>
      rcases htail next rfl with rfl | ⟨hnext, hne⟩
      · exact Or.inr (advances_of_nul hdelimiters hlead htoken)
      · exact Or.inr (advances_of_delimiter hdelimiters hlead htoken hnext hne)

/-- On a string these are the tokens of its text. -/
theorem strtok_tokens {memory : List UInt8} {cursor : ℕ} (hdelimiters : 0 ∉ delimiters)
    (hnul : 0 ∈ memory.drop cursor) :
    ∃ result, strtok delimiters memory cursor = .ok result ∧
      result.token = (tokens delimiters (cstring (memory.drop cursor))).head? ∧
      0 ∈ (result.left memory).drop result.cursor ∧
      tokens delimiters (cstring ((result.left memory).drop result.cursor)) =
        (tokens delimiters (cstring (memory.drop cursor))).tail := by
  have hcursor : cursor ≤ memory.length := by
    by_contra hlt
    rw [List.drop_of_length_le (by omega)] at hnul
    exact absurd hnul List.not_mem_nil
  rcases strtok_tokensIn hdelimiters hcursor with ⟨_, hnone, _⟩ | ⟨result, hresult, hadvances⟩
  · exact absurd hnul hnone
  · have hnul' := hadvances.nul_mem hnul
    have hhead := hadvances.token_eq
    have htail := hadvances.left_eq
    rw [tokensIn_of_nul hnul] at hhead htail
    rw [tokensIn_of_nul hnul'] at htail
    exact ⟨result, hresult, hhead, hnul', htail⟩

end

end Library
