import Dynpm.Library.Fault
import Mathlib.Data.List.Basic
import Mathlib.Data.List.TakeWhile

/-! # Formatted text

What `sprintf` and `sscanf` of the C library do with the conversions `%d` and `%s`, blanks and
ordinary characters, on strings of bytes. A line of fields that are separated by single blanks
is read back by the format it was printed with.
-/

namespace Library.Stdio

/-- `isspace` in the C locale. -/
def isSpace (b : UInt8) : Bool := b = 32 || (9 ≤ b && b ≤ 13)

/-- `isdigit`. -/
def isDigit (b : UInt8) : Bool := 48 ≤ b && b ≤ 57

/-- The C string at the beginning of a region of memory. -/
def cstring (memory : List UInt8) : List UInt8 := memory.takeWhile (· ≠ 0)

/-- What a format string consists of. -/
inductive Directive where
  | int
  | str
  | byte (b : UInt8)
  deriving DecidableEq, Repr

/-- The directives of a format string. -/
def parseFormat : List Char → List Directive
  | [] => []
  | '%' :: 'd' :: format => .int :: parseFormat format
  | '%' :: 's' :: format => .str :: parseFormat format
  | c :: format => .byte (UInt8.ofNat c.toNat) :: parseFormat format

/-- A value printed or scanned by one conversion. -/
inductive Arg where
  | int (v : UInt32)
  | str (s : List UInt8)
  deriving DecidableEq, Repr

/-! ## Printing -/

def decimal (n : ℕ) : List UInt8 :=
  (Nat.toDigits 10 n).map fun c => UInt8.ofNat c.toNat

/-- A signed number in decimal. -/
def decimalInt (z : ℤ) : List UInt8 :=
  if 0 ≤ z then decimal z.toNat else 45 :: decimal (-z).toNat

/-- `%d` prints the 32 bits of its argument as a signed number. -/
def printInt (v : UInt32) : List UInt8 :=
  if v.toNat < 2 ^ 31 then decimal v.toNat else 45 :: decimal (2 ^ 32 - v.toNat)

def Arg.directive : Arg → Directive
  | .int _ => .int
  | .str _ => .str

def Arg.text : Arg → List UInt8
  | .int v => printInt v
  | .str s => cstring s

/-- The text that `sprintf` produces, without its terminating NUL. -/
def print : List Directive → List Arg → List UInt8
  | .byte b :: directives, args => b :: print directives args
  | .int :: directives, .int v :: args => printInt v ++ print directives args
  | .str :: directives, .str s :: args => cstring s ++ print directives args
  | _, _ => []

/-! ## Scanning -/

def skipSpace (text : List UInt8) : List UInt8 := text.dropWhile isSpace

def digitsValue (digits : List UInt8) : ℕ :=
  digits.foldl (fun n b => 10 * n + (b.toNat - 48)) 0

/-- The sign of a number and what follows it. -/
def scanSign : List UInt8 → Bool × List UInt8
  | 45 :: text => (true, text)
  | 43 :: text => (false, text)
  | text => (false, text)

/-- The 32 bits stored for a scanned number: it is converted to a 64-bit integer with
saturation, of which the low half is kept. -/
def storeInt (negative : Bool) (n : ℕ) : UInt32 :=
  UInt32.ofInt (if negative then -(min n (2 ^ 63) : ℕ) else (min n (2 ^ 63 - 1) : ℕ))

/-- `%d`: blanks, an optional sign and at least one digit. -/
def scanInt (text : List UInt8) : Option (UInt32 × List UInt8) :=
  let (negative, text) := scanSign (skipSpace text)
  let digits := text.takeWhile isDigit
  if digits = [] then none
  else some (storeInt negative (digitsValue digits), text.dropWhile isDigit)

/-- `%s`: blanks and a non-empty run of other characters. -/
def scanStr (text : List UInt8) : Option (List UInt8 × List UInt8) :=
  let text := skipSpace text
  let token := text.takeWhile fun b => !isSpace b
  if token = [] then none else some (token, text.dropWhile fun b => !isSpace b)

/-- The values that `sscanf` assigns, up to the first conversion that fails. `capacities` are
the sizes of the buffers for the `%s` conversions, each of which also takes a NUL. -/
def scan : List Directive → List ℕ → List UInt8 → Except Fault (List Arg)
  | [], _, _ => .ok []
  | .int :: directives, capacities, text =>
      match scanInt text with
      | none => .ok []
      | some (v, rest) => (scan directives capacities rest).map (.int v :: ·)
  | .str :: _, [], _ => .error .outOfBounds
  | .str :: directives, capacity :: capacities, text =>
      match scanStr text with
      | none => .ok []
      | some (s, rest) =>
          if s.length < capacity then (scan directives capacities rest).map (.str s :: ·)
          else .error .outOfBounds
  | .byte b :: directives, capacities, text =>
      if isSpace b then scan directives capacities (skipSpace text)
      else
        match text with
        | [] => .ok []
        | c :: rest => if c = b then scan directives capacities rest else .ok []

theorem scan_nil (capacities : List ℕ) (text : List UInt8) : scan [] capacities text = .ok [] := by
  simp [scan]

theorem scan_blank (capacities : List ℕ) (text : List UInt8) :
    scan [.byte 32] capacities text = .ok [] := by
  have hblank : isSpace 32 = true := by decide
  cases text with
  | nil => simp [scan, hblank]
  | cons b text => simp [scan, hblank]

/-! ## Lines of fields -/

/-- A string that `%s` can read back. -/
def Token (s : List UInt8) : Prop := s ≠ [] ∧ ∀ b ∈ s, b ≠ 0 ∧ isSpace b = false

instance (s : List UInt8) : Decidable (Token s) :=
  @instDecidableAnd _ _ _ (List.decidableBAll (fun b => b ≠ 0 ∧ isSpace b = false) s)

/-- The strings among the arguments are tokens that fit the given buffers. -/
def Fits : List Arg → List ℕ → Prop
  | [], _ => True
  | .int _ :: args, capacities => Fits args capacities
  | .str _ :: _, [] => False
  | .str s :: args, capacity :: capacities =>
      Token s ∧ s.length < capacity ∧ Fits args capacities

/-- The strings among the arguments are tokens. -/
def Tokens (args : List Arg) : Prop := ∀ s, Arg.str s ∈ args → Token s

theorem Tokens.tail {arg : Arg} {args : List Arg} (h : Tokens (arg :: args)) : Tokens args :=
  fun s hs => h s (List.mem_cons_of_mem _ hs)

/-- The fields after the first one, each behind a blank. -/
def blankFields (args : List Arg) : List UInt8 := args.flatMap fun arg => 32 :: arg.text

/-- The directives for fields that are each preceded by a blank. -/
def blankDirectives (args : List Arg) : List Directive :=
  args.flatMap fun arg => [.byte 32, arg.directive]

theorem blankDirectives_cons_append (arg : Arg) (args : List Arg) (rest : List Directive) :
    blankDirectives (arg :: args) ++ rest =
      .byte 32 :: arg.directive :: (blankDirectives args ++ rest) := rfl

theorem blankFields_cons_append (arg : Arg) (args : List Arg) (tail : List UInt8) :
    blankFields (arg :: args) ++ tail = 32 :: (arg.text ++ (blankFields args ++ tail)) := by
  simp [blankFields]

/-- The text ends here or goes on with a blank. -/
def Separated (text : List UInt8) : Prop := ∀ b ∈ text.head?, isSpace b = true

theorem separated_blankFields (args : List Arg) {tail : List UInt8} (h : Separated tail) :
    Separated (blankFields args ++ tail) := by
  cases args with
  | nil => simpa [blankFields] using h
  | cons arg args =>
      intro b hb
      obtain rfl : 32 = b := by simpa [blankFields] using hb
      rfl

/-! ### Numbers -/

theorem toNat_bounds_of_mem_toDigits {n : ℕ} {c : Char} (h : c ∈ Nat.toDigits 10 n) :
    48 ≤ c.toNat ∧ c.toNat ≤ 57 := by
  have hdigit := Nat.isDigit_of_mem_toDigits (by decide) (by decide) h
  simp only [Char.isDigit, Bool.and_eq_true, decide_eq_true_eq] at hdigit
  exact ⟨hdigit.1, hdigit.2⟩

theorem isDigit_of_mem_decimal {n : ℕ} {b : UInt8} (h : b ∈ decimal n) : isDigit b = true := by
  obtain ⟨c, hc, rfl⟩ := List.mem_map.mp h
  obtain ⟨hlow, hhigh⟩ := toNat_bounds_of_mem_toDigits hc
  have hbyte : (UInt8.ofNat c.toNat).toNat = c.toNat := by
    rw [UInt8.toNat_ofNat', Nat.mod_eq_of_lt (by omega)]
  simp only [isDigit, Bool.and_eq_true, decide_eq_true_eq, UInt8.le_iff_toNat_le, hbyte]
  exact ⟨hlow, hhigh⟩

theorem decimal_ne_nil (n : ℕ) : decimal n ≠ [] := by
  simp [decimal, Nat.toDigits_ne_nil]

theorem digitsValue_decimal (n : ℕ) : digitsValue (decimal n) = n := by
  have hvalue : digitsValue (decimal n) = Nat.ofDigitChars 10 (Nat.toDigits 10 n) 0 := by
    rw [digitsValue, decimal, List.foldl_map, Nat.ofDigitChars_eq_foldl]
    apply List.foldl_ext
    intro value c hc
    obtain ⟨hlow, hhigh⟩ := toNat_bounds_of_mem_toDigits hc
    rw [UInt8.toNat_ofNat', Nat.mod_eq_of_lt (by omega)]
    rfl
  rw [hvalue, Nat.ofDigitChars_ten_toDigits]

theorem length_decimal_le {n k : ℕ} (hk : 0 < k) (h : n < 10 ^ k) : (decimal n).length ≤ k := by
  rw [decimal, List.length_map]
  exact (Nat.length_toDigits_le_iff (by decide) hk).mpr h

theorem length_printInt_le (v : UInt32) : (printInt v).length ≤ 11 := by
  have hv := v.toNat_lt
  unfold printInt
  split
  · have := @length_decimal_le v.toNat 10 (by decide) (by omega)
    omega
  · have := @length_decimal_le (2 ^ 32 - v.toNat) 10 (by decide) (by omega)
    simp only [List.length_cons]
    omega

theorem isSpace_of_isDigit {b : UInt8} (h : isDigit b = true) : isSpace b = false := by
  simp only [isDigit, Bool.and_eq_true, decide_eq_true_eq, UInt8.le_iff_toNat_le] at h
  simp only [isSpace, Bool.or_eq_false_iff, Bool.and_eq_false_iff, decide_eq_false_iff_not,
    UInt8.le_iff_toNat_le]
  have hlow : 48 ≤ b.toNat := h.1
  refine ⟨?_, Or.inr ?_⟩
  · rintro rfl
    exact absurd hlow (by decide)
  · exact Nat.not_le.mpr (Nat.lt_of_lt_of_le (by decide) hlow)

/-- The bytes of a signed number are digits, apart from a sign. -/
theorem mem_decimalInt {z : ℤ} {b : UInt8} (h : b ∈ decimalInt z) :
    b = 45 ∨ isDigit b = true := by
  unfold decimalInt at h
  split at h
  · exact Or.inr (isDigit_of_mem_decimal h)
  · rcases List.mem_cons.mp h with rfl | h
    · exact Or.inl rfl
    · exact Or.inr (isDigit_of_mem_decimal h)

/-- The signed reading of a word is what is printed. -/
theorem printInt_toUInt32 (v : Int32) : printInt v.toUInt32 = decimalInt v.toInt := by
  have hint : v.toInt = v.toUInt32.toBitVec.toInt := rfl
  have hnat : v.toUInt32.toNat = v.toUInt32.toBitVec.toNat := rfl
  have hlt := v.toUInt32.toNat_lt
  rw [BitVec.toInt_eq_toNat_cond] at hint
  unfold printInt decimalInt
  by_cases hv : v.toUInt32.toNat < 2 ^ 31
  · have hz : v.toInt = v.toUInt32.toNat := by
      rw [hint, if_pos (by omega), hnat]
    rw [if_pos hv, if_pos (by omega), hz, Int.toNat_natCast]
  · have hz : v.toInt = v.toUInt32.toNat - 2 ^ 32 := by
      rw [hint, if_neg (by omega), hnat]
      rfl
    have hneg : (-v.toInt).toNat = 2 ^ 32 - v.toUInt32.toNat := by omega
    rw [if_neg hv, if_neg (by omega), hneg]

theorem decimal_injective : Function.Injective decimal := by
  intro m n h
  rw [← digitsValue_decimal m, h, digitsValue_decimal]

/-- A sign is not a digit. -/
theorem sign_not_mem_decimal (n : ℕ) : (45 : UInt8) ∉ decimal n := by
  intro h
  exact absurd (isDigit_of_mem_decimal h) (by decide)

theorem decimalInt_injective : Function.Injective decimalInt := by
  intro y z h
  unfold decimalInt at h
  split at h
  · split at h
    · have hnat := decimal_injective h
      omega
    · exact absurd (h ▸ List.mem_cons_self) (sign_not_mem_decimal y.toNat)
  · split at h
    · exact absurd (h ▸ List.mem_cons_self) (sign_not_mem_decimal z.toNat)
    · have hnat := decimal_injective (List.cons.inj h).2
      omega

theorem mem_printInt {v : UInt32} {b : UInt8} (h : b ∈ printInt v) :
    b = 45 ∨ isDigit b = true := by
  have hprint : printInt v = decimalInt v.toInt32.toInt := printInt_toUInt32 v.toInt32
  rw [hprint] at h
  exact mem_decimalInt h

theorem isSpace_of_mem_printInt {v : UInt32} {b : UInt8} (h : b ∈ printInt v) :
    isSpace b = false := by
  rcases mem_printInt h with rfl | hdigit
  · decide
  · exact isSpace_of_isDigit hdigit

theorem printInt_ne_nil (v : UInt32) : printInt v ≠ [] := by
  unfold printInt
  split
  · exact decimal_ne_nil _
  · exact List.cons_ne_nil _ _

theorem skipSpace_append {text : List UInt8} (hne : text ≠ [])
    (h : ∀ b ∈ text, isSpace b = false) (tail : List UInt8) :
    skipSpace (text ++ tail) = text ++ tail := by
  cases text with
  | nil => exact absurd rfl hne
  | cons b text =>
      rw [skipSpace, List.cons_append, List.dropWhile_cons_of_neg]
      simp [h b List.mem_cons_self]

theorem takeWhile_append_stop {p : UInt8 → Bool} {run tail : List UInt8}
    (hrun : ∀ b ∈ run, p b = true) (htail : ∀ b ∈ tail.head?, p b = false) :
    (run ++ tail).takeWhile p = run ∧ (run ++ tail).dropWhile p = tail := by
  rw [List.takeWhile_append_of_pos hrun, List.dropWhile_append_of_pos hrun]
  cases tail with
  | nil => simp
  | cons b tail =>
      have hb := htail b rfl
      simp [hb]

theorem scanSign_digit {b : UInt8} (text : List UInt8) (h : isDigit b = true) :
    scanSign (b :: text) = (false, b :: text) := by
  unfold scanSign
  split
  · next heq =>
      obtain ⟨rfl, _⟩ := List.cons.inj heq
      exact absurd h (by decide)
  · next heq =>
      obtain ⟨rfl, _⟩ := List.cons.inj heq
      exact absurd h (by decide)
  · rfl

theorem storeInt_false {v : UInt32} : storeInt false v.toNat = v := by
  have hv := v.toNat_lt
  rw [storeInt, if_neg (by decide), UInt32.ofInt, Nat.min_eq_left (by omega)]
  have h : ((v.toNat : Int) % 2 ^ 32).toNat = v.toNat := by omega
  rw [h, UInt32.ofNat_toNat]

theorem storeInt_true {v : UInt32} (h : 0 < v.toNat) :
    storeInt true (2 ^ 32 - v.toNat) = v := by
  have hv := v.toNat_lt
  rw [storeInt, if_pos rfl, UInt32.ofInt, Nat.min_eq_left (by omega)]
  have h : ((-((2 ^ 32 - v.toNat : ℕ) : Int)) % 2 ^ 32).toNat = v.toNat := by omega
  rw [h, UInt32.ofNat_toNat]

/-- A sign and the digits that follow it are scanned as one number. -/
theorem scanInt_of_scanSign {text tail : List UInt8} {negative : Bool} (n : ℕ)
    (hsign : scanSign (skipSpace text) = (negative, decimal n ++ tail)) (htail : Separated tail) :
    scanInt text = some (storeInt negative n, tail) := by
  obtain ⟨htake, hdrop⟩ : (decimal n ++ tail).takeWhile isDigit = decimal n ∧
      (decimal n ++ tail).dropWhile isDigit = tail := by
    apply takeWhile_append_stop
    · intro b hb
      exact isDigit_of_mem_decimal hb
    · intro b hb
      have hspace := htail b hb
      by_contra hdigit
      rw [isSpace_of_isDigit (by simpa using hdigit)] at hspace
      exact Bool.false_ne_true hspace
  rw [scanInt, hsign]
  simp only [htake, hdrop, decimal_ne_nil, if_false, digitsValue_decimal]

theorem scanInt_printInt (v : UInt32) {tail : List UInt8} (htail : Separated tail) :
    scanInt (printInt v ++ tail) = some (v, tail) := by
  have hskip : skipSpace (printInt v ++ tail) = printInt v ++ tail :=
    skipSpace_append (printInt_ne_nil v) (fun b hb => isSpace_of_mem_printInt hb) tail
  by_cases hv : v.toNat < 2 ^ 31
  · have hprint : printInt v = decimal v.toNat := if_pos hv
    have hsign : scanSign (decimal v.toNat ++ tail) = (false, decimal v.toNat ++ tail) := by
      cases hd : decimal v.toNat with
      | nil => exact absurd hd (decimal_ne_nil _)
      | cons b rest =>
          exact scanSign_digit _ (@isDigit_of_mem_decimal v.toNat b (hd ▸ List.mem_cons_self))
    rw [scanInt_of_scanSign v.toNat (by rw [hskip, hprint, hsign]) htail, storeInt_false]
  · have hprint : printInt v = 45 :: decimal (2 ^ 32 - v.toNat) := if_neg hv
    rw [scanInt_of_scanSign (2 ^ 32 - v.toNat) (by rw [hskip, hprint]; rfl) htail,
      storeInt_true (by omega)]

/-! ### Strings -/

theorem cstring_of_forall_ne {s : List UInt8} (h : ∀ b ∈ s, b ≠ 0) (rest : List UInt8) :
    cstring (s ++ 0 :: rest) = s := by
  rw [cstring, List.takeWhile_append_of_pos (by simpa using h)]
  simp

theorem cstring_eq_self {s : List UInt8} (h : ∀ b ∈ s, b ≠ 0) : cstring s = s := by
  rw [cstring, List.takeWhile_eq_self_iff]
  simpa using h

theorem scanStr_token {s : List UInt8} (h : Token s) {tail : List UInt8}
    (htail : Separated tail) : scanStr (s ++ tail) = some (s, tail) := by
  have hspace : ∀ b ∈ s, isSpace b = false := fun b hb => (h.2 b hb).2
  obtain ⟨htake, hdrop⟩ : ((s ++ tail).takeWhile fun b => !isSpace b) = s ∧
      ((s ++ tail).dropWhile fun b => !isSpace b) = tail := by
    apply takeWhile_append_stop
    · intro b hb
      simp [hspace b hb]
    · intro b hb
      simp [htail b hb]
  simp only [scanStr, skipSpace_append h.1 hspace, htake, hdrop, h.1, if_false]

/-! ### Whole lines -/

theorem print_bytes (tail : List UInt8) : print (tail.map .byte) [] = tail := by
  induction tail with
  | nil => rfl
  | cons b tail ih => rw [List.map_cons, print, ih]

/-- One field is printed as its text. -/
theorem print_directive (arg : Arg) (directives : List Directive) (args : List Arg) :
    print (arg.directive :: directives) (arg :: args) = arg.text ++ print directives args := by
  cases arg with
  | int v => rfl
  | str s => rfl

theorem print_blankDirectives (args : List Arg) (tail : List UInt8) :
    print (blankDirectives args ++ tail.map .byte) args = blankFields args ++ tail := by
  induction args with
  | nil => exact print_bytes tail
  | cons arg args ih =>
      rw [blankDirectives_cons_append, print, print_directive, ih, blankFields_cons_append]

/-- The buffers that remain for the fields after `arg`. -/
def Arg.remaining : Arg → List ℕ → List ℕ
  | .int _, capacities => capacities
  | .str _, capacities => capacities.tail

theorem Fits.remaining {arg : Arg} {args : List Arg} {capacities : List ℕ}
    (h : Fits (arg :: args) capacities) : Fits args (arg.remaining capacities) := by
  cases arg with
  | int v => exact h
  | str s =>
      cases capacities with
      | nil => exact h.elim
      | cons capacity capacities => exact h.2.2

theorem Fits.tokens {args : List Arg} {capacities : List ℕ} (h : Fits args capacities) :
    Tokens args := by
  induction args generalizing capacities with
  | nil =>
      intro s hs
      exact absurd hs List.not_mem_nil
  | cons arg args ih =>
      intro s hs
      rcases List.mem_cons.mp hs with rfl | hs
      · cases capacities with
        | nil => exact h.elim
        | cons capacity capacities => exact h.1
      · exact ih h.remaining s hs

/-- One field is scanned back by its own conversion. -/
theorem scan_directive {arg : Arg} {args : List Arg} {capacities : List ℕ}
    (hfits : Fits (arg :: args) capacities) (directives : List Directive) {tail : List UInt8}
    (htail : Separated tail) :
    scan (arg.directive :: directives) capacities (arg.text ++ tail) =
      (scan directives (arg.remaining capacities) tail).map (arg :: ·) := by
  cases arg with
  | int v =>
      rw [Arg.directive, Arg.text, scan, scanInt_printInt v htail]
      rfl
  | str s =>
      cases capacities with
      | nil => exact hfits.elim
      | cons capacity capacities =>
          obtain ⟨htoken, hlen, _⟩ := hfits
          have htext : (Arg.str s).text = s := cstring_eq_self fun b hb => (htoken.2 b hb).1
          rw [Arg.directive, htext, scan, scanStr_token htoken htail]
          simp only [hlen, if_true]
          rfl

/-- The text of a field is not empty and has no blanks in it. -/
theorem isSpace_of_mem_text {arg : Arg} {args : List Arg} (htokens : Tokens (arg :: args)) :
    arg.text ≠ [] ∧ ∀ b ∈ arg.text, isSpace b = false := by
  cases arg with
  | int v => exact ⟨printInt_ne_nil v, fun b hb => isSpace_of_mem_printInt hb⟩
  | str s =>
      have htoken := htokens s List.mem_cons_self
      have htext : (Arg.str s).text = s := cstring_eq_self fun b hb => (htoken.2 b hb).1
      rw [htext]
      exact ⟨htoken.1, fun b hb => (htoken.2 b hb).2⟩

theorem skipSpace_text {arg : Arg} {args : List Arg} (htokens : Tokens (arg :: args))
    (tail : List UInt8) : skipSpace (32 :: (arg.text ++ tail)) = arg.text ++ tail := by
  have hblank : skipSpace (32 :: (arg.text ++ tail)) = skipSpace (arg.text ++ tail) := rfl
  obtain ⟨hne, hspace⟩ := isSpace_of_mem_text htokens
  rw [hblank, skipSpace_append hne hspace]

/-- The buffers that remain behind a list of fields. -/
def remaining (args : List Arg) (capacities : List ℕ) : List ℕ :=
  args.foldl (fun capacities arg => arg.remaining capacities) capacities

theorem map_append_nil (values : Except Fault (List Arg)) : values.map ([] ++ ·) = values := by
  cases values with
  | error fault => rfl
  | ok values => rfl

theorem map_append_cons (arg : Arg) (args : List Arg) (values : Except Fault (List Arg)) :
    (values.map (args ++ ·)).map (arg :: ·) = values.map (arg :: args ++ ·) := by
  cases values with
  | error fault => rfl
  | ok values => rfl

/-- Fields that are each preceded by a blank are scanned back, and the scan goes on behind them. -/
theorem scan_blankDirectives {args : List Arg} {capacities : List ℕ} (hfits : Fits args capacities)
    (rest : List Directive) {tail : List UInt8} (htail : Separated tail) :
    scan (blankDirectives args ++ rest) capacities (blankFields args ++ tail) =
      (scan rest (remaining args capacities) tail).map (args ++ ·) := by
  induction args generalizing capacities with
  | nil => exact (map_append_nil _).symm
  | cons arg args ih =>
      rw [blankDirectives_cons_append, blankFields_cons_append, scan, if_pos (by decide),
        skipSpace_text hfits.tokens, scan_directive hfits _ (separated_blankFields args htail),
        ih hfits.remaining, map_append_cons]
      rfl

/-- A line of fields separated by single blanks. -/
def line : List Arg → List UInt8
  | [] => []
  | arg :: args => arg.text ++ blankFields args

/-- The format of such a line. -/
def lineDirectives : List Arg → List Directive
  | [] => []
  | arg :: args => arg.directive :: blankDirectives args

/-- Printing a line, with ordinary characters behind it. -/
theorem print_line (args : List Arg) (tail : List UInt8) :
    print (lineDirectives args ++ tail.map .byte) args = line args ++ tail := by
  cases args with
  | nil => exact print_bytes tail
  | cons arg args =>
      rw [lineDirectives, List.cons_append, print_directive, print_blankDirectives, line,
        List.append_assoc]

/-- A line is scanned back, and the scan goes on behind it. -/
theorem scan_line_append {args : List Arg} {capacities : List ℕ} (hfits : Fits args capacities)
    (rest : List Directive) {tail : List UInt8} (htail : Separated tail) :
    scan (lineDirectives args ++ rest) capacities (line args ++ tail) =
      (scan rest (remaining args capacities) tail).map (args ++ ·) := by
  cases args with
  | nil => exact (map_append_nil _).symm
  | cons arg args =>
      rw [lineDirectives, line, List.cons_append, List.append_assoc,
        scan_directive hfits _ (separated_blankFields args htail),
        scan_blankDirectives hfits.remaining rest htail, map_append_cons]
      rfl

/-- Scanning a line that ends or is followed by a blank. -/
theorem scan_line {args : List Arg} {capacities : List ℕ} (hfits : Fits args capacities)
    {rest : List Directive} (hrest : ∀ capacities text, scan rest capacities text = .ok [])
    {tail : List UInt8} (htail : Separated tail) :
    scan (lineDirectives args ++ rest) capacities (line args ++ tail) = .ok args := by
  rw [scan_line_append hfits rest htail, hrest]
  exact congrArg Except.ok (List.append_nil args)

theorem mem_blankFields {args : List Arg} (htokens : Tokens args) {b : UInt8}
    (hb : b ∈ blankFields args) : b = 32 ∨ isSpace b = false := by
  induction args with
  | nil => exact absurd hb List.not_mem_nil
  | cons arg args ih =>
      have hfields : blankFields (arg :: args) = 32 :: (arg.text ++ blankFields args) := by
        simp [blankFields]
      rw [hfields] at hb
      rcases List.mem_cons.mp hb with rfl | hb
      · exact Or.inl rfl
      · rcases List.mem_append.mp hb with hb | hb
        · exact Or.inr ((isSpace_of_mem_text htokens).2 b hb)
        · exact ih htokens.tail hb

/-- The only whitespace in a line are the blanks between its fields. -/
theorem mem_line {args : List Arg} (htokens : Tokens args) {b : UInt8} (hb : b ∈ line args) :
    b = 32 ∨ isSpace b = false := by
  cases args with
  | nil => exact absurd hb List.not_mem_nil
  | cons arg args =>
      rcases List.mem_append.mp hb with hb | hb
      · exact Or.inr ((isSpace_of_mem_text htokens).2 b hb)
      · exact mem_blankFields htokens.tail hb

/-- The front of a longer line is a line that is followed by a blank. -/
theorem line_append {front : List Arg} (hfront : front ≠ []) (args : List Arg) :
    line (front ++ args) = line front ++ blankFields args := by
  cases front with
  | nil => exact absurd rfl hfront
  | cons arg front => simp [line, blankFields]

theorem length_text_le_blankFields {arg : Arg} {args : List Arg} (h : arg ∈ args) :
    arg.text.length ≤ (blankFields args).length := by
  induction args with
  | nil => exact absurd h List.not_mem_nil
  | cons first args ih =>
      have hcons := congrArg List.length (blankFields_cons_append first args [])
      simp only [List.length_append, List.length_cons, List.length_nil] at hcons
      rcases List.mem_cons.mp h with rfl | h
      · omega
      · have hrest := ih h
        omega

/-- A line is at least as long as each of its fields. -/
theorem length_text_le_line {arg : Arg} {args : List Arg} (h : arg ∈ args) :
    arg.text.length ≤ (line args).length := by
  cases args with
  | nil => exact absurd h List.not_mem_nil
  | cons first args =>
      rw [line, List.length_append]
      rcases List.mem_cons.mp h with rfl | h
      · omega
      · have hrest := length_text_le_blankFields h
        omega

theorem length_blankFields_le {size : ℕ} (args : List Arg)
    (h : ∀ arg ∈ args, arg.text.length ≤ size) :
    (blankFields args).length ≤ (size + 1) * args.length := by
  induction args with
  | nil => simp [blankFields]
  | cons arg args ih =>
      have harg := h arg List.mem_cons_self
      have hrest := ih fun a ha => h a (List.mem_cons_of_mem _ ha)
      simp only [blankFields, List.flatMap_cons, List.length_append, List.length_cons] at hrest ⊢
      rw [Nat.mul_add, Nat.mul_one]
      omega

/-- A line of short fields takes one more byte than a field for each of them. -/
theorem length_line_le_mul {size : ℕ} (args : List Arg)
    (h : ∀ arg ∈ args, arg.text.length ≤ size) :
    (line args).length ≤ (size + 1) * args.length := by
  cases args with
  | nil => simp [line]
  | cons arg args =>
      have harg := h arg List.mem_cons_self
      have hrest := length_blankFields_le args fun a ha => h a (List.mem_cons_of_mem _ ha)
      simp only [line, List.length_append, List.length_cons]
      rw [Nat.mul_add, Nat.mul_one]
      omega

/-- A line of numbers takes at most twelve bytes for each of them. -/
theorem length_line_le (args : List Arg) (h : ∀ arg ∈ args, arg.directive = .int) :
    (line args).length ≤ 12 * args.length := by
  apply length_line_le_mul
  intro arg harg
  cases arg with
  | int v => exact length_printInt_le v
  | str s => exact absurd (h _ harg) (by simp [Arg.directive])

theorem text_ne_zero (arg : Arg) {b : UInt8} (h : b ∈ arg.text) : b ≠ 0 := by
  cases arg with
  | int v =>
      rcases mem_printInt h with rfl | hdigit
      · decide
      · rintro rfl
        exact absurd hdigit (by decide)
  | str s => simpa using List.mem_takeWhile_imp h

theorem blankFields_ne_zero (args : List Arg) {b : UInt8} (h : b ∈ blankFields args) : b ≠ 0 := by
  obtain ⟨arg, _, h⟩ := List.mem_flatMap.mp h
  rcases List.mem_cons.mp h with rfl | h
  · decide
  · exact text_ne_zero arg h

/-- A printed line contains no NUL. -/
theorem line_ne_zero (args : List Arg) {b : UInt8} (h : b ∈ line args) : b ≠ 0 := by
  cases args with
  | nil => exact absurd h List.not_mem_nil
  | cons arg args =>
      rcases List.mem_append.mp h with h | h
      · exact text_ne_zero arg h
      · exact blankFields_ne_zero args h

end Library.Stdio
