import HeaderAtlas.Proofs.Token.Chunk
import Mathlib.Data.Nat.Digits.Defs
import Mathlib.Tactic.Ring

/-!
# Written integers

`IntegerText` says which texts are integers: decimal digits, or `0x` and hexadecimal ones, with letters behind them that say the
type. Such a text is the first token in front of anything that does not go on with it, and the token holds the number its digits
stand for (`head_tokens_integerText`): as a signed 64-bit word when 64 bits are enough, and zero when they are not.
-/

namespace HeaderAtlas

open Number

/-! ## Digits and the numbers they stand for -/

/-- The digits up to fifteen in the order of their values, with small letters. -/
def smallDigits : List Char := ['0', '1', '2', '3', '4', '5', '6', '7', '8', '9', 'a', 'b', 'c', 'd', 'e', 'f']

/-- The digits up to fifteen in the order of their values, with capital letters. -/
def capitalDigits : List Char := ['0', '1', '2', '3', '4', '5', '6', '7', '8', '9', 'A', 'B', 'C', 'D', 'E', 'F']

/-- The value of a digit, letters of either case; sixteen for what is no digit. -/
def digitValue (c : Char) : Nat := min (smallDigits.idxOf c) (capitalDigits.idxOf c)

/-- The number that digits stand for, the last one counting the ones. -/
def numberOf (radix : Nat) (digits : List Char) : Nat := Nat.ofDigits radix (digits.reverse.map digitValue)

/-- A character outside of ASCII is no digit. -/
theorem digitValue_of_le {c : Char} (h : 128 ≤ c.toNat) : digitValue c = 16 := by
  have hmem : ∀ {ds : List Char}, ds.all (·.toNat < 128) = true → c ∉ ds := by
    intro ds hds hc
    have hlt := of_decide_eq_true (List.all_eq_true.mp hds c hc)
    omega
  rw [digitValue, List.idxOf_eq_length (hmem (by decide)), List.idxOf_eq_length (hmem (by decide))]
  rfl

/-- The decimal digits are those with a value below ten. -/
theorem isDigit_eq (c : Char) : c.isDigit = decide (digitValue c < 10) := by
  by_cases h : c.toNat < 128
  · have hascii : ∀ n < 128, (Char.ofNat n).isDigit = decide (digitValue (Char.ofNat n) < 10) := by decide +kernel
    have hc := hascii c.toNat h
    rwa [Char.ofNat_toNat] at hc
  · rw [digitValue_of_le (Nat.le_of_not_lt h)]
    refine Bool.eq_false_iff.mpr fun hdigit => h ?_
    have hcodes := toNat_of_isDigit hdigit
    omega

/-- A hexadecimal digit has its value. -/
theorem digit?_sixteen (c : Char) : digit? 16 c = if digitValue c < 16 then some (digitValue c) else none := by
  by_cases h : c.toNat < 128
  · have hascii : ∀ n < 128, digit? 16 (Char.ofNat n) =
        if digitValue (Char.ofNat n) < 16 then some (digitValue (Char.ofNat n)) else none := by decide +kernel
    have hc := hascii c.toNat h
    rwa [Char.ofNat_toNat] at hc
  · have hvalue := digitValue_of_le (Nat.le_of_not_lt h)
    have hdigit : c.isDigit = false := by
      rw [isDigit_eq, hvalue]
      rfl
    have halpha : c.isAlpha = false := by
      refine Bool.eq_false_iff.mpr fun halpha => h ?_
      have hcodes := toNat_of_isAlpha halpha
      omega
    rw [digit?, hdigit, halpha, hvalue]
    rfl

/-- Up to radix sixteen, a character is a digit when its value is below the radix. -/
theorem digit?_eq {radix : Nat} (hradix : radix ≤ 16) (c : Char) :
    digit? radix c = if digitValue c < radix then some (digitValue c) else none := by
  have hfilter : digit? radix c = (digit? 16 c).filter (· < radix) := by
    rw [digit?, digit?, Option.filter_filter]
    congr 1
    funext d
    simp
    omega
  rw [hfilter, digit?_sixteen]
  split
  · rw [Option.filter_some]
    simp
  · rw [Option.filter_none, if_neg (by omega)]

/-- The hexadecimal digits are those with a value below sixteen. -/
theorem isHexDigit_eq (c : Char) : isHexDigit c = decide (digitValue c < 16) := by
  rw [isHexDigit, digit?_sixteen]
  split <;> simp [*]

/-- Digits are read behind a value as its multiple by their places, and their own number. -/
theorem readDigits?_eq {radix : Nat} (hradix : radix ≤ 16) {cs : List Char} (h : ∀ c ∈ cs, digitValue c < radix) (value : Nat) :
    readDigits? radix value cs = some (numberOf radix cs + radix ^ cs.length * value) := by
  induction cs generalizing value with
  | nil => simp [readDigits?, numberOf]
  | cons c cs ih =>
    obtain ⟨hc, hcs⟩ := List.forall_mem_cons.mp h
    have hnumber : numberOf radix (c :: cs) = numberOf radix cs + radix ^ cs.length * digitValue c := by
      rw [numberOf, List.reverse_cons, List.map_append, Nat.ofDigits_append, List.length_map, List.length_reverse]
      simp [numberOf]
    rw [readDigits?, digit?_eq hradix, if_pos hc]
    dsimp only
    rw [ih hcs, hnumber, List.length_cons]
    ring_nf

/-- Digits are read as the number they write. -/
theorem readNat?_eq {radix : Nat} (hradix : radix ≤ 16) {cs : List Char} (hne : cs ≠ []) (h : ∀ c ∈ cs, digitValue c < radix) :
    readNat? radix cs = some (numberOf radix cs) := by
  rw [readNat?, List.isEmpty_eq_false_iff.mpr hne, if_neg Bool.false_ne_true, readDigits?_eq hradix h, Nat.mul_zero, Nat.add_zero]

/-- The word of a number below `2 ^ 64` is the number brought into the signed range. -/
theorem toInt_wordOrZero (n : Nat) :
    (wordOrZero n).toInt = if n < Nat.pow 2 64 then (n : Int).bmod (Nat.pow 2 64) else 0 := by
  rw [wordOrZero]
  split
  · exact Int64.toInt_ofNat'
  · rfl

/-! ## Integers in a text -/

/-- The letters behind an integer that say its type. -/
def integerLetters : List Char := ['u', 'U', 'l', 'L']

/-- In front of `rest`, a text is an integer of this radix with these digits. -/
inductive IntegerText (rest : List Char) : (radix : Nat) → (digits text : List Char) → Prop where
  | decimal (digits letters : List Char) (hne : digits ≠ []) (hdigits : ∀ c ∈ digits, digitValue c < 10)
      (hletters : ∀ c ∈ letters, c ∈ integerLetters)
      (hrest : ∀ c, rest.head? = some c → 10 ≤ digitValue c ∧ c ∉ ['.', 'e', 'E', 'f', 'F'] ∧ c ∉ integerLetters)
      (hmark : digits = ['0'] → letters = [] → ∀ c, rest.head? = some c → c ∉ ['x', 'X']) :
      IntegerText rest 10 digits (digits ++ letters)
  | hexadecimal (mark : Char) (digits letters : List Char) (hmark : mark ∈ ['x', 'X']) (hne : digits ≠ [])
      (hdigits : ∀ c ∈ digits, digitValue c < 16) (hletters : ∀ c ∈ letters, c ∈ integerLetters)
      (hrest : ∀ c, rest.head? = some c → 16 ≤ digitValue c ∧ c ∉ integerLetters) :
      IntegerText rest 16 digits ('0' :: mark :: (digits ++ letters))

/-- The suffixes of numbers are those of integers and those of floats. -/
theorem isSuffix_eq (c : Char) : isSuffix c = (decide (c ∈ integerLetters) || isFloatSuffix c) := by
  rw [Bool.eq_iff_iff]
  simp [isSuffix, isFloatSuffix, integerLetters, or_assoc]

/-- The letters of a type are no digits and do not make a number a fraction. -/
theorem suffix_of_mem_integerLetters {c : Char} (h : c ∈ integerLetters) :
    isSuffix c = true ∧ isFloatSuffix c = false ∧ isHexDigit c = false := by
  simp only [integerLetters, List.mem_cons, List.not_mem_nil, or_false] at h
  rcases h with rfl | rfl | rfl | rfl <;> exact ⟨rfl, rfl, rfl⟩

/-- What may stand behind a decimal integer does not go on with it. -/
theorem stops_of_decimal_rest {rest : List Char}
    (h : ∀ c, rest.head? = some c → 10 ≤ digitValue c ∧ c ∉ ['.', 'e', 'E', 'f', 'F'] ∧ c ∉ integerLetters) :
    Stops isSuffix rest ∧ decimalStops false rest = true := by
  cases rest with
  | nil => exact ⟨(fun _ hc => by cases hc), rfl⟩
  | cons c cs =>
    obtain ⟨hdigit, hother, hletter⟩ := h c rfl
    simp only [List.mem_cons, List.not_mem_nil, or_false, not_or] at hother
    obtain ⟨hpoint, he, hE, hf, hF⟩ := hother
    constructor
    · rintro _ ⟨⟩
      rw [isSuffix_eq, decide_eq_false hletter, isFloatSuffix, beq_eq_false_iff_ne.mpr hf, beq_eq_false_iff_ne.mpr hF]
      rfl
    · rw [decimalStops, isDigit_eq, decide_eq_false (Nat.not_lt.mpr hdigit), beq_eq_false_iff_ne.mpr hpoint,
        beq_eq_false_iff_ne.mpr he, beq_eq_false_iff_ne.mpr hE]
      rfl

/-- A hexadecimal number is one token, with its suffix. -/
theorem oneToken_hexadecimal {mark : Char} {digits letters rest : List Char} (hmark : isHexMark '0' mark = true)
    (hdigits : ∀ c ∈ digits, isHexDigit c = true) (hletters : ∀ c ∈ letters, isSuffix c = true ∧ isHexDigit c = false)
    (hrest : Stops isHexDigit rest) (hsuffix : Stops isSuffix rest) :
    OneToken (.int (intValue 16 digits)) ('0' :: mark :: (digits ++ letters)) rest := by
  obtain ⟨hgap, hlexeme⟩ := lexeme_of_isDigit (c := '0') rfl (mark :: (digits ++ letters) ++ rest)
  have hstops : Stops isHexDigit (letters ++ rest) := .append (fun d hd => (hletters d hd).2) fun _ => hrest
  have hletter : ∀ c ∈ letters, isSuffix c = true := fun c hc => (hletters c hc).1
  have hnumber : numberLexeme '0' (mark :: (digits ++ letters) ++ rest) = hexLexeme ['0', mark] (digits ++ letters ++ rest) :=
    if_pos hmark
  refine .of_lexeme hgap ?_
  rw [hlexeme, hnumber, hexLexeme, List.append_assoc, takeWhile_append_of_stops hdigits hstops,
    dropWhile_append_of_stops hdigits hstops, takeWhile_append_of_stops hletter hsuffix, dropWhile_append_of_stops hletter hsuffix]
  rfl

/-- A written integer is one token, which holds the word of the number its digits stand for. -/
theorem IntegerText.oneToken {rest digits text : List Char} {radix : Nat} (h : IntegerText rest radix digits text) :
    OneToken (.int (wordOrZero (numberOf radix digits))) text rest := by
  have hvalue : ∀ {radix : Nat} {digits : List Char}, radix ≤ 16 → digits ≠ [] → (∀ c ∈ digits, digitValue c < radix) →
      intValue radix digits = wordOrZero (numberOf radix digits) := by
    intro radix digits hradix hne hdigits
    rw [intValue, readNat?_eq hradix hne hdigits, Option.getD_some]
  cases h with
  | decimal digits letters hne hdigits hletters hrest hmark =>
    obtain ⟨c, cs, rfl⟩ := List.exists_cons_of_ne_nil hne
    obtain ⟨hsuffix, hstops⟩ := stops_of_decimal_rest hrest
    have hfirst : cs = [] → letters = [] → Stops (isHexMark c) rest := by
      rintro rfl hnil x hx
      refine Bool.eq_false_iff.mpr fun hhex => ?_
      simp only [isHexMark, Bool.and_eq_true, Bool.or_eq_true, beq_iff_eq] at hhex
      obtain ⟨rfl, hx'⟩ := hhex
      exact hmark rfl hnil x hx (by simpa using hx')
    rw [← hvalue (by decide) hne hdigits]
    refine oneToken_decimal (fun d hd => ?_) (fun d hd => ?_) hsuffix hstops hfirst
    · rw [isDigit_eq, decide_eq_true (hdigits d hd)]
    · obtain ⟨hsuffix, hfloat, -⟩ := suffix_of_mem_integerLetters (hletters d hd)
      exact ⟨hsuffix, hfloat⟩
  | hexadecimal mark digits letters hmark hne hdigits hletters hrest =>
    have hhex : isHexMark '0' mark = true := by simpa [isHexMark] using hmark
    rw [← hvalue (by decide) hne hdigits]
    refine oneToken_hexadecimal hhex (fun c hc => ?_) (fun c hc => ?_) (fun c hc => ?_) (fun c hc => ?_)
    · rw [isHexDigit_eq, decide_eq_true (hdigits c hc)]
    · obtain ⟨hsuffix, -, hhexDigit⟩ := suffix_of_mem_integerLetters (hletters c hc)
      exact ⟨hsuffix, hhexDigit⟩
    · rw [isHexDigit_eq, decide_eq_false (Nat.not_lt.mpr (hrest c hc).1)]
    · obtain ⟨hdigit, hletter⟩ := hrest c hc
      have hfloat : isFloatSuffix c = false := by
        refine Bool.eq_false_iff.mpr fun hfloat => ?_
        simp only [isFloatSuffix, Bool.or_eq_true, beq_iff_eq] at hfloat
        rcases hfloat with rfl | rfl <;> exact absurd hdigit (by decide)
      rw [isSuffix_eq, decide_eq_false hletter, hfloat]
      rfl

/-- The first token of a text that begins with a written integer spans exactly the integer, and its value is the number the digits
stand for, brought into the signed 64-bit range modulo `2 ^ 64`; a number that needs more than 64 bits counts as zero. -/
theorem head_tokens_integerText {rest digits text : List Char} {radix : Nat} (h : IntegerText rest radix digits text) :
    ∃ value : Int64, (tokensWithEnd (text ++ rest)).head? = some ⟨.int value, 0, text.length, ⟨1, 1⟩⟩ ∧
      value.toInt = if numberOf radix digits < Nat.pow 2 64 then (numberOf radix digits : Int).bmod (Nat.pow 2 64) else 0 := by
  refine ⟨wordOrZero (numberOf radix digits), ?_, toInt_wordOrZero _⟩
  have hword : ∀ name, (Token.at .start (.int (wordOrZero (numberOf radix digits))) text.length).word? = some name →
      name ∉ foldedWords := by
    intro name hname
    cases hname
  rw [tokensWithEnd, tokens, h.oneToken, foldCompounds_cons _ hword, List.cons_append, List.head?_cons, Token.at,
    show Place.start.offset = 0 from rfl, Nat.zero_add]
  rfl

/-- A number two below `2 ^ 64`, with zeros in front and letters of both cases, is minus two. -/
theorem head_tokens_integerText_of_capitals :
    IntegerText [';'] 16 "00ffffFFFFffffFFFe".toList "0X00ffffFFFFffffFFFeuL".toList ∧
      ∃ value : Int64, (tokensWithEnd "0X00ffffFFFFffffFFFeuL;".toList).head? = some ⟨.int value, 0, 22, ⟨1, 1⟩⟩ ∧
        value.toInt = -2 := by
  have hdigits : "00ffffFFFFffffFFFe".toList.all (fun c => digitValue c < 16) = true := by decide +kernel
  have hletters : ['u', 'L'].all (fun c => integerLetters.contains c) = true := by decide
  have hrest : 16 ≤ digitValue ';' ∧ ';' ∉ integerLetters := by decide
  have h : IntegerText [';'] 16 "00ffffFFFFffffFFFe".toList "0X00ffffFFFFffffFFFeuL".toList := by
    refine .hexadecimal 'X' _ ['u', 'L'] (by simp) (by decide) (fun c hc => ?_) (fun c hc => ?_) ?_
    · exact of_decide_eq_true (List.all_eq_true.mp hdigits c hc)
    · exact List.contains_iff_mem.mp (List.all_eq_true.mp hletters c hc)
    · rintro _ ⟨⟩
      exact hrest
  have hnumber : numberOf 16 "00ffffFFFFffffFFFe".toList = 18446744073709551614 := by decide +kernel
  obtain ⟨value, hhead, hvalue⟩ := head_tokens_integerText h
  refine ⟨h, value, hhead, ?_⟩
  rw [hvalue, hnumber]
  decide

end HeaderAtlas
