import HeaderAtlas.Text.Blank
import HeaderAtlas.Token.Basic

/-!
# Lexemes and gaps

Cuts the next piece off a text. A piece is a lexeme, which becomes a token, or a gap: a blank, a comment or a directive line.
No text is refused: a quoted text or a comment that is not closed runs to the end, and a character of no other use is a mark.
Every cut is a split of the text into what was taken and the rest; nothing is lost (`lexeme_append`, `gap?_append`), and
something is always taken (`length_rest_lexeme`, `length_rest_gap`).
-/

namespace HeaderAtlas

open Number

/-- A piece cut off a text: its kind, its characters and the rest of the text. -/
structure Lexeme where
  kind : Token.Kind
  text : List Char
  rest : List Char
  deriving DecidableEq, Repr

/-- Quoted text behind its opening quote: the text, the closing quote if there is one, and the rest. A backslash keeps the
character behind it. -/
def quotedBody (quote : Char) : List Char → List Char × List Char × List Char
  | [] => ([], [], [])
  | [c] => if c == quote then ([], [c], []) else ([c], [], [])
  | c :: d :: cs =>
    if c == quote then ([], [c], d :: cs)
    else if c == '\\' then
      let r := quotedBody quote cs
      (c :: d :: r.1, r.2)
    else
      let r := quotedBody quote (d :: cs)
      (c :: r.1, r.2)

/-- A digit of a hexadecimal number. -/
def isHexDigit (c : Char) : Bool := (digit? 16 c).isSome

/-- A letter that may follow the digits of a number to say its type. -/
def isSuffix (c : Char) : Bool := c == 'u' || c == 'U' || c == 'l' || c == 'L' || c == 'f' || c == 'F'

/-- The letter that makes a number a fraction. -/
def isFloatSuffix (c : Char) : Bool := c == 'f' || c == 'F'

/-- The body of a decimal number behind its first digit: whether a point or an exponent was met, the characters taken and the
rest. One point is taken, and an exponent letter when a digit or a sign follows it. -/
def decimalBody : Bool → List Char → Bool × List Char × List Char
  | isFloat, [] => (isFloat, [], [])
  | isFloat, c :: cs =>
    if c.isDigit then
      let r := decimalBody isFloat cs
      (r.1, c :: r.2.1, r.2.2)
    else if c == '.' && !isFloat then
      let r := decimalBody true cs
      (r.1, c :: r.2.1, r.2.2)
    else if c == 'e' || c == 'E' then
      match cs with
      | [] => (isFloat, [], [c])
      | d :: ds =>
        if d.isDigit || d == '-' || d == '+' then
          let r := decimalBody true ds
          (r.1, c :: d :: r.2.1, r.2.2)
        else (isFloat, [], c :: d :: ds)
    else (isFloat, [], c :: cs)

/-- The value of a written fraction: points at its end do not count, and what does not read as a number is zero. -/
def floatValue (digits : List Char) : Binary64 :=
  match Numeral.read? (digits.reverse.dropWhile (· == '.')).reverse with
  | some n => n.toBinary .double
  | none => ⟨0⟩

/-- The value of a written integer as a signed 64-bit word; no digits, or more than 64 bits, read as zero. -/
def intValue (radix : Nat) (digits : List Char) : Int64 := wordOrZero ((readNat? radix digits).getD 0)

/-- A hexadecimal number; `lead` is what stands before its digits. -/
def hexLexeme (lead cs : List Char) : Lexeme :=
  let digits := cs.takeWhile isHexDigit
  let tail := cs.dropWhile isHexDigit
  ⟨.int (intValue 16 digits), lead ++ digits ++ tail.takeWhile isSuffix, tail.dropWhile isSuffix⟩

/-- A decimal number, an integer or a fraction, by its first digit and what follows. -/
def decimalLexeme (c : Char) (cs : List Char) : Lexeme :=
  let body := decimalBody false cs
  let digits := c :: body.2.1
  let tail := body.2.2
  let isFloat := body.1 || (tail.head?.map isFloatSuffix).getD false
  ⟨if isFloat then .float (floatValue digits) else .int (intValue 10 digits),
    digits ++ tail.takeWhile isSuffix, tail.dropWhile isSuffix⟩

/-- A number by its first digit and what follows. -/
def numberLexeme (c : Char) (cs : List Char) : Lexeme :=
  match cs with
  | x :: ds => if c == '0' && (x == 'x' || x == 'X') then hexLexeme [c, x] ds else decimalLexeme c cs
  | [] => decimalLexeme c cs

/-- A word by its first character and what follows. -/
def wordLexeme (c : Char) (cs : List Char) : Lexeme :=
  let name := c :: cs.takeWhile Text.isWordChar
  ⟨.word (String.ofList name), name, cs.dropWhile Text.isWordChar⟩

/-- A quoted text by its quote and what follows. -/
def quotedLexeme (quote : Char) (cs : List Char) : Lexeme :=
  let body := quotedBody quote cs
  ⟨.quoted (String.ofList body.1), quote :: (body.1 ++ body.2.1), body.2.2⟩

/-- A mark, or the shift, by its first character and what follows. -/
def markLexeme (c : Char) (cs : List Char) : Lexeme :=
  match cs with
  | d :: ds => if c == '<' && d == '<' then ⟨.shiftLeft, [c, d], ds⟩ else ⟨.mark c, [c], d :: ds⟩
  | [] => ⟨.mark c, [c], []⟩

/-- The lexeme at the head of a text that begins with no gap. -/
def lexeme (c : Char) (cs : List Char) : Lexeme :=
  if c == '"' || c == '\'' then quotedLexeme c cs
  else if c.isDigit then numberLexeme c cs
  else if Text.isWordStart c then wordLexeme c cs
  else markLexeme c cs

/-- The rest of a line, with its newline, and what follows. -/
def lineBody : List Char → List Char × List Char
  | [] => ([], [])
  | c :: cs =>
    if c == '\n' then ([c], cs)
    else
      let r := lineBody cs
      (c :: r.1, r.2)

/-- A comment up to and with its closing marks, and what follows. -/
def commentBody : List Char → List Char × List Char
  | [] => ([], [])
  | [c] => ([c], [])
  | c :: d :: cs =>
    if c == '*' && d == '/' then ([c, d], cs)
    else
      let r := commentBody (d :: cs)
      (c :: r.1, r.2)

/-- A directive up to and with the newline that ends it, and what follows; a backslash before a newline continues it. -/
def directiveBody : List Char → List Char × List Char
  | [] => ([], [])
  | [c] => ([c], [])
  | c :: d :: cs =>
    if c == '\\' && d == '\n' then
      let r := directiveBody cs
      (c :: d :: r.1, r.2)
    else if c == '\n' then ([c], d :: cs)
    else
      let r := directiveBody (d :: cs)
      (c :: r.1, r.2)

/-- The gap at the head of a text, if it begins with one, and what follows it. -/
def gap? : List Char → Option (List Char × List Char)
  | [] => none
  | c :: cs =>
    if Text.isBlank c then some ([c], cs)
    else if c == '#' then
      let r := directiveBody (c :: cs)
      some r
    else if c == '/' then
      match cs with
      | [] => none
      | d :: ds =>
        if d == '/' then
          let r := lineBody ds
          some (c :: d :: r.1, r.2)
        else if d == '*' then
          let r := commentBody ds
          some (c :: d :: r.1, r.2)
        else none
    else none

/-! ## Nothing is lost -/

/-- Quoted text, its quote and the rest are the text. -/
theorem quotedBody_append (quote : Char) (cs : List Char) :
    (quotedBody quote cs).1 ++ (quotedBody quote cs).2.1 ++ (quotedBody quote cs).2.2 = cs := by
  fun_induction quotedBody quote cs <;> simp_all +zetaDelta

/-- The body of a number and the rest are the text. -/
theorem decimalBody_append (isFloat : Bool) (cs : List Char) :
    (decimalBody isFloat cs).2.1 ++ (decimalBody isFloat cs).2.2 = cs := by
  fun_induction decimalBody isFloat cs <;> simp_all +zetaDelta

/-- A line and the rest are the text. -/
theorem lineBody_append (cs : List Char) : (lineBody cs).1 ++ (lineBody cs).2 = cs := by
  fun_induction lineBody cs <;> simp_all +zetaDelta

/-- A comment and the rest are the text. -/
theorem commentBody_append (cs : List Char) : (commentBody cs).1 ++ (commentBody cs).2 = cs := by
  fun_induction commentBody cs <;> simp_all +zetaDelta

/-- A directive and the rest are the text. -/
theorem directiveBody_append (cs : List Char) : (directiveBody cs).1 ++ (directiveBody cs).2 = cs := by
  fun_induction directiveBody cs <;> simp_all +zetaDelta

/-- A directive takes at least the character it begins with. -/
theorem directiveBody_ne_nil (c : Char) (cs : List Char) : (directiveBody (c :: cs)).1 ≠ [] := by
  cases cs with
  | nil => simp [directiveBody]
  | cons d ds =>
    rw [directiveBody]
    split
    · simp
    · split <;> simp

/-- A hexadecimal number and the rest are the text, with the `0x` in front. -/
theorem hexLexeme_append (lead cs : List Char) : (hexLexeme lead cs).text ++ (hexLexeme lead cs).rest = lead ++ cs := by
  simp [hexLexeme, List.takeWhile_append_dropWhile]

/-- A decimal number and the rest are the text. -/
theorem decimalLexeme_append (c : Char) (cs : List Char) :
    (decimalLexeme c cs).text ++ (decimalLexeme c cs).rest = c :: cs := by
  simp [decimalLexeme, List.takeWhile_append_dropWhile, decimalBody_append]

/-- A number and the rest are the text. -/
theorem numberLexeme_append (c : Char) (cs : List Char) :
    (numberLexeme c cs).text ++ (numberLexeme c cs).rest = c :: cs := by
  unfold numberLexeme
  split
  · split
    · simp [hexLexeme_append]
    · exact decimalLexeme_append _ _
  · exact decimalLexeme_append _ _

/-- A word and the rest are the text. -/
theorem wordLexeme_append (c : Char) (cs : List Char) : (wordLexeme c cs).text ++ (wordLexeme c cs).rest = c :: cs := by
  simp [wordLexeme, List.takeWhile_append_dropWhile]

/-- A quoted text, with its quotes, and the rest are the text. -/
theorem quotedLexeme_append (quote : Char) (cs : List Char) :
    (quotedLexeme quote cs).text ++ (quotedLexeme quote cs).rest = quote :: cs := by
  simpa [quotedLexeme] using quotedBody_append quote cs

/-- A mark and the rest are the text. -/
theorem markLexeme_append (c : Char) (cs : List Char) : (markLexeme c cs).text ++ (markLexeme c cs).rest = c :: cs := by
  unfold markLexeme
  split
  · split <;> simp
  · simp

/-- A lexeme and the rest make up the text. -/
theorem lexeme_append (c : Char) (cs : List Char) : (lexeme c cs).text ++ (lexeme c cs).rest = c :: cs := by
  unfold lexeme
  split
  · exact quotedLexeme_append c cs
  · split
    · exact numberLexeme_append c cs
    · split
      · exact wordLexeme_append c cs
      · exact markLexeme_append c cs

/-- A lexeme has at least one character. -/
theorem lexeme_text_ne_nil (c : Char) (cs : List Char) : (lexeme c cs).text ≠ [] := by
  unfold lexeme quotedLexeme numberLexeme hexLexeme decimalLexeme wordLexeme markLexeme
  split
  · simp
  · split
    · split
      · split <;> simp
      · simp
    · split
      · simp
      · split
        · split <;> simp
        · simp

/-- A lexeme leaves less than the text it was cut off. -/
theorem length_rest_lexeme (c : Char) (cs : List Char) : (lexeme c cs).rest.length < (c :: cs).length := by
  have h := congrArg List.length (lexeme_append c cs)
  have hp := List.length_pos_iff.2 (lexeme_text_ne_nil c cs)
  simp only [List.length_append] at h
  omega

/-- A gap and what follows it make up the text. -/
theorem gap?_append {cs : List Char} {g : List Char × List Char} (h : gap? cs = some g) : g.1 ++ g.2 = cs := by
  unfold gap? at h
  split at h
  · simp at h
  · split at h
    · simp only [Option.some.injEq] at h
      simp [← h]
    · split at h
      · simp only [Option.some.injEq] at h
        rw [← h]
        exact directiveBody_append _
      · split at h
        · split at h
          · simp at h
          · split at h
            · simp only [Option.some.injEq] at h
              simp [← h, lineBody_append]
            · split at h
              · simp only [Option.some.injEq] at h
                simp [← h, commentBody_append]
              · simp at h
        · simp at h

/-- A gap has at least one character. -/
theorem gap?_ne_nil {cs : List Char} {g : List Char × List Char} (h : gap? cs = some g) : g.1 ≠ [] := by
  unfold gap? at h
  split at h
  · simp at h
  · split at h
    · simp only [Option.some.injEq] at h
      simp [← h]
    · split at h
      · simp only [Option.some.injEq] at h
        rw [← h]
        exact directiveBody_ne_nil _ _
      · split at h
        · split at h
          · simp at h
          · split at h
            · simp only [Option.some.injEq] at h
              simp [← h]
            · split at h
              · simp only [Option.some.injEq] at h
                simp [← h]
              · simp at h
        · simp at h

/-- A gap leaves less than the text it was cut off. -/
theorem length_rest_gap {cs : List Char} {g : List Char × List Char} (h : gap? cs = some g) : g.2.length < cs.length := by
  have hl := congrArg List.length (gap?_append h)
  have hp := List.length_pos_iff.2 (gap?_ne_nil h)
  simp only [List.length_append] at hl
  omega

end HeaderAtlas
