/-!
# Blanks, trimming and cutting

Header text is full of blanks that carry no meaning, and annotation values are cut at separators. A blank is any character
with the Unicode property `White_Space`; words and digits are ASCII. Everything here works on lists of characters, so that
what is kept and what is dropped can be stated by `takeWhile`, `dropWhile` and append.
-/

namespace HeaderAtlas.Text

/-- A blank: a character with the Unicode property `White_Space` (25 code points). -/
def isBlank (c : Char) : Bool :=
  let n := c.toNat
  (9 ≤ n && n ≤ 13) || n == 0x20 || n == 0x85 || n == 0xA0 || n == 0x1680 || (0x2000 ≤ n && n ≤ 0x200A) ||
    n == 0x2028 || n == 0x2029 || n == 0x202F || n == 0x205F || n == 0x3000

/-- The first character of a word: a letter or an underscore. -/
def isWordStart (c : Char) : Bool := c.isAlpha || c == '_'

/-- A character inside a word: a letter, a digit or an underscore. -/
def isWordChar (c : Char) : Bool := c.isAlphanum || c == '_'

/-- `cs` without the characters of class `p` at either end. -/
def trimBy (p : Char → Bool) (cs : List Char) : List Char := ((cs.dropWhile p).reverse.dropWhile p).reverse

/-- Text without the blanks at either end. -/
def trim (s : String) : String := String.ofList (trimBy isBlank s.toList)

/-- The pieces between the separators of class `p`; there is always at least one piece. -/
def splitBy (p : Char → Bool) : List Char → List (List Char)
  | [] => [[]]
  | c :: cs =>
    if p c then [] :: splitBy p cs
    else
      match splitBy p cs with
      | [] => [[c]]
      | piece :: pieces => (c :: piece) :: pieces

/-- What stands before and after the first `mark`, when there is one. -/
def cutFirst (mark : Char) (cs : List Char) : Option (List Char × List Char) :=
  match cs.dropWhile (· != mark) with
  | [] => none
  | _ :: after => some (cs.takeWhile (· != mark), after)

/-- A line without the carriage return that ends it. -/
def dropReturn (line : List Char) : List Char :=
  if line.getLast? = some '\r' then line.dropLast else line

/-- The lines of a text. A newline, or a carriage return with a newline, ends a line; text after the last newline is a line
of its own, taken as it stands, and an empty rest is none. -/
def lines (s : String) : List String :=
  let pieces := splitBy (· == '\n') s.toList
  let rest := pieces.getLast?.getD []
  (pieces.dropLast.map dropReturn ++ (if rest.isEmpty then [] else [rest])).map String.ofList

/-- Two texts are equal up to the case of ASCII letters. -/
def equalIgnoringCase (a b : List Char) : Bool := a.map Char.toLower == b.map Char.toLower

end HeaderAtlas.Text
