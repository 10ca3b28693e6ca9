import HeaderAtlas.Number.Binary
import HeaderAtlas.Text.Blank

/-!
# Numbers written in decimal or hexadecimal digits

Readers of written numbers. Each takes the whole text or nothing: `none` says that the text is not of the form. Integers are
read exactly and then held against the signed 64-bit range; decimal fractions are kept as digits and a power of ten, and
rounded once when a binary format is chosen.
-/

namespace HeaderAtlas.Number

/-- The value of a digit in the given radix (at most 36), letters of either case. -/
def digit? (radix : Nat) (c : Char) : Option Nat :=
  let value : Option Nat :=
    if c.isDigit then some (c.toNat - '0'.toNat)
    else if c.isAlpha then some (c.toLower.toNat - 'a'.toNat + 10)
    else none
  value.filter (· < radix)

/-- Digits read onto a value already begun. -/
def readDigits? (radix : Nat) : Nat → List Char → Option Nat
  | value, [] => some value
  | value, c :: cs =>
    match digit? radix c with
    | some d => readDigits? radix (radix * value + d) cs
    | none => none

/-- A natural number: one digit or more, and nothing else. -/
def readNat? (radix : Nat) (cs : List Char) : Option Nat :=
  if cs.isEmpty then none else readDigits? radix 0 cs

/-- The sign in front of a number, and what follows it. -/
def splitSign : List Char → Bool × List Char
  | '-' :: cs => (true, cs)
  | '+' :: cs => (false, cs)
  | cs => (false, cs)

/-- An integer with an optional sign. -/
def readInt? (radix : Nat) (cs : List Char) : Option Int :=
  let s := splitSign cs
  (readNat? radix s.2).map fun n => if s.1 then -(n : Int) else n

/-- The signed 64-bit integer of this value, if there is one. -/
def toInt64? (n : Int) : Option Int64 :=
  if -Int.pow 2 63 ≤ n ∧ n < Int.pow 2 63 then some (Int64.ofInt n) else none

/-- An integer with an optional sign that fits the signed 64-bit range. -/
def readInt64? (radix : Nat) (cs : List Char) : Option Int64 := (readInt? radix cs).bind toInt64?

/-- The word of an unsigned 64-bit number, taken as signed; a number that needs more bits reads as zero. -/
def wordOrZero (n : Nat) : Int64 := if n < Nat.pow 2 64 then Int64.ofNat n else 0

/-- A written number with a fraction: `digits * 10 ^ exponent` under a sign, or one of the words for what is not finite. -/
inductive Numeral where
  | finite (negative : Bool) (digits : Nat) (exponent : Int)
  | infinite (negative : Bool)
  | undefined
  deriving DecidableEq, Repr

/-- The exponent part: nothing, or `e` or `E` with a signed number behind it. -/
def readExponent? : List Char → Option Int
  | [] => some 0
  | c :: cs => if c == 'e' || c == 'E' then readInt? 10 cs else none

/-- The digits behind the point, and what follows them; without a point there are none. -/
def splitFraction : List Char → List Char × List Char
  | '.' :: cs => (cs.takeWhile Char.isDigit, cs.dropWhile Char.isDigit)
  | cs => ([], cs)

/-- A decimal fraction without a sign: digits on at least one side of the point, then the exponent part. -/
def readFraction? (negative : Bool) (cs : List Char) : Option Numeral :=
  let whole := cs.takeWhile Char.isDigit
  let split := splitFraction (cs.dropWhile Char.isDigit)
  match readNat? 10 (whole ++ split.1), readExponent? split.2 with
  | some digits, some e => some (.finite negative digits (e - split.1.length))
  | _, _ => none

/-- A written number with an optional sign: a decimal fraction, or `inf`, `infinity` or `nan` in letters of either case. -/
def Numeral.read? (cs : List Char) : Option Numeral :=
  let s := splitSign cs
  let word (w : String) : Bool := Text.equalIgnoringCase s.2 w.toList
  if word "inf" || word "infinity" then some (.infinite s.1)
  else if word "nan" then some .undefined
  else readFraction? s.1 s.2

/-- How many decimal digits a number has. -/
def digitCount (n : Nat) : Nat := (Nat.toDigits 10 n).length

/-- Powers of ten beyond this one are out of reach of both formats, so that the magnitude alone decides. -/
def reach : Int := 400

/-- `digits * 10 ^ exponent` rounded to the format. Far outside the format's range the number of digits and the exponent
decide, and the power of ten is not computed. -/
def Binary.ofDecimal (f : Format) (digits : Nat) (exponent : Int) : Binary f :=
  let scale := (digitCount digits : Int) + exponent
  if digits = 0 then ⟨0⟩
  else if reach < scale then .infinite f
  else if scale < -reach then ⟨0⟩
  else .ofRatio f (digits * Nat.pow 10 exponent.toNat) (Nat.pow 10 (-exponent).toNat)

/-- The value of the format that a written number stands for. -/
def Numeral.toBinary (f : Format) : Numeral → Binary f
  | .finite negative digits exponent => (Binary.ofDecimal f digits exponent).signed negative
  | .infinite negative => (Binary.infinite f).signed negative
  | .undefined => .undefined f

end HeaderAtlas.Number
