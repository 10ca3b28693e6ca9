import HeaderAtlas.Number.Decimal

/-!
# Values of traits

A trait's value is text. These readers say what it means as a truth value, an integer or a number; blanks at either end do
not count.
-/

namespace HeaderAtlas.Trait

open Number

/-- A truth value: `true` and `on`, in letters of either case, are true, and all else is false. -/
def readBool (s : String) : Bool :=
  let cs := (Text.trim s).toList
  Text.equalIgnoringCase cs "true".toList || Text.equalIgnoringCase cs "on".toList

/-- An integer of the signed 64-bit range, in decimal digits or behind `0x` or `0X` in hexadecimal ones. The sign of a
hexadecimal integer stands behind its mark. -/
def readInt? (s : String) : Option Int64 :=
  match (Text.trim s).toList with
  | '0' :: 'x' :: cs => readInt64? 16 cs
  | '0' :: 'X' :: cs => readInt64? 16 cs
  | cs => readInt64? 10 cs

/-- Text without the letter `f` or `F` at its end. -/
def dropFloatSuffix (cs : List Char) : List Char :=
  match cs.getLast? with
  | some c => if c == 'f' || c == 'F' then cs.dropLast else cs
  | none => cs

/-- A number of the 32-bit format; one letter `f` or `F` may stand at its end. -/
def readFloat? (s : String) : Option Binary32 :=
  (Numeral.read? (dropFloatSuffix (Text.trim s).toList)).map (Numeral.toBinary .single)

end HeaderAtlas.Trait
