/-!
# Binary floating point values

A value of an interchange format is kept by its bit pattern, so that two values are equal exactly when their patterns are.
A positive ratio of natural numbers is rounded once, to the nearest pattern, a tie going to the even one. Nothing here uses
the machine's own floating point: all arithmetic is exact.
-/

namespace HeaderAtlas.Number

/-- An interchange format: the widths of its fraction and of its exponent field. -/
structure Format where
  fractionBits : Nat
  exponentBits : Nat
  deriving DecidableEq, Repr

/-- The 64-bit format. -/
def Format.double : Format := ⟨52, 11⟩

/-- The 32-bit format. -/
def Format.single : Format := ⟨23, 8⟩

/-- The number of bits of a pattern. -/
def Format.width (f : Format) : Nat := f.fractionBits + f.exponentBits + 1

/-- The pattern of the sign alone: minus zero. -/
def Format.signBit (f : Format) : Nat := Nat.pow 2 (f.fractionBits + f.exponentBits)

/-- The pattern of positive infinity: the exponent field full, the fraction empty. -/
def Format.infinity (f : Format) : Nat := (Nat.pow 2 f.exponentBits - 1) * Nat.pow 2 f.fractionBits

/-- The least exponent of a normal value. -/
def Format.leastExponent (f : Format) : Int := 2 - Int.pow 2 (f.exponentBits - 1)

/-- A value of the format, by its bit pattern. -/
structure Binary (f : Format) where
  bits : Nat
  deriving DecidableEq, Repr

instance {f : Format} : Inhabited (Binary f) := ⟨⟨0⟩⟩

/-- A value of the 64-bit format. -/
abbrev Binary64 : Type := Binary .double

/-- A value of the 32-bit format. -/
abbrev Binary32 : Type := Binary .single

/-- The same magnitude with a sign put to it. -/
def Binary.signed {f : Format} (negative : Bool) (x : Binary f) : Binary f :=
  if negative then ⟨x.bits + f.signBit⟩ else x

/-- The positive infinity. -/
def Binary.infinite (f : Format) : Binary f := ⟨f.infinity⟩

/-- The value that is no number, in its quiet positive pattern. -/
def Binary.undefined (f : Format) : Binary f := ⟨f.infinity + Nat.pow 2 (f.fractionBits - 1)⟩

/-- The sign of a value. -/
def Binary.isNegative {f : Format} (x : Binary f) : Bool := f.signBit ≤ x.bits

/-- The pattern without its sign. -/
def Binary.magnitude {f : Format} (x : Binary f) : Nat := x.bits % f.signBit

/-- The value is no number. -/
def Binary.isUndefined {f : Format} (x : Binary f) : Bool := f.infinity < x.magnitude

/-- The value is an infinity. -/
def Binary.isInfinite {f : Format} (x : Binary f) : Bool := x.magnitude = f.infinity

/-- `num / den` rounded to the nearest natural number, a tie going to the even one. -/
def divNearest (num den : Nat) : Nat :=
  let q := num / den
  let twice := 2 * (num % den)
  if twice < den then q else if den < twice then q + 1 else q + q % 2

/-- The exponent of the power of two at or below `num / den`, for a positive ratio. -/
def ratioLog2 (num den : Nat) : Int :=
  let guess : Int := (num.log2 : Int) - den.log2
  if num * Nat.pow 2 (-guess).toNat < den * Nat.pow 2 guess.toNat then guess - 1 else guess

/-- The value of the format nearest to `num / den`, a tie going to the even pattern; beyond the largest finite value it is
the infinity. The significand is added to the exponent field as it stands: its leading bit carries into the field, and so does
a significand that rounds up to the next power of two. -/
def Binary.ofRatio (f : Format) (num den : Nat) : Binary f :=
  if num = 0 then ⟨0⟩
  else
    let e := max (ratioLog2 num den) f.leastExponent
    let unit := e - f.fractionBits
    let significand := divNearest (num * Nat.pow 2 (-unit).toNat) (den * Nat.pow 2 unit.toNat)
    ⟨min ((e - f.leastExponent).toNat * Nat.pow 2 f.fractionBits + significand) f.infinity⟩

/-- The value of the format nearest to an integer. -/
def Binary.ofInt (f : Format) (n : Int) : Binary f := (Binary.ofRatio f n.natAbs 1).signed (n < 0)

/-- A finite magnitude as `significand * 2 ^ exponent`. -/
def Binary.parts {f : Format} (x : Binary f) : Nat × Int :=
  let field := x.magnitude / Nat.pow 2 f.fractionBits
  let fraction := x.magnitude % Nat.pow 2 f.fractionBits
  let least := f.leastExponent - f.fractionBits
  if field = 0 then (fraction, least) else (fraction + Nat.pow 2 f.fractionBits, least + (field - 1 : Nat))

/-- The pattern in lower-case hexadecimal digits, as many as the format's width asks for. -/
def Binary.hex {f : Format} (x : Binary f) : String :=
  let digits := Nat.toDigits 16 x.bits
  String.ofList (List.replicate (f.width / 4 - digits.length) '0' ++ digits)

end HeaderAtlas.Number
