import HeaderAtlas.Number.Decimal

/-!
# The fewest digits that read back

A finite binary value is written with the fewest decimal digits that round back to it, and among those with the digits
nearest to it. The reals that round to a value form an interval around it, whose ends belong to it exactly when the
significand is even. For one digit, two digits and so on, the two decimal neighbours of the value with that many digits are
held against the interval in exact arithmetic; seventeen digits always suffice for the 64-bit format.

Two layouts of the digits are used: `Binary64.positional` never writes an exponent, and `Binary64.general` always shows a
point or an exponent, the latter for values below `10 ^ -4` and from `10 ^ 16` on.
-/

namespace HeaderAtlas.Number

/-- A positive value `num / den` together with the ends `low / den` and `high / den` of the interval that rounds to it. -/
structure Neighbourhood where
  num : Nat
  low : Nat
  high : Nat
  den : Nat
  /-- The ends themselves round to the value. -/
  closed : Bool
  deriving DecidableEq, Repr

/-- The interval of a positive finite value. Below a power of two the patterns lie twice as close. -/
def Binary.neighbourhood {f : Format} (x : Binary f) : Neighbourhood :=
  let parts := x.parts
  let m := parts.1
  let scale := Nat.pow 2 (parts.2 - 2).toNat
  let narrow := m == Nat.pow 2 f.fractionBits && f.leastExponent - f.fractionBits < parts.2
  { num := 4 * m * scale
    low := (4 * m - if narrow then 1 else 2) * scale
    high := (4 * m + 2) * scale
    den := Nat.pow 2 (2 - parts.2).toNat
    closed := m % 2 == 0 }

/-- `digits * 10 ^ exponent` lies in the interval. -/
def Neighbourhood.holds (b : Neighbourhood) (digits : Nat) (exponent : Int) : Bool :=
  let v := digits * Nat.pow 10 exponent.toNat * b.den
  let up := Nat.pow 10 (-exponent).toNat
  if b.closed then b.low * up ≤ v && v ≤ b.high * up else b.low * up < v && v < b.high * up

/-- The number of digits before the point of a positive value: `10 ^ (n - 1) ≤ num / den < 10 ^ n`. It is zero or negative
for values below one tenth or one. -/
def Neighbourhood.magnitude (b : Neighbourhood) : Int :=
  let n : Int := (digitCount b.num : Int) - digitCount b.den
  if b.den * Nat.pow 10 n.toNat ≤ b.num * Nat.pow 10 (-n).toNat then n + 1 else n

/-- Of the two neighbours of the value on the grid of `10 ^ exponent`, the nearest one that lies in the interval; of two
equally near ones the upper. -/
def Neighbourhood.candidate? (b : Neighbourhood) (exponent : Int) : Option Nat :=
  let num := b.num * Nat.pow 10 (-exponent).toNat
  let den := b.den * Nat.pow 10 exponent.toNat
  let below := num / den
  let ordered := if 2 * (num % den) < den then [below, below + 1] else [below + 1, below]
  ordered.find? (b.holds · exponent)

/-- The fewest digits for the value, trying `count` digits up to `count + fuel`. -/
def Neighbourhood.shortestFrom (b : Neighbourhood) : Nat → Nat → Nat × Int
  | 0, _ => (b.num / b.den, 0)
  | fuel + 1, count =>
    let exponent := b.magnitude - count
    match b.candidate? exponent with
    | some digits => (digits, exponent)
    | none => shortestFrom b fuel (count + 1)

/-- Digits without the zeros at their end; each one dropped raises the exponent. -/
def dropZeros : List Char → List Char := fun ds => (ds.reverse.dropWhile (· == '0')).reverse

/-- The shortest digits of a positive finite value, without zeros at the end, and the number of them that stand before the
point. -/
def Binary.shortest {f : Format} (x : Binary f) : List Char × Int :=
  let r := x.neighbourhood.shortestFrom (f.fractionBits / 3 + 2) 1
  let digits := Nat.toDigits 10 r.1
  (dropZeros digits, digits.length + r.2)

/-- Digits with a point after the first `point` of them, filled up with zeros on either side. `tail` is what an integral
value gets behind its digits. -/
def layOut (digits : List Char) (point : Int) (tail : List Char) : List Char :=
  if point ≤ 0 then ['0', '.'] ++ List.replicate (-point).toNat '0' ++ digits
  else
    let n := point.toNat
    if digits.length ≤ n then digits ++ List.replicate (n - digits.length) '0' ++ tail
    else digits.take n ++ '.' :: digits.drop n

/-- Digits with a point after the first one and a power of ten. -/
def layOutScientific (digits : List Char) (point : Int) : List Char :=
  let tail := digits.drop 1
  digits.take 1 ++ (if tail.isEmpty then [] else '.' :: tail) ++ 'e' :: (toString (point - 1)).toList

/-- A value in words or digits, the digits laid out by `body`. -/
def Binary.render {f : Format} (zero : List Char) (body : List Char → Int → List Char) (x : Binary f) : String :=
  if x.isUndefined then "NaN"
  else
    let text :=
      if x.isInfinite then "inf".toList
      else if x.magnitude = 0 then zero
      else
        let s := x.shortest
        body s.1 s.2
    String.ofList (if x.isNegative then '-' :: text else text)

/-- A value in positional digits: an integral value has no point. -/
def Binary64.positional (x : Binary64) : String :=
  Binary.render ['0'] (fun digits point => layOut digits point []) x

/-- A value that shows it is one: positional with at least one digit behind the point from `10 ^ -4` up to `10 ^ 16`, and
with a power of ten elsewhere. -/
def Binary64.general (x : Binary64) : String :=
  Binary.render ['0', '.', '0']
    (fun digits point =>
      if -3 ≤ point ∧ point ≤ 16 then layOut digits point ['.', '0'] else layOutScientific digits point) x

end HeaderAtlas.Number
