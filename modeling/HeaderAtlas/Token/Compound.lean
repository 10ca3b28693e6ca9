import HeaderAtlas.Token.Basic

/-!
# Primitive types of several words

A primitive type may be written in up to three words. The words are folded into one token, which carries the fixed-width name
the catalog knows the type by and a span from its first word to its last.
-/

namespace HeaderAtlas

/-- The fixed-width name for the words at the head of a token sequence, and how many words behind the first one belong to it. -/
def compoundName? (first : Option String) (second third : Option String) : Option (String × Nat) :=
  match first, second, third with
  | some "unsigned", some "char", _ => some ("uint8_t", 1)
  | some "unsigned", some "short", _ => some ("uint16_t", 1)
  | some "unsigned", some "int", _ => some ("uint32_t", 1)
  | some "unsigned", some "long", some "long" => some ("uint64_t", 2)
  | some "unsigned", some "long", _ => some ("uint64_t", 1)
  | some "signed", some "char", _ => some ("int8_t", 1)
  | some "short", _, _ => some ("int16_t", 0)
  | some "long", some "long", _ => some ("int64_t", 1)
  | some "long", _, _ => some ("int64_t", 0)
  | _, _, _ => none

/-- The words at the head of a token sequence that are one primitive type, as `compoundName?` says. -/
def compoundAt? (t : Token) (ts : List Token) : Option (String × Nat) :=
  compoundName? t.word? (ts.head?.bind Token.word?) ((ts.drop 1).head?.bind Token.word?)

/-- A token that stands for itself and the `n` tokens behind it. -/
def Token.fold (t : Token) (name : String) (folded : List Token) : Token :=
  { t with kind := .word name, stop := (folded.getLast?.map Token.stop).getD t.stop }

/-- The tokens with every primitive type of several words folded into one token. -/
def foldCompounds : List Token → List Token
  | [] => []
  | t :: ts =>
    match compoundAt? t ts with
    | some (name, n) => t.fold name (ts.take n) :: foldCompounds (ts.drop n)
    | none => t :: foldCompounds ts
termination_by ts => ts.length

end HeaderAtlas
