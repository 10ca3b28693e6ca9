import HeaderAtlas.Trait.Value

/-!
# Traits

An annotation carries an ordered list of traits: keys, each with a value or without. A key may stand several times, so a list
answers both for the first entry of a key and for all of them.
-/

namespace HeaderAtlas

/-- A key of an annotation with its value, if it has one. -/
structure Trait where
  key : String
  value : Option String
  deriving DecidableEq, Repr

/-- The traits of an annotation, in the order they were written. -/
abbrev Traits : Type := List Trait

namespace Traits

open Number

/-- Some entry has the key. -/
def has (ts : Traits) (key : String) : Bool := ts.any (·.key == key)

/-- The value of the first entry with the key; an entry without a value reads as empty text. -/
def get? (ts : Traits) (key : String) : Option String := (ts.find? (·.key == key)).map (·.value.getD "")

/-- The value of the first entry with the key, if it is there and not empty. -/
def filled? (ts : Traits) (key : String) : Option String := (ts.get? key).filter (· != "")

/-- The value of a key, or `default` when it is missing or empty. -/
def getOr (ts : Traits) (key default : String) : String := (ts.filled? key).getD default

/-- The truth value of a key, or `default` when it is missing or empty. -/
def getBool (ts : Traits) (key : String) (default : Bool) : Bool := ((ts.filled? key).map Trait.readBool).getD default

/-- The integer of a key, or `default` when it is missing or no integer. -/
def getInt (ts : Traits) (key : String) (default : Int64) : Int64 := ((ts.get? key).bind Trait.readInt?).getD default

/-- The number of a key, or `default` when it is missing or no number. -/
def getFloat (ts : Traits) (key : String) (default : Binary32) : Binary32 :=
  ((ts.get? key).bind Trait.readFloat?).getD default

/-- All values of a key: those of every entry, each cut at `;`, without blanks at the ends and without empty ones. -/
def getList (ts : Traits) (key : String) : List String :=
  let values := ts.filterMap fun t => if t.key == key then t.value else none
  let pieces := values.flatMap fun v => Text.splitBy (· == ';') v.toList
  ((pieces.map (Text.trimBy Text.isBlank)).filter (!·.isEmpty)).map String.ofList

/-- The two numbers of a key written `low:high`. -/
def getRange? (ts : Traits) (key : String) : Option (Binary32 × Binary32) := do
  let value ← ts.get? key
  let (low, high) ← Text.cutFirst ':' value.toList
  return (← Trait.readFloat? (String.ofList low), ← Trait.readFloat? (String.ofList high))

/-- The entries as they would be listed in an annotation, without quotes. -/
def text (ts : Traits) : String :=
  ", ".intercalate (ts.map fun t =>
    match t.value with
    | some value => t.key ++ "=" ++ value
    | none => t.key)

end Traits

/-- A named field of `α`, and how a written value is put into it. -/
structure Field (α : Type) where
  name : String
  set : α → String → α

namespace Traits

/-- One assignment `field = value`, quotes around the value dropped; without `=`, or for a field that is not listed, nothing
changes. -/
def assign {α : Type} (fields : List (Field α)) (x : α) (assignment : List Char) : α :=
  match Text.cutFirst '=' assignment with
  | none => x
  | some (name, value) =>
    let name := String.ofList (Text.trimBy Text.isBlank name)
    let value := String.ofList (Text.trimBy (· == '"') (Text.trimBy Text.isBlank value))
    match fields.find? (·.name == name) with
    | some f => f.set x value
    | none => x

/-- A value filled from a key written `field = value; field = value`. Assignments end at `;` or `,`, and `~` and the backtick
stand for a quote. -/
def fill? {α : Type} (fields : List (Field α)) (empty : α) (ts : Traits) (key : String) : Option α :=
  (ts.get? key).map fun value =>
    let cs := value.toList.map fun c => if c == '~' || c == '\x60' then '"' else c
    (Text.splitBy (fun c => c == ';' || c == ',') cs).foldl (assign fields) empty

end Traits

/-- Bounds and step of a slider. -/
structure NumericRange where
  min : Number.Binary32
  max : Number.Binary32
  step : Number.Binary32
  deriving DecidableEq, Repr

/-- The range of all zeros. -/
def NumericRange.zero : NumericRange := ⟨⟨0⟩, ⟨0⟩, ⟨0⟩⟩

/-- The fields of a range; a value that is no number leaves its field as it was. -/
def NumericRange.fields : List (Field NumericRange) :=
  [⟨"min", fun r v => { r with min := (Trait.readFloat? v).getD r.min }⟩,
   ⟨"max", fun r v => { r with max := (Trait.readFloat? v).getD r.max }⟩,
   ⟨"step", fun r v => { r with step := (Trait.readFloat? v).getD r.step }⟩]

/-- The range a key is filled with. -/
def Traits.getNumericRange? (ts : Traits) (key : String) : Option NumericRange :=
  ts.fill? NumericRange.fields NumericRange.zero key

end HeaderAtlas
