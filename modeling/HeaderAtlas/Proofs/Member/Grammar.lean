import HeaderAtlas.Proofs.Cursor.Rendering

/-!
# The grammar of fields and methods

Fields and methods of a type as they are written, and the records they stand for. A type is used by its name with words and marks
around it; names are words that nothing else is read from (`Ordinary`). Each piece of syntax is spelled by items (`items`), in which
the values stand as they are written, and has a record as its meaning (`property`, `type`, `method`).
-/

namespace HeaderAtlas

/-! ## Names -/

/-- The words in front of a type that qualify what is declared. -/
def qualifierWords : List String :=
  ["static", "const", "constexpr", "mutable", "volatile", "transient", "virtual", "inline", "explicit", "extern"]

/-- The words of all markers. -/
def markerWords : List String :=
  [Marker.reflected, .property, .command, .global, .fake, .endFake, .virtualProperty, .bitFlags, .hidden].map Marker.word

/-- The words that mean something of their own where a type or a name is read. -/
def reservedWords : List String := markerWords ++ qualifierWords ++ ["class", "struct", "typename"] ++ nonTypeWords

/-- The name is an identifier that is read as a name and as nothing else. -/
structure Ordinary (options : ScanOptions) (name : String) : Prop where
  identifier : isIdentifier name = true
  not_folded : name ∉ foldedWords
  not_reserved : name ∉ reservedWords
  not_api : name ∉ options.apiWords
  not_convention : name ∉ options.conventions

instance (options : ScanOptions) (name : String) : Decidable (Ordinary options name) :=
  decidable_of_iff
    (isIdentifier name = true ∧ name ∉ foldedWords ∧ name ∉ reservedWords ∧ name ∉ options.apiWords ∧
      name ∉ options.conventions)
    ⟨fun ⟨h₁, h₂, h₃, h₄, h₅⟩ => ⟨h₁, h₂, h₃, h₄, h₅⟩, fun ⟨h₁, h₂, h₃, h₄, h₅⟩ => ⟨h₁, h₂, h₃, h₄, h₅⟩⟩

/-! ## Uses of types -/

/-- The use of a type: `const Name ** const &`, of which all but the name may be missing. -/
structure TypeUse (options : ScanOptions) where
  name : String
  isConst : Bool := false
  stars : Nat := 0
  /-- The pointer itself does not change. -/
  isConstPointer : Bool := false
  isReference : Bool := false
  ordinary : Ordinary options name
  stars_of_isConstPointer : isConstPointer = true → 0 < stars

namespace TypeUse

variable {options : ScanOptions}

/-- The use of a type by its name, or of pointers to it. -/
def pointer (name : String) (ordinary : Ordinary options name) (stars : Nat) (isConst : Bool := false) : TypeUse options where
  name := name
  isConst := isConst
  stars := stars
  ordinary := ordinary
  stars_of_isConstPointer := Bool.noConfusion

/-- The items in front of the name. -/
def frontItems (u : TypeUse options) : List Item := if u.isConst then [.word "const"] else []

/-- The items behind the name. -/
def backItems (u : TypeUse options) : List Item :=
  List.replicate u.stars (.mark '*') ++ (if u.isConstPointer then [.word "const"] else []) ++
    if u.isReference then [.mark '&'] else []

/-- The items of the use of a type. -/
def items (u : TypeUse options) : List Item := u.frontItems ++ .word u.name :: u.backItems

/-- What is said of the type besides its name. -/
def modifiers (u : TypeUse options) : Modifiers where
  qualifiers := { isConst := u.isConst }
  shape := { pointerDepth := u.stars, isReference := u.isReference, isConstPointer := u.isConstPointer }

/-- What is written for the use of a type can be read back. -/
theorem legible {items : List Item} (u : TypeUse options) (h : Legible items) : Legible (u.items ++ items) := by
  have hback : Legible (u.backItems ++ items) := by
    have hreference : Legible ((if u.isReference then [.mark '&'] else []) ++ items) := by
      split
      · exact h.mark (.of_lexeme rfl rfl)
      · exact h
    have hpointer : Legible ((if u.isConstPointer then [.word "const"] else []) ++
        ((if u.isReference then [.mark '&'] else []) ++ items)) := by
      split
      · exact hreference.word rfl (by decide)
      · exact hreference
    rw [backItems, List.append_assoc, List.append_assoc]
    induction u.stars with
    | zero => exact hpointer
    | succ n ih => exact ih.mark (.of_lexeme rfl rfl)
  have hname : Legible (.word u.name :: (u.backItems ++ items)) := hback.word u.ordinary.identifier u.ordinary.not_folded
  rw [TypeUse.items, List.append_assoc, frontItems]
  split
  · exact hname.word rfl (by decide)
  · exact hname

end TypeUse

/-! ## Fields -/

/-- What stands behind the name of a field. -/
inductive FieldEnd where
  | plain
  | array (length : Nat) (h : length < Nat.pow 2 63)
  | value (text : String) (h : IsValue text)

namespace FieldEnd

/-- The items behind the name of a field, with the `;` that ends it. -/
def items : FieldEnd → List Item
  | plain => [.mark ';']
  | array length _ => [.mark '[', .token (.int (.ofNat length)), .mark ']', .mark ';']
  | value text _ => [.mark '=', .value text, .mark ';']

/-- The length of an array. -/
def length? : FieldEnd → Option Nat
  | array length _ => some length
  | _ => none

/-- The initial value as it is written. -/
def value? : FieldEnd → Option String
  | value text _ => some text
  | _ => none

end FieldEnd

/-- A field. -/
structure FieldDeclaration (options : ScanOptions) where
  type : TypeUse options
  name : String
  ordinary : Ordinary options name
  ending : FieldEnd

namespace FieldDeclaration

variable {options : ScanOptions}

/-- The items of a field. -/
def items (f : FieldDeclaration options) : List Item := f.type.items ++ .word f.name :: f.ending.items

/-- The public property that a field is, if its type has this handle. -/
def property (f : FieldDeclaration options) (type : TypeId) : Property where
  name := f.name
  type := type
  modifiers := { f.type.modifiers with visibility := .publicAccess }
  arrayLength := f.ending.length?
  defaultText := f.ending.value?

end FieldDeclaration

/-- An annotated struct with its fields, none of which is of the struct's own type. -/
structure StructDeclaration (options : ScanOptions) where
  name : String
  ordinary : Ordinary options name
  fields : List (FieldDeclaration options)
  type_ne : ∀ f ∈ fields, f.type.name ≠ name

namespace StructDeclaration

variable {options : ScanOptions}

/-- The items of a struct: `REFLECTED() struct Name { fields };` -/
def items (d : StructDeclaration options) : List Item :=
  .word "REFLECTED" :: .mark '(' :: .mark ')' :: .word "struct" :: .word d.name :: .mark '{' ::
    (d.fields.flatMap FieldDeclaration.items ++ [.mark '}', .mark ';'])

/-- The type that a struct declares, if names have these handles. -/
def type (d : StructDeclaration options) (handle : String → TypeId) : TypeDef where
  name := d.name
  properties := d.fields.map fun f => f.property (handle f.type.name)

end StructDeclaration

/-! ## Methods -/

/-- The name of a method: a word, an operator with the tokens of its symbol as they are written, or the call operator. -/
inductive MethodName (options : ScanOptions) where
  | word (name : String) (ordinary : Ordinary options name)
  | operator (first : Token.Kind × String) (more : List (Token.Kind × String))
      (symbols : ∀ s ∈ first :: more, s.1 ≠ .mark '(' ∧ s.1 ≠ .mark ';') (not_convention : "operator" ∉ options.conventions)
  | call (not_convention : "operator" ∉ options.conventions)

namespace MethodName

variable {options : ScanOptions}

/-- The items of a name. -/
def items : MethodName options → List Item
  | word name _ => [.word name]
  | operator first more _ _ => .word "operator" :: (first :: more).map fun s => .written s.1 s.2
  | call _ => [.word "operator", .mark '(', .mark ')']

/-- The name as it is recorded. -/
def text : MethodName options → String
  | word name _ => name
  | operator first more _ _ => "operator" ++ (first :: more).foldr (fun s text => s.2 ++ text) ""
  | call _ => "operator()"

end MethodName

/-- A parameter. A `void` with nothing else is none. -/
structure ParameterDeclaration (options : ScanOptions) where
  type : TypeUse options
  name : Option String := none
  value : Option String := none
  ordinary : ∀ n, name = some n → Ordinary options n
  not_void : name = none → value = none → type.items ≠ [.word "void"]

namespace ParameterDeclaration

variable {options : ScanOptions}

/-- The items behind the type of a parameter. -/
def backItems (p : ParameterDeclaration options) : List Item :=
  p.name.toList.map .word ++ p.value.toList.flatMap fun text => [.mark '=', .value text]

/-- The items of a parameter. -/
def items (p : ParameterDeclaration options) : List Item := p.type.items ++ p.backItems

/-- What a parameter is recorded as, if its type has this handle. -/
def property (p : ParameterDeclaration options) (type : TypeId) : Property where
  name := p.name.getD ""
  type := type
  modifiers := p.type.modifiers
  defaultText := p.value

/-- The items of parameters, with commas between them. -/
def listItems : List (ParameterDeclaration options) → List Item
  | [] => []
  | [p] => p.items
  | p :: q :: ps => p.items ++ .mark ',' :: listItems (q :: ps)

end ParameterDeclaration

/-- A word behind the parameters of a method, or the `= 0` of one without a body. -/
inductive Specifier where
  | constant
  | override
  | final
  | zero
  deriving DecidableEq, Repr

namespace Specifier

/-- The items of a specifier. -/
def items : Specifier → List Item
  | constant => [.word "const"]
  | override => [.word "override"]
  | final => [.word "final"]
  | zero => [.mark '=', .token (.int 0)]

/-- The modifiers of a public method with these specifiers. -/
def modifiers (specifiers : List Specifier) : Modifiers where
  visibility := .publicAccess
  qualifiers := { isConst := decide (constant ∈ specifiers) }
  decorations := { isOverride := decide (override ∈ specifiers)
                   isFinal := decide (final ∈ specifiers)
                   isAbstract := decide (zero ∈ specifiers) }

end Specifier

/-- How a method ends: with a `;` or with a body, behind which a `;` may follow. -/
inductive MethodEnd where
  | semicolon
  | body
  deriving DecidableEq, Repr

namespace MethodEnd

/-- The items at the end of a method. -/
def items : MethodEnd → List Item
  | semicolon => [.mark ';']
  | body => [.mark '{', .nested, .mark '}']

/-- What is left to read behind a method, of what stands behind its items. -/
def behind : MethodEnd → List Token → List Token
  | semicolon, rest => rest
  | body, rest => Cursor.afterMark ';' rest

end MethodEnd

/-- The handles of names that are referred to one after the other, and the catalog behind that. -/
def Catalog.referAll (c : Catalog) : List String → List TypeId × Catalog
  | [] => ([], c)
  | name :: names =>
    let first := c.reference name
    let others := first.2.referAll names
    (first.1 :: others.1, others.2)

/-- A method. -/
structure MethodDeclaration (options : ScanOptions) where
  returns : TypeUse options
  name : MethodName options
  parameters : List (ParameterDeclaration options)
  specifiers : List Specifier
  ending : MethodEnd

/-- The items of the annotation of a method. -/
def commandItems : List Item := [.word "METHOD_CMD", .mark '(', .nested, .mark ')']

namespace MethodDeclaration

variable {options : ScanOptions}

/-- The items behind the name of a method. -/
def backItems (m : MethodDeclaration options) : List Item :=
  .mark '(' :: (ParameterDeclaration.listItems m.parameters ++
    .mark ')' :: (m.specifiers.flatMap Specifier.items ++ m.ending.items))

/-- The items of a method without its annotation. -/
def items (m : MethodDeclaration options) : List Item := m.returns.items ++ (m.name.items ++ m.backItems)

/-- The handles of the types of the parameters, as the reader refers to them one after the other, and the catalog behind that. -/
def handles (m : MethodDeclaration options) (c : Catalog) : List TypeId × Catalog := c.referAll (m.parameters.map (·.type.name))

/-- What a method of a type is recorded as, if the types of its result and parameters have these handles. -/
def method (m : MethodDeclaration options) (owner result : TypeId) (handles : List TypeId) (traits : Traits) : Method where
  name := m.name.text
  declaring := some owner
  returnValue := { name := "", type := result, modifiers := m.returns.modifiers }
  params := List.zipWith ParameterDeclaration.property m.parameters handles
  paramNames := m.parameters.map ParameterDeclaration.name
  defaults := m.parameters.map ParameterDeclaration.value
  modifiers := Specifier.modifiers m.specifiers
  traits := traits

end MethodDeclaration

end HeaderAtlas
