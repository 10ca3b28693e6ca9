import HeaderAtlas.Model.Modifiers
import HeaderAtlas.Trait.Basic

/-!
# Records

What a catalog holds: type records with their properties, methods and enum values. A record names other types by handle only,
so records may refer to each other in any order, in circles, and before what they refer to is declared.
-/

namespace HeaderAtlas

/-- A handle to a type: its place in the catalog. -/
structure TypeId where
  index : Nat
  deriving DecidableEq, Repr, Inhabited

mutual

/-- A field, a parameter, a return value or a template argument: a use of a type under a name. -/
structure Property where
  name : String
  type : TypeId
  modifiers : Modifiers := {}
  templateArgs : List TemplateArg := []
  /-- The enum whose values name the bits of the field. -/
  bitSource : Option TypeId := none
  /-- The length of a fixed array; zero when it could not be told. -/
  arrayLength : Option Nat := none
  /-- The initial value as it is written. -/
  defaultText : Option String := none
  traits : Traits := []

/-- An argument of a template: an integer or a use of a type. -/
inductive TemplateArg where
  | int (value : Int64)
  | type (property : Property)

end

deriving instance Repr for Property
deriving instance Repr for TemplateArg

instance : Inhabited Property := ⟨{ name := "", type := default }⟩

/-- A method of a type or a free function. -/
structure Method where
  name : String
  /-- The type it is declared in; none for a free function. -/
  declaring : Option TypeId
  returnValue : Property
  params : List Property := []
  paramNames : List (Option String) := []
  defaults : List (Option String) := []
  modifiers : Modifiers := {}
  traits : Traits := []
  apiWord : Option String := none
  callingConvention : Option String := none
  deriving Repr

/-- What a type is. -/
structure TypeFlags where
  /-- Declared, and not only referred to. -/
  isComplete : Bool := true
  isClass : Bool := false
  isPrimitive : Bool := false
  /-- Known from the start, never read from a header. -/
  isInternal : Bool := false
  isTemplate : Bool := false
  isAbstract : Bool := false
  isFinal : Bool := false
  /-- A small aggregate of numbers: a vector, a rectangle, a colour. -/
  isVector : Bool := false
  isScopedEnum : Bool := false
  deriving DecidableEq, Repr

/-- A named value of an enum. -/
structure EnumValue where
  name : String
  value : Int64
  deriving DecidableEq, Repr

/-- A type: a struct or class, an enum, a primitive, a template, or a name that was only referred to. -/
structure TypeDef where
  name : String
  flags : TypeFlags := {}
  apiWord : Option String := none
  /-- The code of the type in variant values. -/
  variantCode : Option String := none
  /-- The first one is the primary base. -/
  bases : List TypeId := []
  /-- The types that have this one as a base; filled by settlement only. -/
  derived : List TypeId := []
  /-- The type this one is declared in. -/
  containing : Option TypeId := none
  /-- The types declared in this one. -/
  subTypes : List TypeId := []
  templateElement : Option TypeId := none
  enumUnderlying : Option TypeId := none
  enumValues : List EnumValue := []
  properties : List Property := []
  methods : List Method := []
  traits : Traits := []
  deriving Repr

instance : Inhabited TypeDef := ⟨{ name := "" }⟩

/-- A record that holds a name only. -/
def TypeDef.placeholder (name : String) : TypeDef := { name, flags := { isComplete := false } }

/-- A type with at least one enum value is an enum. -/
def TypeDef.isEnum (d : TypeDef) : Bool := !d.enumValues.isEmpty

/-- The first base. -/
def TypeDef.primaryBase? (d : TypeDef) : Option TypeId := d.bases.head?

/-- The first property of this name. -/
def TypeDef.property? (d : TypeDef) (name : String) : Option Property := d.properties.find? (·.name == name)

/-- The place of the first method of this name. -/
def TypeDef.methodIndex? (d : TypeDef) (name : String) : Option Nat := d.methods.findIdx? (·.name == name)

/-- The value of the first enum entry of this name. -/
def TypeDef.enumValue? (d : TypeDef) (name : String) : Option Int64 :=
  (d.enumValues.find? (·.name == name)).map EnumValue.value

mutual

/-- The handles in a template argument: that of the type it uses, then those in its own arguments. -/
def TemplateArg.types : TemplateArg → List TypeId
  | .int _ => []
  | .type { type, templateArgs, .. } => type :: typesOfArgs templateArgs

/-- The handles in template arguments, from the first to the last. -/
def typesOfArgs : List TemplateArg → List TypeId
  | [] => []
  | a :: rest => a.types ++ typesOfArgs rest

end

/-- The handles in the template arguments of a property, at any depth. -/
def Property.templateTypes (p : Property) : List TypeId := typesOfArgs p.templateArgs

/-- The handles in a use of a type: the type itself, then those in its template arguments. -/
def Property.types (p : Property) : List TypeId := p.type :: p.templateTypes

/-- The handles in a signature, the return value first. -/
def Method.signatureTypes (m : Method) : List TypeId := m.returnValue.types ++ m.params.flatMap Property.types

end HeaderAtlas
