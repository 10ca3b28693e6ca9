import HeaderAtlas.Catalog.Basic

/-!
# Spelling and signatures

How the use of a type is spelled, when two signatures agree, and which declaration a virtual method overrides. Handles are
compared by the types they stand for.
-/

namespace HeaderAtlas

namespace Catalog

/-- The names of the numeric types. -/
def numericNames : List String :=
  ["short", "int", "unsigned", "uint32_t", "int8_t", "uint8_t", "int16_t", "uint16_t", "int64_t", "uint64_t", "float",
   "double", "size_t"]

/-- The names of the types that are lists. -/
def listNames : List String := ["std::array", "std::vector", "ResourceRefList"]

/-- The names of the types that are tables. -/
def tableNames : List String := ["std::map", "std::unordered_map"]

/-- The names of the types that refer to resources. -/
def resourceNames : List String := ["ResourceRef", "ResourceRefList"]

/-- The type is numeric, by its name. -/
def isNumeric (c : Catalog) (id : TypeId) : Bool := numericNames.contains (c.name id)

/-- The property is a list, by the name of its type. -/
def isList (c : Catalog) (p : Property) : Bool := listNames.contains (c.name p.type)

/-- The property is a table, by the name of its type. -/
def isTable (c : Catalog) (p : Property) : Bool := tableNames.contains (c.name p.type)

/-- The property refers to resources, by the name of its type. -/
def isResource (c : Catalog) (p : Property) : Bool := resourceNames.contains (c.name p.type)

/-! ## Spelling -/

/-- What stands before the name of a type. -/
def leadText (m : Modifiers) : String := if m.qualifiers.isConst then "const " else ""

/-- What stands behind the name of a type and its arguments. -/
def tailText (m : Modifiers) : String :=
  String.ofList (List.replicate m.shape.pointerDepth '*') ++ (if m.shape.isReference then "&" else "") ++
    if m.shape.isConstPointer then " const" else ""

/-- Arguments between angle brackets; no brackets when there are none. -/
def bracketed (args : List String) : String := if args.isEmpty then "" else "<" ++ ", ".intercalate args ++ ">"

mutual

/-- The spelling of a template argument. -/
def argText (c : Catalog) (withModifiers : Bool) : TemplateArg → String
  | .int value => toString value.toInt
  | .type { type, modifiers, templateArgs, .. } =>
    (if withModifiers then leadText modifiers else "") ++ c.name type ++ bracketed (c.argTexts withModifiers templateArgs) ++
      if withModifiers then tailText modifiers else ""

/-- The spellings of template arguments. -/
def argTexts (c : Catalog) (withModifiers : Bool) : List TemplateArg → List String
  | [] => []
  | a :: rest => c.argText withModifiers a :: c.argTexts withModifiers rest

end

/-- The spelling of the type of a property, such as `const std::vector<Foo*>&`; without modifiers only names and template
arguments are written. -/
def typeText (c : Catalog) (withModifiers : Bool) (p : Property) : String := c.argText withModifiers (.type p)

/-- The spelling of the type a method returns. -/
def returnText (c : Catalog) (m : Method) : String := c.typeText true m.returnValue

/-- The spelling of the parameters of a method, such as `(int, const Foo&) const`. -/
def callText (c : Catalog) (m : Method) : String :=
  "(" ++ ", ".intercalate (m.params.map (c.typeText true)) ++ ")" ++ if m.modifiers.qualifiers.isConst then " const" else ""

/-! ## Agreement -/

mutual

/-- Two template arguments agree. -/
def sameArg (c : Catalog) : TemplateArg → TemplateArg → Bool
  | .int x, .int y => x == y
  | .type { type := s, modifiers := m, templateArgs := as, .. }, .type { type := t, modifiers := n, templateArgs := bs, .. } =>
    m.qualifiers == n.qualifiers && m.shape == n.shape && c.same s t && c.sameArgs as bs
  | _, _ => false

/-- Two lists of template arguments agree, one by one. -/
def sameArgs (c : Catalog) : List TemplateArg → List TemplateArg → Bool
  | [], [] => true
  | a :: as, b :: bs => c.sameArg a b && c.sameArgs as bs
  | _, _ => false

end

/-- Two uses of a type agree: the type, its qualifiers, its shape and its template arguments. -/
def sameType (c : Catalog) (p q : Property) : Bool := c.sameArg (.type p) (.type q)

/-- Two lists of uses of types agree, one by one. -/
def sameTypes (c : Catalog) : List Property → List Property → Bool
  | [], [] => true
  | p :: ps, q :: qs => c.sameType p q && c.sameTypes ps qs
  | _, _ => false

/-- Two methods have the same signature, whatever their names. -/
def sameSignature (c : Catalog) (m n : Method) : Bool :=
  m.modifiers.qualifiers.isConst == n.modifiers.qualifiers.isConst && c.sameType m.returnValue n.returnValue &&
    c.sameTypes m.params n.params

/-- A place among the methods of a type. -/
structure MethodPlace where
  owner : TypeId
  index : Nat
  deriving DecidableEq, Repr

/-- The places of the methods of a type, with the methods. -/
def methodPlaces (c : Catalog) (id : TypeId) : List (MethodPlace × Method) :=
  (c.get id).methods.zipIdx.map fun m => (⟨c.canonical id, m.2⟩, m.1)

/-- The declaration in a direct base that a virtual method has the name and the signature of: the first one. -/
def overridden? (c : Catalog) (m : Method) : Option (MethodPlace × Method) :=
  match m.declaring with
  | none => none
  | some owner =>
    if m.modifiers.decorations.isVirtual then
      ((c.get owner).bases.flatMap c.methodPlaces).find? fun p => p.2.name == m.name && c.sameSignature p.2 m
    else none

/-- The method at a place overrides a declaration elsewhere. -/
def overrides (c : Catalog) (place : MethodPlace) (m : Method) : Bool :=
  match c.overridden? m with
  | some p => p.1 != place
  | none => false

/-- The type whose declaration a method overrides, or else its own. -/
def virtualOrigin? (c : Catalog) (m : Method) : Option TypeId := (((c.overridden? m).map (·.2)).getD m).declaring

end Catalog

end HeaderAtlas
