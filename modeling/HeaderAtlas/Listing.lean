import HeaderAtlas.Catalog.Signature
import HeaderAtlas.Catalog.Settlement
import HeaderAtlas.Emission.Order

/-!
# Listings

A catalog as text: each type with its entries, properties and methods, then the free functions, the globals and the names that
are only referred to.
-/

namespace HeaderAtlas

namespace Catalog

/-- A property in one line. -/
def propertyLine (c : Catalog) (p : Property) : String :=
  let length := match p.arrayLength with
    | some n => s!"[{n}]"
    | none => ""
  let value := match p.defaultText with
    | some text => " = " ++ text
    | none => ""
  c.typeText true p ++ " " ++ p.name ++ length ++ value

/-- A method in one line. -/
def methodLine (c : Catalog) (m : Method) : String := c.returnText m ++ " " ++ m.name ++ c.callText m

/-- What a type is called in a listing. -/
def kindWord (d : TypeDef) : String := if d.isEnum then "enum" else if d.flags.isClass then "class" else "struct"

/-- The line that a type begins with. -/
def typeLine (c : Catalog) (d : TypeDef) : String :=
  let bases := if d.bases.isEmpty then "" else " : " ++ ", ".intercalate (d.bases.map c.name)
  let parent := match d.containing with
    | some id => " (in " ++ c.name id ++ ")"
    | none => ""
  let traits := if d.traits.isEmpty then "" else " [" ++ Traits.text d.traits ++ "]"
  kindWord d ++ " " ++ d.name ++ bases ++ parent ++ traits

/-- The lines of a type. -/
def typeLines (c : Catalog) (id : TypeId) : List String :=
  let d := c.get id
  let members :=
    d.enumValues.map (fun v => v.name ++ " = " ++ toString v.value.toInt) ++ d.properties.map c.propertyLine ++
      d.methods.map c.methodLine
  c.typeLine d :: members.map ("    " ++ ·)

/-- The lines of a catalog: the given types in an order, then all that belongs to no type. -/
def listing (c : Catalog) (strategy : Strategy) (types : List TypeId) (unresolved : List String) : List String :=
  (strategy.apply c types).flatMap c.typeLines ++ c.functions.map (fun m => "function " ++ c.methodLine m) ++
    c.globals.map (fun p => "global " ++ c.propertyLine p) ++ unresolved.map ("external " ++ ·)

end Catalog

end HeaderAtlas
