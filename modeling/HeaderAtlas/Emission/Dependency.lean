import HeaderAtlas.Catalog.Basic

/-!
# Dependencies

Code made for a type has to come after the code of the types it names: its bases, the types of its properties, the types in the
signatures of its methods, and the template arguments of all these.
-/

namespace HeaderAtlas

namespace TypeDef

/-- Every handle a record names: bases, then properties, then methods. -/
def namedTypes (d : TypeDef) : List TypeId :=
  d.bases ++ d.properties.flatMap Property.types ++ d.methods.flatMap Method.signatureTypes

end TypeDef

/-- The types a type depends on directly, each once, in the order it first names them. -/
def Catalog.dependencies (c : Catalog) (id : TypeId) : List TypeId := ((c.get id).namedTypes.map c.canonical).eraseDups

end HeaderAtlas
