import HeaderAtlas.Model.Record
import HeaderAtlas.Model.Table

/-!
# The catalog of types

Records are kept in the order they were made and are addressed by handle; none is ever moved or dropped. A table of redirects,
one for each record and at first to itself, says which record stands for which. A name that is referred to before it is
declared gets one placeholder record, shared by all who refer to it; settlement (`HeaderAtlas.Catalog.Settlement`) redirects
it once the name is declared. A name that is declared twice belongs to the later declaration.

A handle that the catalog did not give out reads as an empty record.
-/

namespace HeaderAtlas

/-- All that is known of the types of a session, with the free functions and globals. -/
structure Catalog where
  records : List TypeDef := []
  /-- For each record, the one that stands for it as far as is known. -/
  redirect : List TypeId := []
  /-- The declared types by name. -/
  names : Table TypeId := []
  /-- The declared types in the order of their declaration, those declared again left out. -/
  order : List TypeId := []
  /-- The placeholders by name. -/
  placeholders : Table TypeId := []
  /-- Which record was declared again, and the record of the later declaration. -/
  superseded : List (TypeId × TypeId) := []
  /-- The value of every enum entry by its name; the first declaration of a name counts. -/
  literals : Table Int64 := []
  functions : List Method := []
  globals : List Property := []
  deriving Repr

namespace Catalog

/-- The catalog without any type. -/
def empty : Catalog := {}

/-- A new record, redirected to itself. -/
def alloc (c : Catalog) (d : TypeDef) : TypeId × Catalog :=
  let id : TypeId := ⟨c.records.length⟩
  (id, { c with records := c.records ++ [d], redirect := c.redirect ++ [id] })

/-- The declared type of a name. -/
def lookup (c : Catalog) (name : String) : Option TypeId := c.names.get? name

/-- The entries of an enum added to the literals; a name that is there keeps its value. -/
def defineLiterals (literals : Table Int64) (values : List EnumValue) : Table Int64 :=
  values.foldl (fun t v => t.insertNew v.name v.value) literals

/-- The record a name was declared with before is superseded by a new one. -/
def supersede (c : Catalog) (old new : TypeId) : Catalog :=
  { c with superseded := c.superseded ++ [(old, new)], order := c.order.filter (· != old) }

/-- A declared type. From now on its name means this record; a record the name had before is superseded. -/
def register (c : Catalog) (d : TypeDef) : TypeId × Catalog :=
  let old := c.lookup d.name
  let (id, c) := c.alloc d
  let c := { c with literals := defineLiterals c.literals d.enumValues, names := c.names.insert d.name id }
  let c := match old with
    | some old => c.supersede old id
    | none => c
  (id, { c with order := c.order ++ [id] })

/-- The placeholder of a name, made on first use. -/
def placeholder (c : Catalog) (name : String) : TypeId × Catalog :=
  match c.placeholders.get? name with
  | some id => (id, c)
  | none =>
    let (id, c) := c.alloc (.placeholder name)
    (id, { c with placeholders := c.placeholders.insert name id })

/-- The declared type of a name, or else its placeholder. -/
def reference (c : Catalog) (name : String) : TypeId × Catalog :=
  match c.lookup name with
  | some id => (id, c)
  | none => c.placeholder name

/-- The record a handle is redirected to, in one step. -/
def next (c : Catalog) (id : TypeId) : TypeId := c.redirect[id.index]?.getD id

/-- The record reached in at most so many redirects. -/
def follow (c : Catalog) : Nat → TypeId → TypeId
  | 0, id => id
  | n + 1, id => if c.next id = id then id else c.follow n (c.next id)

/-- The record that stands for a handle: the end of its redirects. -/
def canonical (c : Catalog) (id : TypeId) : TypeId := c.follow c.redirect.length id

/-- The record at a place of the catalog. -/
def record (c : Catalog) (id : TypeId) : TypeDef := c.records[id.index]?.getD default

/-- The record that stands for a handle. -/
def get (c : Catalog) (id : TypeId) : TypeDef := c.record (c.canonical id)

/-- The catalog with the record at a place changed. -/
def setRecord (c : Catalog) (id : TypeId) (f : TypeDef → TypeDef) : Catalog :=
  { c with records := c.records.modify id.index f }

/-- The catalog with the record that stands for a handle changed. -/
def edit (c : Catalog) (id : TypeId) (f : TypeDef → TypeDef) : Catalog := c.setRecord (c.canonical id) f

/-- The name of the type a handle stands for. -/
def name (c : Catalog) (id : TypeId) : String := (c.get id).name

/-- Two handles stand for the same type. -/
def same (c : Catalog) (a b : TypeId) : Bool := c.canonical a == c.canonical b

/-- The type a handle stands for has been declared. -/
def isComplete (c : Catalog) (id : TypeId) : Bool := (c.get id).flags.isComplete

/-- The type a handle stands for is the one its name means. -/
def isRegistered (c : Catalog) (id : TypeId) : Bool := c.lookup (c.get id).name == some (c.canonical id)

/-- The value of the enum entry of this name. -/
def literal? (c : Catalog) (name : String) : Option Int64 := c.literals.get? name

/-- The declared type of a name, as a record. -/
def find? (c : Catalog) (name : String) : Option TypeDef := (c.lookup name).map c.get

/-- A type that was read from a header: no primitive, template or internal type. -/
def isUserType (c : Catalog) (id : TypeId) : Bool :=
  let flags := (c.get id).flags
  !flags.isPrimitive && !flags.isTemplate && !flags.isInternal

/-- The declared types that were read from headers, in the order of their declaration. -/
def userTypes (c : Catalog) : List TypeId := c.order.filter c.isUserType

/-- A free function added. -/
def addFunction (c : Catalog) (m : Method) : Catalog := { c with functions := c.functions ++ [m] }

/-- A global added. -/
def addGlobal (c : Catalog) (p : Property) : Catalog := { c with globals := c.globals ++ [p] }

end Catalog

end HeaderAtlas
