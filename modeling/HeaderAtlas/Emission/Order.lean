import HeaderAtlas.Catalog.Lineage
import HeaderAtlas.Emission.Reach
import HeaderAtlas.Emission.Level

/-!
# Orders of emission

The orders in which types can be listed, by name.
-/

namespace HeaderAtlas

/-- The types by ascending number of primary bases; with as many of them they keep their order. -/
def Catalog.orderByInheritance (c : Catalog) (types : List TypeId) : List TypeId :=
  types.mergeSort fun a b => c.baseDepth a ≤ c.baseDepth b

/-- How to order types. -/
inductive Strategy where
  /-- As they are listed. -/
  | registration
  | comparator
  | leveling
  | inheritance
  deriving DecidableEq, Repr, Inhabited

namespace Strategy

/-- The name of an order. -/
def name : Strategy → String
  | registration => "registration"
  | comparator => "comparator"
  | leveling => "leveling"
  | inheritance => "inheritance"

/-- The order of a name. -/
def ofName? (name : String) : Option Strategy :=
  [registration, comparator, leveling, inheritance].find? fun s => s.name == name

/-- The types in an order. -/
def apply (s : Strategy) (c : Catalog) (types : List TypeId) : List TypeId :=
  match s with
  | registration => types
  | comparator => c.orderByReach types
  | leveling => c.orderByLevel types
  | inheritance => c.orderByInheritance types

end Strategy

/-- What is said of a name that no order has. -/
def unknownOrderText (name : String) : String := "unknown order '" ++ name ++ "'"

end HeaderAtlas
