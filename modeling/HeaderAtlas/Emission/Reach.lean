import HeaderAtlas.Emission.Dependency

/-!
# Order by reach

A type reaches another if it depends on it, directly or through others. A type that reaches another without being reached by it
goes behind it. Types that reach each other, and types that have nothing to do with each other, are not compared, so this is no
order to sort by: each type is instead placed before the first placed type that has to go behind it, and else at the end.
-/

namespace HeaderAtlas

/-- What is reached from the pending nodes inside a finite domain. A node that is found leaves the domain, so circles end. -/
def gather {α : Type} [DecidableEq α] (next : α → List α) (domain pending : List α) : List α :=
  match pending with
  | [] => []
  | a :: rest => if a ∈ domain then a :: gather next (domain.erase a) (next a ++ rest) else gather next domain rest
termination_by (domain.length, pending.length)
decreasing_by
  · rename_i h
    have := List.length_erase_of_mem h
    have := List.length_pos_of_mem h
    exact Prod.Lex.left _ _ (by omega)
  · exact Prod.Lex.right _ (Nat.lt_succ_self _)

namespace Catalog

/-- Every handle the catalog has given out. -/
def handles (c : Catalog) : List TypeId := (List.range c.records.length).map TypeId.mk

/-- The types reached from a type through one dependency or more. -/
def reachable (c : Catalog) (id : TypeId) : List TypeId := gather c.dependencies c.handles (c.dependencies id)

/-- What each of the types reaches. -/
def reachTable (c : Catalog) (types : List TypeId) : List (TypeId × List TypeId) :=
  types.map fun id => (c.canonical id, c.reachable (c.canonical id))

/-- By a reach table, the first type reaches the second. -/
def reaches (c : Catalog) (table : List (TypeId × List TypeId)) (a b : TypeId) : Bool :=
  match table.lookup (c.canonical a) with
  | some reached => reached.contains (c.canonical b)
  | none => false

/-- By a reach table, the first type has to go behind the second. -/
def goesBehind (c : Catalog) (table : List (TypeId × List TypeId)) (a b : TypeId) : Bool :=
  c.reaches table a b && !c.reaches table b a

end Catalog

/-- A type placed before the first one that has to go behind it, or else at the end. -/
def place (goesBehind : TypeId → TypeId → Bool) (id : TypeId) : List TypeId → List TypeId
  | [] => [id]
  | p :: rest => if goesBehind p id then id :: p :: rest else p :: place goesBehind id rest

/-- The types, placed one by one. -/
def Catalog.orderByReach (c : Catalog) (types : List TypeId) : List TypeId :=
  let table := c.reachTable types
  types.foldl (fun placed id => place (c.goesBehind table) id placed) []

end HeaderAtlas
