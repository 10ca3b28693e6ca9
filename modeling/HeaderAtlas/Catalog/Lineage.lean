import HeaderAtlas.Catalog.Basic

/-!
# Lineage

The bases of a type, of those bases, and so on. The primary chain follows the first base of each type; the ancestors are all
types reached through all bases. Bases may go in circles: every walk keeps what it has met and does not enter it again.
-/

namespace HeaderAtlas

namespace Catalog

/-- The type that the first base of a type stands for. -/
def primaryBase? (c : Catalog) (id : TypeId) : Option TypeId := (c.get id).primaryBase?.map c.canonical

/-- The primary bases above a type that have not been met, the nearest first; at most `n` of them. -/
def primaryChainFrom (c : Catalog) : Nat → List TypeId → TypeId → List TypeId
  | 0, _, _ => []
  | n + 1, met, id =>
    match c.primaryBase? id with
    | none => []
    | some base => if base ∈ met then [] else base :: c.primaryChainFrom n (base :: met) base

/-- The primary bases above a type, the nearest first, up to where they would repeat. There are no more of them than records. -/
def primaryChain (c : Catalog) (id : TypeId) : List TypeId := c.primaryChainFrom c.records.length [c.canonical id] id

/-- The top of the primary chain; a type without bases is its own. -/
def rootBase (c : Catalog) (id : TypeId) : TypeId := (c.primaryChain id).getLast?.getD (c.canonical id)

/-- The number of primary bases above a type. -/
def baseDepth (c : Catalog) (id : TypeId) : Nat := (c.primaryChain id).length

/-- What a walk over the bases has met, and the ancestors it has found, each behind its own. -/
structure Ancestry where
  met : List TypeId
  found : List TypeId
  deriving DecidableEq, Repr

/-- The walk entering a base: if it has not been met, what lies above it is walked first, by `above`, and then it is found. -/
def Ancestry.enter (above : TypeId → Ancestry → Ancestry) (a : Ancestry) (base : TypeId) : Ancestry :=
  if base ∈ a.met then a
  else
    let a := above base { a with met := base :: a.met }
    { a with found := a.found ++ [base] }

/-- The walk over all that lies above a type, at most `n` types high. -/
def ancestryFrom (c : Catalog) : Nat → TypeId → Ancestry → Ancestry
  | 0, _, a => a
  | n + 1, id, a => (c.get id).bases.foldl (fun a base => a.enter (c.ancestryFrom n) (c.canonical base)) a

/-- Every ancestor of a type, each one behind its own ancestors. A walk enters a record once, so it is no higher than there are
records. -/
def ancestors (c : Catalog) (id : TypeId) : List TypeId :=
  (c.ancestryFrom (c.records.length + 1) id ⟨[c.canonical id], []⟩).found

/-- The second type is an ancestor of the first. -/
def inherits (c : Catalog) (id target : TypeId) : Bool := (c.ancestors id).contains (c.canonical target)

/-- Some ancestor has this name. -/
def hasAncestorNamed (c : Catalog) (id : TypeId) (baseName : String) : Bool := (c.ancestors id).any fun b => c.name b == baseName

/-- The type declares a method of this name. -/
def hasMethod (c : Catalog) (id : TypeId) (name : String) : Bool := ((c.get id).methodIndex? name).isSome

/-- The type or one of its primary bases declares a method. -/
def hasAnyFunctions (c : Catalog) (id : TypeId) : Bool :=
  (c.canonical id :: c.primaryChain id).any fun t => !(c.get t).methods.isEmpty

end Catalog

end HeaderAtlas
