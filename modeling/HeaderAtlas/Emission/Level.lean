import HeaderAtlas.Emission.Dependency

/-!
# Order by level

Every listed type has a level, zero at first. In each round every type is raised above the listed types it depends on. There are
as many rounds as the most depended-on type has dependents, and one more, and none after a round that raised nothing. A longer
chain of dependencies that is listed from its end, or a circle, may be left with a type that is not above one it depends on.
-/

namespace HeaderAtlas

/-- For each listed type, the places in the list of the types it depends on. -/
abbrev LevelGraph : Type := List (List Nat)

namespace LevelGraph

/-- How many types depend on the one at a place. -/
def fanIn (g : LevelGraph) (j : Nat) : Nat := g.countP (·.contains j)

/-- The largest number of types that depend on one. -/
def maxFanIn (g : LevelGraph) : Nat := ((List.range g.length).map g.fanIn).foldl max 0

/-- How many rounds there are at most. -/
def rounds (g : LevelGraph) : Nat := g.maxFanIn + 1

end LevelGraph

/-- The level of a type raised above those at the given places. -/
def raisedLevel (levels : List Nat) (level : Nat) (places : List Nat) : Nat :=
  places.foldl (fun level j => max level (levels.getD j 0 + 1)) level

/-- The type at a place raised. -/
def raise (levels : List Nat) (entry : List Nat × Nat) : List Nat :=
  levels.set entry.2 (raisedLevel levels (levels.getD entry.2 0) entry.1)

/-- One round: each type raised, from the first to the last, the later ones above the new levels of the earlier. -/
def raiseAll (g : LevelGraph) (levels : List Nat) : List Nat := g.zipIdx.foldl raise levels

/-- The levels of listed types, and after which round nothing was left to raise, if that was seen. -/
structure Leveling where
  levels : List Nat
  settledAfter : Option Nat
  rounds : Nat
  deriving DecidableEq, Repr

/-- At most `n` more rounds, `done` being over. -/
def levelFrom (g : LevelGraph) : Nat → Nat → List Nat → Leveling
  | 0, _, levels => ⟨levels, none, g.rounds⟩
  | n + 1, done, levels =>
    let raised := raiseAll g levels
    if raised = levels then ⟨levels, some (done + 1), g.rounds⟩ else levelFrom g n (done + 1) raised

/-- The leveling of a graph. -/
def LevelGraph.level (g : LevelGraph) : Leveling := levelFrom g g.rounds 0 (List.replicate g.length 0)

namespace Catalog

/-- The places that the type at a place depends on: of each dependency that is listed and not primitive its first place, the
place itself left out. -/
def levelEdges (c : Catalog) (listed : List TypeId) (entry : TypeId × Nat) : List Nat :=
  let deps := (c.dependencies entry.1).filter fun d => !(c.get d).flags.isPrimitive
  (deps.filterMap fun d => listed.idxOf? d).filter (· != entry.2)

/-- The dependencies among listed types. -/
def levelGraph (c : Catalog) (types : List TypeId) : LevelGraph :=
  types.zipIdx.map (c.levelEdges (types.map c.canonical))

/-- The leveling of listed types. -/
def leveling (c : Catalog) (types : List TypeId) : Leveling := (c.levelGraph types).level

/-- The types by ascending level; on one level they keep their order. -/
def orderByLevel (c : Catalog) (types : List TypeId) : List TypeId :=
  ((types.zip (c.leveling types).levels).mergeSort fun a b => a.2 ≤ b.2).map (·.1)

end Catalog

end HeaderAtlas
