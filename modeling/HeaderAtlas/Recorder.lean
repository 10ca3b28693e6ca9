import HeaderAtlas.Catalog.Settlement
import HeaderAtlas.Emission.Order
import HeaderAtlas.Event

/-!
# Keeping a log

A recorder is a catalog with the events of the work on it. Its operations are those of the catalog; what they note does not
change what they do.
-/

namespace HeaderAtlas

/-- A catalog, and what happened to it from the first event to the last. -/
structure Recorder where
  catalog : Catalog
  log : Array Event := #[]
  deriving Repr

namespace Recorder

/-- An event noted. -/
def note (r : Recorder) (e : Event) : Recorder := { r with log := r.log.push e }

/-- A type declared. -/
def register (r : Recorder) (d : TypeDef) : TypeId × Recorder :=
  let s := r.catalog.register d
  let r := if (r.catalog.lookup d.name).isSome then r.note (.registeredTwice d.name) else r
  (s.1, { r with catalog := s.2 }.note (.registered d.name s.1))

/-- The placeholder of a name. -/
def placeholder (r : Recorder) (name : String) : TypeId × Recorder :=
  let s := r.catalog.placeholder name
  let r := if (r.catalog.placeholders.get? name).isSome then r else r.note (.forwardReference name s.1)
  (s.1, { r with catalog := s.2 })

/-- The declared type of a name, or else its placeholder. -/
def reference (r : Recorder) (name : String) : TypeId × Recorder :=
  match r.catalog.lookup name with
  | some id => (id, r)
  | none => r.placeholder name

/-- The catalog changed without an event. -/
def change (r : Recorder) (f : Catalog → Catalog) : Recorder := { r with catalog := f r.catalog }

/-- The catalog settled. -/
def settle (r : Recorder) : Resolution × Recorder :=
  let s := r.catalog.settle
  let names := s.1.unresolved
  let r := { r with catalog := s.2 }.note (.settled s.1.substituted names.length)
  (s.1, if names.isEmpty then r else r.note (.externalTypes names))

/-- The levels of listed types. -/
def leveling (r : Recorder) (types : List TypeId) : Leveling × Recorder :=
  let l := r.catalog.leveling types
  match l.settledAfter with
  | some round => (l, r.note (.levelsSettled round l.rounds))
  | none => (l, r)

/-- Types in an order. -/
def order (r : Recorder) (s : Strategy) (types : List TypeId) : List TypeId × Recorder :=
  let r' := match s with
    | .leveling => (r.leveling types).2
    | _ => r
  (s.apply r.catalog types, r')

end Recorder

end HeaderAtlas
