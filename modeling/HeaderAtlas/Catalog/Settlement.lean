import HeaderAtlas.Catalog.Basic

/-!
# Settlement

Settlement points every placeholder at the declared type of its name, and every superseded record at the one that replaced it;
then every declared type is entered with its bases as derived from them. A placeholder `a::b` whose full name is not declared
settles on a type declared as `b`. Names that were never declared stay placeholders: they are external.
-/

namespace HeaderAtlas

/-- What settlement did: how many redirects it set, and which names are still external. -/
structure Resolution where
  substituted : Nat
  unresolved : List String
  deriving DecidableEq, Repr

/-- The part of a name behind its last `::`. -/
def lastSegment? : List Char → Option (List Char)
  | [] => none
  | c :: cs =>
    match lastSegment? cs with
    | some tail => some tail
    | none =>
      match cs with
      | [] => none
      | d :: ds => if c == ':' && d == ':' then some ds else none

namespace Catalog

/-- The declared type that a name written in a header means: the one of its full name, or else of its last part. -/
def lookupWritten (c : Catalog) (name : String) : Option TypeId :=
  match c.lookup name with
  | some id => some id
  | none => (lastSegment? name.toList).bind fun tail => c.lookup (String.ofList tail)

/-- A redirect set, and counted. -/
def point (s : Catalog × Nat) (source target : TypeId) : Catalog × Nat :=
  ({ s.1 with redirect := s.1.redirect.set source.index target }, s.2 + 1)

/-- The record at a place settled, if it is a placeholder that stands for itself and its name is declared elsewhere. -/
def settlePlaceholder (s : Catalog × Nat) (i : Nat) : Catalog × Nat :=
  let id : TypeId := ⟨i⟩
  let c := s.1
  if c.next id ≠ id ∨ (c.record id).flags.isComplete then s
  else
    match c.lookupWritten (c.record id).name with
    | some found => if c.canonical found = id then s else point s id (c.canonical found)
    | none => s

/-- A superseded record pointed at the one that replaced it, if it still stands for itself. -/
def settleSuperseded (s : Catalog × Nat) (pair : TypeId × TypeId) : Catalog × Nat :=
  if s.1.next pair.1 = pair.1 then point s pair.1 pair.2 else s

/-- A type entered with a base as derived from it, once; a base that is the type itself or not declared is left alone. -/
def linkBase (id : TypeId) (c : Catalog) (base : TypeId) : Catalog :=
  let b := c.canonical base
  if b = id ∨ !c.isRegistered b then c
  else c.setRecord b fun d => if id ∈ d.derived then d else { d with derived := d.derived ++ [id] }

/-- A type entered with all its bases. -/
def linkBases (c : Catalog) (id : TypeId) : Catalog := (c.record id).bases.foldl (linkBase id) c

/-- The names that are only known as placeholders, in ascending order. -/
def unresolvedNames (c : Catalog) : List String :=
  let external := c.placeholders.filter fun p => !c.isComplete p.2
  (external.map fun p => c.name p.2).mergeSort

/-- The redirects of settlement, with their number. -/
def settleRedirects (c : Catalog) : Catalog × Nat :=
  let s := (List.range c.records.length).foldl settlePlaceholder (c, 0)
  s.1.superseded.foldl settleSuperseded s

/-- Settlement: first all redirects, then the derived types, so that these are entered with the records that stay. -/
def settle (c : Catalog) : Resolution × Catalog :=
  let s := c.settleRedirects
  let c := s.1.order.foldl linkBases s.1
  (⟨s.2, c.unresolvedNames⟩, c)

end Catalog

end HeaderAtlas
