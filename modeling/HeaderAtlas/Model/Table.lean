/-!
# Tables by name

A table is a list of entries with a name each. The first entry of a name counts; `insert` replaces what was there, and
`insertNew` keeps it.
-/

namespace HeaderAtlas

/-- Entries by name. -/
abbrev Table (α : Type) : Type := List (String × α)

namespace Table

variable {α : Type}

/-- The entry of a name. -/
def get? (t : Table α) (name : String) : Option α := t.lookup name

/-- The table with the entry of a name set. -/
def insert (t : Table α) (name : String) (a : α) : Table α := (name, a) :: t.filter (·.1 != name)

/-- The table with the entry of a name added, unless it has one. -/
def insertNew (t : Table α) (name : String) (a : α) : Table α := if (t.get? name).isSome then t else t ++ [(name, a)]

end Table

end HeaderAtlas
