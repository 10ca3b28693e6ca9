/-!
# Modifiers of declarations

What may be said of a member besides its name and type, in four independent groups: who may see it, how it is stored, what
pointer or reference it is, and which decorations were written on it.
-/

namespace HeaderAtlas

/-- Who may see a member. Free functions and globals are public; parameters and template arguments do not say. -/
inductive Visibility where
  | unstated
  | publicAccess
  | protectedAccess
  | privateAccess
  deriving DecidableEq, Repr

/-- Storage and qualification of a type. -/
structure Qualifiers where
  isConst : Bool := false
  isConstexpr : Bool := false
  isMutable : Bool := false
  isVolatile : Bool := false
  isStatic : Bool := false
  /-- Left out when the owner is stored. -/
  isTransient : Bool := false
  deriving DecidableEq, Repr

/-- The pointer or reference a type is used through. -/
structure Shape where
  pointerDepth : Nat := 0
  isReference : Bool := false
  /-- The pointer itself does not change: `T* const`. -/
  isConstPointer : Bool := false
  deriving DecidableEq, Repr

/-- There is at least one pointer. -/
def Shape.isPointer (s : Shape) : Bool := 0 < s.pointerDepth

/-- What is written on a method; a property may be virtual too. -/
structure Decorations where
  isVirtual : Bool := false
  isOverride : Bool := false
  isFinal : Bool := false
  isAbstract : Bool := false
  isConstructor : Bool := false
  isDestructor : Bool := false
  deriving DecidableEq, Repr

/-- All modifiers of a member. -/
structure Modifiers where
  visibility : Visibility := .unstated
  qualifiers : Qualifiers := {}
  shape : Shape := {}
  decorations : Decorations := {}
  deriving DecidableEq, Repr

end HeaderAtlas
