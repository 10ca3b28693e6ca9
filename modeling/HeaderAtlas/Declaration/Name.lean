import HeaderAtlas.Cursor.Progress

/-!
# Qualified names

A name may be followed by further parts, each behind `::`. Where a type or an enum entry is named, `::` without a word behind it
is left unread; in values and array lengths it is read and ends the name.
-/

namespace HeaderAtlas

namespace Cursor

/-- The words behind `::` in front of the cursor, read; a `::` without a word is left. -/
def takeParts (c : Cursor) : List String × Cursor :=
  if c.atScope then
    match _h : c.advance.advance.takeWord.1 with
    | some part =>
      let rest := takeParts c.advance.advance.takeWord.2
      (part :: rest.1, rest.2)
    | none => ([], c)
  else ([], c)
termination_by c.remaining
decreasing_by
  have h₁ := remaining_takeWord_lt _h
  have h₂ := c.advance.remaining_advance_le
  have h₃ := c.remaining_advance_le
  omega

/-- The words behind `::` in front of the cursor, read; a `::` without a word is read too. -/
def takeLooseParts (c : Cursor) : List String × Cursor :=
  if c.atScope then
    match _h : c.advance.advance.takeWord.1 with
    | some part =>
      let rest := takeLooseParts c.advance.advance.takeWord.2
      (part :: rest.1, rest.2)
    | none => ([], c.advance.advance)
  else ([], c)
termination_by c.remaining
decreasing_by
  have h₁ := remaining_takeWord_lt _h
  have h₂ := c.advance.remaining_advance_le
  have h₃ := c.remaining_advance_le
  omega

theorem remaining_takeParts_le (c : Cursor) : c.takeParts.2.remaining ≤ c.remaining := by
  fun_induction takeParts c with
  | case1 c _ part h _ ih =>
    have h₁ := remaining_takeWord_lt h
    have h₂ := c.advance.remaining_advance_le
    have h₃ := c.remaining_advance_le
    exact Nat.le_trans ih (by omega)
  | case2 => exact Nat.le_refl _
  | case3 => exact Nat.le_refl _

theorem remaining_takeLooseParts_le (c : Cursor) : c.takeLooseParts.2.remaining ≤ c.remaining := by
  fun_induction takeLooseParts c with
  | case1 c _ part h _ ih =>
    have h₁ := remaining_takeWord_lt h
    have h₂ := c.advance.remaining_advance_le
    have h₃ := c.remaining_advance_le
    exact Nat.le_trans ih (by omega)
  | case2 c => exact Nat.le_trans c.advance.remaining_advance_le c.remaining_advance_le
  | case3 => exact Nat.le_refl _

end Cursor

/-- A first word and its further parts, as they are written. -/
def qualifiedName (first : String) (parts : List String) : String := parts.foldl (fun name part => name ++ "::" ++ part) first

end HeaderAtlas
