import HeaderAtlas.Declaration.Name
import HeaderAtlas.Trait.Basic

/-!
# Trait lists

The list `(key, key = value, …)` behind an annotation marker. Keys are words or quoted texts. A value is quoted text, in which
two backticks stand for a quote, or a word or number as it is written, with the parts behind `::` and a sign in front. What is
neither key nor value is passed over. A marker without parentheses has no traits.
-/

namespace HeaderAtlas

/-- The quotes in a quoted value restored: each pair of backticks, from the left, stands for one. -/
def restoreQuotes : List Char → List Char
  | [] => []
  | c :: cs =>
    if c == '\x60' then
      match cs with
      | d :: ds => if d == '\x60' then '"' :: restoreQuotes ds else c :: restoreQuotes (d :: ds)
      | [] => [c]
    else c :: restoreQuotes cs

namespace Cursor

/-- The first piece of a value, read: quoted text, or a word or a number as it is written. -/
def takeValueHead (c : Cursor) : Option String × Cursor :=
  match c.peek.kind with
  | .quoted text => (some (String.ofList (restoreQuotes text.toList)), c.advance)
  | .word _ | .int _ | .float _ => (some c.takeText.1, c.takeText.2)
  | _ => (none, c)

/-- The value of a trait, read; a sign without a value is read too. -/
def takeTraitValue (c : Cursor) : Option String × Cursor :=
  let head := (c.pass '-').takeValueHead
  match head.1 with
  | none => (none, head.2)
  | some first =>
    let parts := head.2.takeLooseParts
    let value := qualifiedName first parts.1
    (some (if c.sees '-' then "-" ++ value else value), parts.2)

theorem remaining_takeValueHead_le (c : Cursor) : c.takeValueHead.2.remaining ≤ c.remaining := by
  rw [takeValueHead]
  split
  · exact c.remaining_advance_le
  · exact c.remaining_advance_le
  · exact c.remaining_advance_le
  · exact c.remaining_advance_le
  · exact Nat.le_refl _

theorem remaining_takeTraitValue_le (c : Cursor) : c.takeTraitValue.2.remaining ≤ c.remaining := by
  have h₁ := (c.pass '-').remaining_takeValueHead_le
  have h₂ := c.remaining_pass_le '-'
  rw [takeTraitValue]
  split
  · exact Nat.le_trans h₁ h₂
  · exact Nat.le_trans (remaining_takeLooseParts_le _) (Nat.le_trans h₁ h₂)

/-- What stands behind a key, read: its value, if there is a `=`. -/
def takeAssigned (c : Cursor) : Option String × Cursor := if c.sees '=' then c.advance.takeTraitValue else (none, c)

theorem remaining_takeAssigned_le (c : Cursor) : c.takeAssigned.2.remaining ≤ c.remaining := by
  rw [takeAssigned]
  split
  · exact Nat.le_trans (remaining_takeTraitValue_le _) c.remaining_advance_le
  · exact Nat.le_refl _

/-- The key in front of the cursor. -/
def traitKey? (c : Cursor) : Option String :=
  match c.peek.kind with
  | .word key | .quoted key => some key
  | _ => none

/-- The entries of a list that has been opened, read with the parenthesis that closes it. -/
def takeTraitEntries (c : Cursor) : Traits × Cursor :=
  if _h : c.atEnd = true then ([], c)
  else if c.sees ')' then ([], c.advance)
  else if _hp : c.sees '(' = true then takeTraitEntries (c.skipBlock '(' ')')
  else
    match c.traitKey? with
    | some key =>
      let value := c.advance.takeAssigned
      let rest := takeTraitEntries value.2
      (⟨key, value.1⟩ :: rest.1, rest.2)
    | none => takeTraitEntries c.advance
termination_by c.remaining
decreasing_by
  · exact remaining_skipBlock_lt _hp
  · exact Nat.lt_of_le_of_lt (remaining_takeAssigned_le _) (remaining_advance_lt (Bool.eq_false_iff.mpr _h))
  · exact remaining_advance_lt (Bool.eq_false_iff.mpr _h)

/-- The trait list in front of the cursor, read. -/
def takeTraits (c : Cursor) : Traits × Cursor := if c.sees '(' then c.advance.takeTraitEntries else ([], c)

end Cursor

end HeaderAtlas
