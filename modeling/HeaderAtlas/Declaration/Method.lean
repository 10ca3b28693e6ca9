import HeaderAtlas.Declaration.TraitList
import HeaderAtlas.Declaration.TypeExpr

/-!
# Methods

What stands behind the name of a method: its parameters in parentheses, the words behind them, and a body, which is passed over.
-/

namespace HeaderAtlas

/-- A parameter of a method, with its name and its default as they are written. -/
structure Parameter where
  property : Property
  name : Option String
  defaultText : Option String

namespace Cursor

/-- The tokens behind the rest of a parameter. It ends behind its `,`, and in front of a `)` or `;`; nested blocks are passed over
whole. -/
def afterParameter : List Token → List Token
  | [] => []
  | t :: ts =>
    if t.isMark ')' then t :: ts
    else if t.isMark ';' then t :: ts
    else if t.isMark ',' then ts
    else if t.isMark '(' then afterParameter (afterBlock '(' ')' 1 ts)
    else if t.isMark '[' then afterParameter (afterBlock '[' ']' 1 ts)
    else if t.isMark '{' then afterParameter (afterBlock '{' '}' 1 ts)
    else afterParameter ts
termination_by ts => ts.length
decreasing_by
  · exact Nat.lt_succ_of_le (length_afterBlock_le ..)
  · exact Nat.lt_succ_of_le (length_afterBlock_le ..)
  · exact Nat.lt_succ_of_le (length_afterBlock_le ..)
  · exact Nat.lt_succ_self _

/-- The cursor behind the rest of a parameter. -/
def finishParameter (c : Cursor) : Cursor := { c with unread := afterParameter c.unread }

/-- The default of a parameter, read. -/
def takeDefault (c : Cursor) : Option String × Cursor :=
  if c.sees '=' then c.advance.capture [',', ';', ')'] else (none, c)

/-- The words and the `= 0` behind the parameters of a method, read. A `=` without a zero or a word behind it ends them. -/
def takeSpecifiers (m : Modifiers) (c : Cursor) : Modifiers × Cursor :=
  if _h : c.atEnd = true then (m, c)
  else if c.seesWord "const" then
    takeSpecifiers { m with qualifiers := { m.qualifiers with isConst := true } } c.advance
  else if c.seesWord "override" then
    takeSpecifiers { m with decorations := { m.decorations with isOverride := true } } c.advance
  else if c.seesWord "final" then
    takeSpecifiers { m with decorations := { m.decorations with isFinal := true } } c.advance
  else if c.seesWord "abstract" then
    takeSpecifiers { m with decorations := { m.decorations with isAbstract := true } } c.advance
  else if c.seesWord "noexcept" then takeSpecifiers m (c.advance.skipBlock '(' ')')
  else if c.sees '=' then
    match c.advance.peek.kind with
    | .int value =>
      if value = 0 then
        takeSpecifiers { m with decorations := { m.decorations with isAbstract := true } } c.advance.advance
      else (m, c.advance)
    | .word _ => takeSpecifiers m c.advance.advance
    | _ => (m, c.advance)
  else (m, c)
termination_by c.remaining
decreasing_by
  · exact remaining_advance_lt (Bool.eq_false_iff.mpr _h)
  · exact remaining_advance_lt (Bool.eq_false_iff.mpr _h)
  · exact remaining_advance_lt (Bool.eq_false_iff.mpr _h)
  · exact remaining_advance_lt (Bool.eq_false_iff.mpr _h)
  · exact Nat.lt_of_le_of_lt (remaining_skipBlock_le ..) (remaining_advance_lt (Bool.eq_false_iff.mpr _h))
  · exact Nat.lt_of_le_of_lt (remaining_advance_le _) (remaining_advance_lt (Bool.eq_false_iff.mpr _h))
  · exact Nat.lt_of_le_of_lt (remaining_advance_le _) (remaining_advance_lt (Bool.eq_false_iff.mpr _h))

/-- The cursor behind the body of a method, or behind its statement if it has none. -/
def skipMethodBody (c : Cursor) : Cursor := if c.sees '{' then (c.skipBlock '{' '}').pass ';' else c.skipStatement

end Cursor

/-- A property with one more pointer. -/
def Property.pointed (p : Property) : Property :=
  let shape := { p.modifiers.shape with pointerDepth := p.modifiers.shape.pointerDepth + 1 }
  { p with modifiers := { p.modifiers with shape } }

namespace Reader

/-- One parameter, read up to what stands behind its default; none if there is no type. An array is read as a pointer. -/
def takeParameter (r : Reader) : Option Parameter × Reader :=
  let e := r.takeType none
  if e.1.isEmpty then (none, e.2)
  else
    let name := e.2.cursor.takeWord
    let p := (e.2.moveTo name.2).use e.1 (name.1.getD "")
    let isArray := p.2.cursor.sees '['
    let property := if isArray then p.1.pointed else p.1
    let value := (p.2.cursor.skipBlock '[' ']').takeDefault
    (some ⟨{ property with defaultText := value.1 }, name.1, value.1⟩, p.2.moveTo value.2)

/-- Parameters behind `(`, read with the `)` that closes them; a `;` ends them too. A lone `void` is no parameter. -/
def takeParameters (r : Reader) : List Parameter × Reader :=
  if _h : r.cursor.atEnd = true then ([], r)
  else if r.cursor.sees ';' then ([], r)
  else if r.cursor.sees ')' then ([], r.advance)
  else if r.cursor.seesWord "void" && (r.cursor.ahead 1).isMark ')' then takeParameters r.advance
  else
    let p := r.takeParameter
    let rest := takeParameters (r.resume (p.2.moveTo p.2.cursor.finishParameter))
    (p.1.toList ++ rest.1, rest.2)
termination_by r.remaining
decreasing_by
  · exact remaining_advance_lt (Bool.eq_false_iff.mpr _h)
  · exact remaining_resume_lt _ (Bool.eq_false_iff.mpr _h)

end Reader

end HeaderAtlas
