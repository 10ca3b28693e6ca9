import HeaderAtlas.Declaration.TypeExpr

/-!
# Enums

The entries of an enum and their values. A value is an operand, or operands joined by `<<` and `|`, applied from the left in 64-bit
arithmetic that wraps. An operand is a number, the name of an entry, a value in parentheses, or `FLAG(n)`, the bit of that number;
a `-` in front negates it. A name means an entry of the enum that is being read, or else one of any enum read before, or else zero.
An entry without a value has that of the entry before it plus one.
-/

namespace HeaderAtlas

/-- A shift to the left; outside of the 64 bits nothing is left. -/
def shiftedLeft (value amount : Int64) : Int64 := if 0 ≤ amount ∧ amount < 64 then value <<< amount else 0

/-- What an operand begins with. -/
inductive OperandItem where
  | int (value : Int64)
  | minus
  | group
  | flag
  | name (first : String)
  | none
  deriving DecidableEq, Repr

/-- What a token is at the beginning of an operand. -/
def Token.Kind.operandItem : Token.Kind → OperandItem
  | .int value => .int value
  | .mark symbol => if symbol = '-' then .minus else if symbol = '(' then .group else .none
  | .word first => if first = "FLAG" then .flag else .name first
  | _ => .none

/-- What stands at a place in a value. -/
inductive ValueItem where
  /-- The end of the value. -/
  | stop
  | shift
  | union
  /-- A parenthesis that closes nothing. -/
  | close
  | operand
  | other (kind : Token.Kind)
  deriving DecidableEq, Repr

/-- What a token is in a value. -/
def Token.Kind.valueItem : Token.Kind → ValueItem
  | .shiftLeft => .shift
  | .int _ => .operand
  | .word _ => .operand
  | .mark symbol =>
    if symbol = ',' ∨ symbol = '}' then .stop
    else if symbol = '|' then .union
    else if symbol = ')' then .close
    else if symbol = '-' ∨ symbol = '(' then .operand
    else .other (.mark symbol)
  | kind => .other kind

namespace Cursor

/-- The tokens behind the rest of an entry. It ends behind its `,` and in front of the `}` of the enum; parentheses are passed over
whole. -/
def afterEntry : List Token → List Token
  | [] => []
  | t :: ts =>
    if t.isMark '}' then t :: ts
    else if t.isMark ',' then ts
    else if t.isMark '(' then afterEntry (afterBlock '(' ')' 1 ts)
    else afterEntry ts
termination_by ts => ts.length
decreasing_by
  · exact Nat.lt_succ_of_le (length_afterBlock_le ..)
  · exact Nat.lt_succ_self _

/-- The cursor behind the rest of an entry. -/
def skipEntry (c : Cursor) : Cursor := { c with unread := afterEntry c.unread }

/-- The tokens from the body of an enum on, or those behind a `;` that stands before it, with whether there was one. -/
def beforeBody : List Token → Bool × List Token
  | [] => (false, [])
  | t :: ts =>
    if t.isMark '{' then (false, t :: ts)
    else if t.isMark ';' then (true, ts)
    else beforeBody ts

end Cursor

namespace Reader

/-- The value of a name among the entries read so far and those of earlier enums. -/
def literal (prior : List EnumValue) (r : Reader) (name : String) : Int64 × Reader :=
  match prior.find? (·.name == name) with
  | some entry => (entry.value, r)
  | none =>
    match r.catalog.literal? name with
    | some value => (value, r)
    | none => (0, r.noted (.unknownLiteral name))

mutual

/-- One operand, read; zero if there is none. -/
def takeOperand (prior : List EnumValue) (r : Reader) : Int64 × Reader :=
  if _h : r.cursor.atEnd = true then (0, r)
  else
    match r.cursor.peek.kind.operandItem with
    | .int value => (value, r.advance)
    | .minus =>
      let operand := takeOperand prior r.advance
      (-operand.1, operand.2)
    | .group =>
      let value := takeGrouped prior r.advance
      (value.1, value.2.pass ')')
    | .flag =>
      if r.advance.cursor.sees '(' then
        let bit := takeGrouped prior (r.resume r.advance.advance)
        (shiftedLeft 1 bit.1, bit.2.pass ')')
      else (1, r.advance)
    | .name first =>
      let parts := r.cursor.advance.takeParts
      literal prior (r.moveTo parts.2) (parts.1.getLastD first)
    | .none => (0, r)
termination_by 3 * r.remaining
decreasing_by
  · exact stage_lt_of_lt (remaining_advance_lt (Bool.eq_false_iff.mpr _h)) 3 0 0 (by decide)
  · exact stage_lt_of_lt (remaining_advance_lt (Bool.eq_false_iff.mpr _h)) 3 2 0 (by decide)
  · exact stage_lt_of_lt (remaining_resume_lt _ (Bool.eq_false_iff.mpr _h)) 3 2 0 (by decide)

/-- A value in parentheses, read up to what closes it. -/
def takeGrouped (prior : List EnumValue) (r : Reader) : Int64 × Reader :=
  let first := takeOperand prior r
  takeOperations prior first.1 (r.keep first.2)
termination_by 3 * r.remaining + 2
decreasing_by
  · exact Nat.lt_add_of_pos_right (by decide)
  · exact stage_keep_lt _ _ 3 1 2 (by decide)

/-- The operations on a value inside parentheses, read and applied. -/
def takeOperations (prior : List EnumValue) (value : Int64) (r : Reader) : Int64 × Reader :=
  if _h : r.cursor.atEnd = true then (value, r)
  else
    match r.cursor.peek.kind.valueItem with
    | .shift =>
      let operand := takeOperand prior r.advance
      takeOperations prior (shiftedLeft value operand.1) (r.resume operand.2)
    | .union =>
      let operand := takeOperand prior r.advance
      takeOperations prior (value ||| operand.1) (r.resume operand.2)
    | _ => (value, r)
termination_by 3 * r.remaining + 1
decreasing_by
  · exact stage_lt_of_lt (remaining_advance_lt (Bool.eq_false_iff.mpr _h)) 3 0 1 (by decide)
  · exact stage_lt_of_lt (remaining_resume_lt _ (Bool.eq_false_iff.mpr _h)) 3 1 1 (by decide)
  · exact stage_lt_of_lt (remaining_advance_lt (Bool.eq_false_iff.mpr _h)) 3 0 1 (by decide)
  · exact stage_lt_of_lt (remaining_resume_lt _ (Bool.eq_false_iff.mpr _h)) 3 1 1 (by decide)

end

/-- The value of an entry, read up to the `,` or `}` behind it. An operand that no operation joins takes the place of what was
read before. -/
def takeEnumValue (prior : List EnumValue) (value : Option Int64) (r : Reader) : Option Int64 × Reader :=
  if _h : r.cursor.atEnd = true then (value, r)
  else
    match r.cursor.peek.kind.valueItem with
    | .stop => (value, r)
    | .shift =>
      let operand := takeOperand prior r.advance
      takeEnumValue prior (value.map fun v => shiftedLeft v operand.1) (r.resume operand.2)
    | .union =>
      let operand := takeOperand prior r.advance
      takeEnumValue prior (some (value.getD 0 ||| operand.1)) (r.resume operand.2)
    | .close => takeEnumValue prior value r.advance
    | .operand =>
      let operand := takeOperand prior r
      takeEnumValue prior (some operand.1) (r.resume operand.2)
    | .other kind => takeEnumValue prior value (r.advance.noted (.ignoredInEnumValue kind))
termination_by r.remaining
decreasing_by
  · exact remaining_resume_lt _ (Bool.eq_false_iff.mpr _h)
  · exact remaining_resume_lt _ (Bool.eq_false_iff.mpr _h)
  · exact remaining_advance_lt (Bool.eq_false_iff.mpr _h)
  · exact remaining_resume_lt _ (Bool.eq_false_iff.mpr _h)
  · exact remaining_advance_lt (Bool.eq_false_iff.mpr _h)

/-- What stands behind the name of an entry, read: its value, if there is a `=` and a value. -/
def takeAssignedValue (prior : List EnumValue) (r : Reader) : Option Int64 × Reader :=
  if r.cursor.sees '=' then r.advance.takeEnumValue prior none else (none, r)

/-- The entries behind `{`, read with the `}` that closes them. The value `next` is that of an entry without one. -/
def takeEntries (prior : List EnumValue) (next : Int64) (r : Reader) : List EnumValue × Reader :=
  if _h : r.cursor.atEnd = true then (prior, r)
  else if r.cursor.sees '}' then (prior, r.advance)
  else
    match r.cursor.peek.word? with
    | some name =>
      let assigned := r.advance.takeAssignedValue prior
      let value := assigned.1.getD next
      let after := assigned.2.moveTo assigned.2.cursor.skipEntry
      takeEntries (prior ++ [⟨name, value⟩]) (value + 1) (r.resume after)
    | none => takeEntries prior next r.advance
termination_by r.remaining
decreasing_by
  · exact remaining_resume_lt _ (Bool.eq_false_iff.mpr _h)
  · exact remaining_advance_lt (Bool.eq_false_iff.mpr _h)

/-- The type an enum is stored as, read behind its name. -/
def takeUnderlying (r : Reader) : Option TypeId × Reader :=
  if r.cursor.sees ':' then
    let e := r.advance.takeType none
    if e.1.isEmpty then (none, e.2)
    else
      let p := e.2.use e.1 ""
      (some p.1.type, p.2)
  else (none, r)

/-- The body of an enum, read; an enum without entries is not declared. -/
def takeEnumBody (r : Reader) (name : String) (isScoped : Bool) (underlying : Option TypeId) : Option TypeId × Reader :=
  let entries := r.takeEntries [] 0
  let r := entries.2.pass ';'
  if entries.1.isEmpty then (none, r.noted (.emptyEnum name))
  else
    let id := r.declare
      { name, flags := { isScopedEnum := isScoped }, enumUnderlying := underlying, enumValues := entries.1 }
    (some id.1, id.2)

/-- An enum, read from the word `enum` and declared. -/
def takeEnum (r : Reader) : Option TypeId × Reader :=
  let location := r.cursor.peek.location
  let isScoped := r.advance.cursor.seesWordOf ["class", "struct"]
  let name := (if isScoped then r.cursor.advance.advance else r.cursor.advance).takeWord
  match name.1 with
  | none => (none, (r.moveTo name.2.skipStatement).noted (.unnamed .enum location))
  | some enumName =>
    let underlying := (r.moveTo name.2).takeUnderlying
    let c := underlying.2.cursor
    let body := Cursor.beforeBody c.unread
    let r := underlying.2.moveTo { c with unread := body.2 }
    if body.1 then (none, r.noted (.enumWithoutBody enumName))
    else if r.cursor.sees '{' then r.advance.takeEnumBody enumName isScoped underlying.1
    else (none, r)

end Reader

end HeaderAtlas
