import HeaderAtlas.Declaration.EnumBody
import HeaderAtlas.Declaration.Member

/-!
# Headers

What a header declares: annotated types with their bodies, in which further types may be declared, annotated functions and
globals, and fake types, which exist in annotations only. All else at top level is passed over, token by token.
-/

namespace HeaderAtlas

/-- The access label of a word. -/
def Visibility.ofWord? : String → Option Visibility
  | "public" => some .publicAccess
  | "protected" => some .protectedAccess
  | "private" => some .privateAccess
  | _ => none

/-- What is left to do for a type of which the head has been read. -/
inductive TypeBody where
  /-- There is no type. -/
  | none
  /-- The type has no body. -/
  | absent (id : TypeId)
  /-- The body of the type follows. -/
  | follows (id : TypeId)
  deriving DecidableEq, Repr

namespace Cursor

/-- The words `final` and `abstract` behind the name of a type, read. -/
def takeTypeSpecifiers (flags : TypeFlags) (c : Cursor) : TypeFlags × Cursor :=
  if _h : c.atEnd = true then (flags, c)
  else if c.seesWord "final" then takeTypeSpecifiers { flags with isFinal := true } c.advance
  else if c.seesWord "abstract" then takeTypeSpecifiers { flags with isAbstract := true } c.advance
  else (flags, c)
termination_by c.remaining
decreasing_by
  · exact remaining_advance_lt (Bool.eq_false_iff.mpr _h)
  · exact remaining_advance_lt (Bool.eq_false_iff.mpr _h)

/-- The cursor behind the access words in front of a base. -/
def skipBaseWords (c : Cursor) : Cursor :=
  if _h : c.atEnd = true then c
  else if c.seesWordOf ["public", "protected", "private", "virtual"] then skipBaseWords c.advance
  else c
termination_by c.remaining
decreasing_by exact remaining_advance_lt (Bool.eq_false_iff.mpr _h)

theorem remaining_skipBaseWords_le (c : Cursor) : c.skipBaseWords.remaining ≤ c.remaining := by
  fun_induction skipBaseWords c with
  | case1 => exact Nat.le_refl _
  | case2 c _ _ ih => exact Nat.le_trans ih c.remaining_advance_le
  | case3 => exact Nat.le_refl _

/-- One base, read: its qualified name; template arguments are passed over. -/
def takeBase (c : Cursor) : Option String × Cursor :=
  let word := c.skipBaseWords.takeWord
  match word.1 with
  | none => (none, word.2)
  | some first =>
    let parts := word.2.takeParts
    (some (qualifiedName first parts.1), parts.2.skipBlock '<' '>')

theorem remaining_takeBase_le (c : Cursor) : c.takeBase.2.remaining ≤ c.remaining := by
  have h₁ := c.remaining_skipBaseWords_le
  have h₂ := c.skipBaseWords.remaining_takeWord_le
  rw [takeBase]
  split
  · exact Nat.le_trans h₂ h₁
  · exact Nat.le_trans (remaining_skipBlock_le ..) (Nat.le_trans (remaining_takeParts_le _) (Nat.le_trans h₂ h₁))

/-- The names of the bases behind `:`, read. -/
def takeBases (c : Cursor) : List String × Cursor :=
  let base := c.takeBase
  match base.1 with
  | none => ([], base.2)
  | some name =>
    if _h : base.2.sees ',' = true then
      let rest := takeBases base.2.advance
      (name :: rest.1, rest.2)
    else ([name], base.2)
termination_by c.remaining
decreasing_by
  exact Nat.lt_of_lt_of_le (remaining_advance_lt (not_atEnd_of_sees _h)) c.remaining_takeBase_le

/-- The tokens behind the end of a fake type. -/
def afterFake : List Token → List Token
  | [] => []
  | t :: ts => if t.isWord Marker.endFake.word then ts else afterFake ts

end Cursor

namespace Reader

/-- A base added to a type. -/
def addBase (id : TypeId) (r : Reader) (name : String) : Reader :=
  let base := r.refer name
  base.2.edit id fun d => { d with bases := d.bases ++ [base.1] }

/-- Traits added to a type. -/
def addTraits (r : Reader) (id : TypeId) (traits : Traits) : Reader :=
  r.edit id fun d => { d with traits := d.traits ++ traits }

/-- A type entered as declared in another. -/
def nest (r : Reader) (owner child : TypeId) : Reader :=
  (r.edit child fun d => { d with containing := some owner }).edit owner fun d =>
    { d with subTypes := d.subTypes ++ [child] }

/-- A declared type of which the name has been read, with its bases, up to its body. It is declared before its bases are read, and
so may be named among them. -/
def takeTypeBases (r : Reader) (d : TypeDef) : TypeBody × Reader :=
  let specifiers := r.cursor.takeTypeSpecifiers d.flags
  let id := (r.moveTo specifiers.2).declare { d with flags := specifiers.1 }
  let bases := if id.2.cursor.sees ':' then id.2.cursor.advance.takeBases else ([], id.2.cursor)
  let r := bases.1.foldl (addBase id.1) (id.2.moveTo bases.2)
  if r.cursor.sees '{' then (.follows id.1, r.advance) else (.absent id.1, r.skipStatement)

/-- The head of a struct or class, read from that word; a type without a name or body is not declared. -/
def takeTypeHeader (options : ScanOptions) (isClass : Bool) (r : Reader) : TypeBody × Reader :=
  let location := r.cursor.peek.location
  let api := r.cursor.advance.takeApiWord options
  let name := api.2.takeWord
  match name.1 with
  | none => (.none, (r.moveTo name.2.skipStatement).noted (.unnamed .type location))
  | some typeName =>
    if name.2.sees ';' then (.none, (r.moveTo name.2.advance).noted (.forwardDeclaration typeName))
    else (r.moveTo name.2).takeTypeBases { name := typeName, flags := { isClass }, apiWord := api.1 }

/-- A property that traits describe: `name` and `type` say what it is. -/
def describedProperty (r : Reader) (traits : Traits) (isVirtual : Bool) : Option Property × Reader :=
  let location := r.cursor.peek.location
  let name := (traits.get? "name").getD ""
  match traits.filled? "type" with
  | none => (none, r.noted (.propertyWithoutType name location))
  | some text =>
    let e := (r.moveTo (Cursor.ofText text)).takeType none
    let r := e.2.moveTo r.cursor
    if e.1.isEmpty then (none, r.noted (.unreadableType name location text))
    else
      let p := r.use e.1 name
      let m := p.1.modifiers
      let modifiers := { m with visibility := .publicAccess, decorations := { m.decorations with isVirtual } }
      (some { p.1 with modifiers, traits }, p.2)

/-- A property that traits describe, read behind its marker and recorded, with the `;` behind it. -/
def takeDescribed (r : Reader) (owner : TypeId) (isVirtual : Bool) : Reader :=
  let traits := r.cursor.takeTraits
  let p := (r.moveTo traits.2).describedProperty traits.1 isVirtual
  match p.1 with
  | some property => (p.2.edit owner fun d => { d with properties := d.properties ++ [property] }).pass ';'
  | none => p.2.pass ';'

/-- The properties of a fake type, read and recorded, with the marker behind them. -/
def takeFakeBody (id : TypeId) (r : Reader) : Reader :=
  if _h : r.cursor.atEnd = true then r
  else if r.cursor.seesMarker .property then takeFakeBody id (r.resume (r.advance.takeDescribed id false))
  else if r.cursor.seesMarker .virtualProperty then takeFakeBody id (r.resume (r.advance.takeDescribed id true))
  else if r.cursor.seesMarker .endFake then r.advance
  else r.noted (.unexpectedInFakeType r.cursor.peek.kind (r.catalog.name id))
termination_by r.remaining
decreasing_by
  · exact remaining_resume_lt _ (Bool.eq_false_iff.mpr _h)
  · exact remaining_resume_lt _ (Bool.eq_false_iff.mpr _h)

/-- A fake type, read behind its marker and declared. -/
def takeFake (r : Reader) : Reader :=
  let location := r.cursor.peek.location
  let traits := r.cursor.takeTraits
  match traits.1.filled? "name" with
  | some name =>
    let id := (r.moveTo traits.2).declare { name, traits := traits.1 }
    id.2.takeFakeBody id.1
  | none =>
    let c := traits.2
    (r.moveTo { c with unread := Cursor.afterFake c.unread }).noted (.unnamed .fakeType location)

/-- A member read if it is public or all members are; else its statement is passed over. -/
def takeVisible (options : ScanOptions) (scope : Scope) (r : Reader) : Reader :=
  if scope.visibility = .publicAccess ∨ options.includePrivate then r.takeMember options scope else r.skipStatement

/-- What stands at a place in the body of a type. -/
inductive BodyItem where
  | close
  | semicolon
  | block
  | access (visibility : Visibility)
  | type
  | describedProperty
  | statement
  | template
  | member
  deriving DecidableEq, Repr

/-- What stands in front of the cursor in the body of a type. -/
def bodyItem (c : Cursor) : BodyItem :=
  match c.peek.kind with
  | .mark symbol =>
    if symbol = '}' then .close else if symbol = ';' then .semicolon else if symbol = '{' then .block else .member
  | .word word =>
    if word = Marker.reflected.word then .type
    else if word = Marker.virtualProperty.word then .describedProperty
    else if ["friend", "using", "typedef", "static_assert"].contains word then .statement
    else if word = "template" then .template
    else
      match Visibility.ofWord? word with
      | some visibility => if (c.ahead 1).isMark ':' then .access visibility else .member
      | none => .member
  | _ => .member

mutual

/-- The declaration behind a type marker and its traits, read. -/
def takeReflected (options : ScanOptions) (depth : Nat) (traits : Traits) (r : Reader) : Option TypeId × Reader :=
  if r.cursor.seesWordOf ["struct", "class"] then
    let isClass := r.cursor.seesWord "class"
    let head := r.takeTypeHeader options isClass
    match head.1 with
    | .none => (none, head.2)
    | .absent id => (some id, head.2.addTraits id traits)
    | .follows id =>
      let visibility := if isClass then .privateAccess else .publicAccess
      let body := takeBody options id (depth + 1) visibility (r.keep head.2)
      (some id, (body.pass ';').addTraits id traits)
  else if r.cursor.seesWord "enum" then
    let e := r.takeEnum
    match e.1 with
    | some id => (some id, e.2.addTraits id traits)
    | none => (none, e.2)
  else (none, r.noted (.markerWithoutType r.cursor.peek.location))
termination_by 2 * r.remaining + 1
decreasing_by
  exact stage_keep_lt _ _ 2 0 1 Nat.zero_lt_one

/-- The body of a type behind `{`, read with the `}` that closes it. -/
def takeBody (options : ScanOptions) (owner : TypeId) (depth : Nat) (visibility : Visibility) (r : Reader) : Reader :=
  if _h : r.cursor.atEnd = true then r.noted (.unterminatedBody (r.catalog.name owner))
  else
    match bodyItem r.cursor with
    | .close => r.advance
    | .semicolon => takeBody options owner depth visibility r.advance
    | .block => takeBody options owner depth visibility (r.resume (r.moveTo (r.cursor.skipBlock '{' '}')))
    | .access visibility => takeBody options owner depth visibility (r.resume r.advance.advance)
    | .type =>
      let traits := r.cursor.advance.takeTraits
      let child := takeReflected options depth traits.1 (r.resume (r.moveTo traits.2))
      match child.1 with
      | some id => takeBody options owner depth visibility (r.resume (child.2.nest owner id))
      | none => takeBody options owner depth visibility (r.resume child.2)
    | .describedProperty => takeBody options owner depth visibility (r.resume (r.advance.takeDescribed owner true))
    | .statement => takeBody options owner depth visibility (r.resume r.skipStatement)
    | .template =>
      takeBody options owner depth visibility (r.resume (r.moveTo (r.cursor.advance.skipBlock '<' '>')))
    | .member => takeBody options owner depth visibility (r.resume (r.takeVisible options ⟨some owner, visibility, depth⟩))
termination_by 2 * r.remaining
decreasing_by
  · exact stage_lt_of_lt (remaining_advance_lt (Bool.eq_false_iff.mpr _h)) 2 0 0 (by decide)
  · exact stage_lt_of_lt (remaining_resume_lt _ (Bool.eq_false_iff.mpr _h)) 2 0 0 (by decide)
  · exact stage_lt_of_lt (remaining_resume_lt _ (Bool.eq_false_iff.mpr _h)) 2 0 0 (by decide)
  · exact stage_lt_of_lt (remaining_resume_lt _ (Bool.eq_false_iff.mpr _h)) 2 1 0 (by decide)
  · exact stage_lt_of_lt (remaining_resume_lt _ (Bool.eq_false_iff.mpr _h)) 2 0 0 (by decide)
  · exact stage_lt_of_lt (remaining_resume_lt _ (Bool.eq_false_iff.mpr _h)) 2 0 0 (by decide)
  · exact stage_lt_of_lt (remaining_resume_lt _ (Bool.eq_false_iff.mpr _h)) 2 0 0 (by decide)
  · exact stage_lt_of_lt (remaining_resume_lt _ (Bool.eq_false_iff.mpr _h)) 2 0 0 (by decide)
  · exact stage_lt_of_lt (remaining_resume_lt _ (Bool.eq_false_iff.mpr _h)) 2 0 0 (by decide)
  · exact stage_lt_of_lt (remaining_resume_lt _ (Bool.eq_false_iff.mpr _h)) 2 0 0 (by decide)

end

/-- A whole header, read. -/
def takeHeader (options : ScanOptions) (r : Reader) : Reader :=
  if _h : r.cursor.atEnd = true then r
  else if r.cursor.seesMarker .reflected then
    let traits := r.cursor.advance.takeTraits
    takeHeader options (r.resume ((r.moveTo traits.2).takeReflected options 0 traits.1).2)
  else if r.cursor.seesMarker .command || r.cursor.seesMarker .global then
    takeHeader options (r.resume (r.takeMember options .top))
  else if r.cursor.seesMarker .fake then takeHeader options (r.resume r.advance.takeFake)
  else takeHeader options r.advance
termination_by r.remaining
decreasing_by
  · exact remaining_resume_lt _ (Bool.eq_false_iff.mpr _h)
  · exact remaining_resume_lt _ (Bool.eq_false_iff.mpr _h)
  · exact remaining_resume_lt _ (Bool.eq_false_iff.mpr _h)
  · exact remaining_advance_lt (Bool.eq_false_iff.mpr _h)

end Reader

/-- The text of a header read into a catalog. -/
def Recorder.scan (r : Recorder) (options : ScanOptions) (source : String) : Recorder :=
  ({ r with cursor := Cursor.ofText source : Reader }.takeHeader options).toRecorder

end HeaderAtlas
