import HeaderAtlas.Declaration.Method

/-!
# Members

One statement in the body of a type, or at top level behind a marker: a method, an array, or fields that share a type. A field is
recorded if its type is declared; with an annotation it is recorded in any case, and only then is a method. Any other statement
is passed over.
-/

namespace HeaderAtlas

/-- All that is read in front of what makes a member a method, an array or a field. -/
structure MemberHead where
  type : TypeExpr
  name : String
  traits : Traits
  bitSource : Option TypeId
  apiWord : Option String
  convention : Option String

/-- One of several fields that share a type. -/
structure Declarator where
  name : String
  shape : Shape
  defaultText : Option String
  deriving DecidableEq, Repr

namespace Cursor

/-- The tokens behind the first of these marks; none if it is missing. -/
def afterFirst (symbol : Char) : List Token → List Token
  | [] => []
  | t :: ts => if t.isMark symbol then ts else afterFirst symbol ts

/-- The decoration that says how a declaration is exported, read. -/
def takeApiWord (options : ScanOptions) (c : Cursor) : Option String × Cursor :=
  if c.seesWordOf options.apiWords then c.takeWord else (none, c)

/-- The words that say how a method is called, read; the last one counts. -/
def takeConvention (options : ScanOptions) (found : Option String) (c : Cursor) : Option String × Cursor :=
  match _h : c.peek.word? with
  | none => (found, c)
  | some word => if options.conventions.contains word then takeConvention options (some word) c.advance else (found, c)
termination_by c.remaining
decreasing_by exact remaining_advance_lt (not_atEnd_of_word _h)

/-- The tokens of an operator's symbol, as they are written, read up to its parameters or the end of its statement. -/
def takeSymbol (c : Cursor) : String × Cursor :=
  if _h : c.atEnd = true then ("", c)
  else if c.sees '(' || c.sees ';' then ("", c)
  else
    let rest := takeSymbol c.advance
    (c.takeText.1 ++ rest.1, rest.2)
termination_by c.remaining
decreasing_by exact remaining_advance_lt (Bool.eq_false_iff.mpr _h)

/-- The name of an operator behind the word `operator`, read. -/
def takeOperator (c : Cursor) : String × Cursor :=
  if c.sees '(' && (c.ahead 1).isMark ')' then
    let symbol := c.advance.advance.takeSymbol
    ("operator()" ++ symbol.1, symbol.2)
  else
    let symbol := c.takeSymbol
    ("operator" ++ symbol.1, symbol.2)

/-- The name of a member, read: a word, or `operator` with its symbol. -/
def takeMemberName (c : Cursor) : Option String × Cursor :=
  let word := c.takeWord
  if word.1 == some "operator" then
    let name := word.2.takeOperator
    (some name.1, name.2)
  else word

/-- The tokens behind the `]` of an array length; a `;` ends it too, and is left. -/
def afterArrayLength : List Token → List Token
  | [] => []
  | t :: ts =>
    if t.isMark ';' then t :: ts
    else if t.isMark ']' then ts
    else afterArrayLength ts

/-- The initial value of a field, read. -/
def takeInitial (c : Cursor) : Option String × Cursor :=
  if c.sees '=' then c.advance.capture [',', ';']
  else if c.sees '{' then c.capture [',', ';']
  else (none, c)

theorem remaining_takeInitial_le (c : Cursor) : c.takeInitial.2.remaining ≤ c.remaining := by
  rw [takeInitial]
  split
  · exact Nat.le_trans (remaining_capture_le ..) c.remaining_advance_le
  · split
    · exact c.remaining_capture_le _
    · exact Nat.le_refl _

/-- What stands behind the comma between two fields, read: stars, a reference and a name. -/
def takeNextDeclarator (c : Cursor) : Option (String × Shape) × Cursor :=
  let stars := c.takeStars
  let name := (stars.2.pass '&').takeWord
  (name.1.map fun name => (name, { pointerDepth := stars.1, isReference := stars.2.sees '&' }), name.2)

theorem remaining_takeNextDeclarator_le (c : Cursor) : c.takeNextDeclarator.2.remaining ≤ c.remaining :=
  Nat.le_trans (remaining_takeWord_le _) (Nat.le_trans (remaining_pass_le ..) c.remaining_takeStars_le)

/-- The fields that share a type, read, the name and shape of the first one known. -/
def takeDeclarators (name : String) (shape : Shape) (c : Cursor) : List Declarator × Cursor :=
  let value := c.takeInitial
  if _h : value.2.sees ',' = true then
    let next := value.2.advance.takeNextDeclarator
    match next.1 with
    | none => ([⟨name, shape, value.1⟩], next.2)
    | some (nextName, nextShape) =>
      let rest := takeDeclarators nextName nextShape next.2
      (⟨name, shape, value.1⟩ :: rest.1, rest.2)
  else ([⟨name, shape, value.1⟩], value.2)
termination_by c.remaining
decreasing_by
  have h₁ := c.takeInitial.2.advance.remaining_takeNextDeclarator_le
  have h₂ := remaining_advance_lt (not_atEnd_of_sees _h)
  have h₃ := c.remaining_takeInitial_le
  exact Nat.lt_of_le_of_lt h₁ (Nat.lt_of_lt_of_le h₂ h₃)

end Cursor

namespace Reader

/-- A property recorded where it stands. -/
def addProperty (r : Reader) (scope : Scope) (p : Property) : Reader :=
  let r := r.noted (.propertyRead p.name scope.depth)
  match scope.enclosing with
  | some owner => r.edit owner fun d => { d with properties := d.properties ++ [p] }
  | none => { r with toRecorder := r.toRecorder.change fun c => c.addGlobal p }

/-- A method recorded where it stands. -/
def addMethod (r : Reader) (scope : Scope) (m : Method) : Reader :=
  let r := r.noted (.methodBound m.name m.params.length scope.depth)
  match scope.enclosing with
  | some owner => r.edit owner fun d => { d with methods := d.methods ++ [m] }
  | none => { r with toRecorder := r.toRecorder.change fun c => c.addFunction m }

/-- The property a member head declares. -/
def memberProperty (r : Reader) (scope : Scope) (head : MemberHead) : Property × Reader :=
  let p := r.use head.type head.name
  ({ p.1 with
     modifiers := { head.type.modifiers with visibility := scope.visibility }
     traits := head.traits
     bitSource := head.bitSource }, p.2)

/-- The enum whose values name the bits of a field, read behind its marker. -/
def takeBitSource (r : Reader) : Option TypeId × Reader :=
  if r.cursor.sees '(' then
    let word := r.cursor.advance.takeWord
    let r := r.moveTo { word.2 with unread := Cursor.afterFirst ')' word.2.unread }
    match word.1 with
    | some name =>
      let source := r.refer name
      (some source.1, source.2)
    | none => (none, r)
  else (none, r)

/-- A length written as a number; a negative one reads as zero. -/
def lengthOf (value : Int64) : Nat := value.toInt.toNat

/-- The length of an array, read up to what stands behind it: a number or the name of an enum entry. -/
def takeLength (r : Reader) (name : String) : Nat × Reader :=
  match r.cursor.peek.kind with
  | .int value => (lengthOf value, r.advance)
  | .word first =>
    let parts := r.cursor.advance.takeLooseParts
    let last := parts.1.getLastD first
    let r := r.moveTo parts.2
    match r.catalog.literal? last with
    | some value => (lengthOf value, r)
    | none => (0, r.noted (.unknownArrayLength last name))
  | _ => (0, r)

/-- An array, read from its `[` and recorded. -/
def takeArray (r : Reader) (scope : Scope) (head : MemberHead) : Reader :=
  let length := r.advance.takeLength head.name
  let c := length.2.cursor
  let r := length.2.moveTo { c with unread := Cursor.afterArrayLength c.unread }
  let p := r.memberProperty scope head
  let value := if p.2.cursor.sees '=' then p.2.cursor.advance.capture [';'] else (none, p.2.cursor)
  let p' := { p.1 with arrayLength := some length.1, defaultText := value.1 }
  ((p.2.moveTo value.2).addProperty scope p').skipStatement

/-- One of several fields recorded. -/
def addDeclarator (scope : Scope) (head : MemberHead) (r : Reader) (d : Declarator) : Reader :=
  let type := { head.type with modifiers := { head.type.modifiers with shape := d.shape } }
  let p := r.memberProperty scope { head with type, name := d.name }
  p.2.addProperty scope { p.1 with defaultText := d.defaultText }

/-- Fields that share a type, read and recorded. -/
def takeFields (r : Reader) (scope : Scope) (head : MemberHead) : Reader :=
  let fields := r.cursor.takeDeclarators head.name head.type.modifiers.shape
  (fields.1.foldl (addDeclarator scope head) (r.moveTo fields.2)).skipStatement

/-- The modifiers of a method before the words behind its parameters are read. -/
def methodModifiers (scope : Scope) (m : Modifiers) : Modifiers :=
  { visibility := scope.visibility
    qualifiers := { isConstexpr := m.qualifiers.isConstexpr }
    decorations := { isVirtual := m.decorations.isVirtual
                     isConstructor := m.decorations.isConstructor
                     isDestructor := m.decorations.isDestructor } }

/-- The modifiers of a return value: those of the type, without what belongs to the method. -/
def returnModifiers (m : Modifiers) : Modifiers :=
  { m with qualifiers := { m.qualifiers with isConstexpr := false }, decorations := {} }

/-- A method, read from its `(` and recorded. -/
def takeMethod (r : Reader) (scope : Scope) (head : MemberHead) : Reader :=
  let p := r.use head.type ""
  let params := p.2.advance.takeParameters
  let specifiers := params.2.cursor.takeSpecifiers (methodModifiers scope head.type.modifiers)
  (params.2.moveTo specifiers.2.skipMethodBody).addMethod scope
    { name := head.name
      declaring := scope.enclosing
      returnValue := { p.1 with modifiers := returnModifiers p.1.modifiers }
      params := params.1.map Parameter.property
      paramNames := params.1.map Parameter.name
      defaults := params.1.map Parameter.defaultText
      modifiers := specifiers.1
      traits := head.traits
      apiWord := head.apiWord
      callingConvention := head.convention }

/-- A member of which the head has been read: a method, an array or fields. -/
def takeMemberBody (r : Reader) (scope : Scope) (isAnnotated : Bool) (head : MemberHead) : Reader :=
  if r.cursor.sees '(' then
    if isAnnotated then r.takeMethod scope head
    else (r.moveTo (r.cursor.skipBlock '(' ')').skipStatement).noted (.unannotatedCallable head.name)
  else if r.cursor.sees '[' then r.takeArray scope head
  else r.takeFields scope head

/-- The annotation of a member, read: its traits, if it has one. -/
def takeMemberTraits (c : Cursor) : Option Traits × Cursor :=
  if c.seesMarker .property || c.seesMarker .command || c.seesMarker .global then
    let traits := c.advance.takeTraits
    (some traits.1, traits.2)
  else (none, c)

/-- The member of a type that has been read. -/
def takeNamedMember (options : ScanOptions) (r : Reader) (scope : Scope) (location : Location) (isAnnotated : Bool)
    (head : MemberHead) : Reader :=
  let decorations := head.type.modifiers.decorations
  if decorations.isConstructor || decorations.isDestructor then
    r.takeMemberBody scope isAnnotated { head with name := head.type.name }
  else
    let convention := r.cursor.takeConvention options none
    let name := convention.2.takeMemberName
    match name.1 with
    | some name' =>
      (r.moveTo name.2).takeMemberBody scope isAnnotated { head with name := name', convention := convention.1 }
    | none => (r.moveTo name.2.skipStatement).noted (.noMemberName head.type.name location)

/-- One member statement, read; what it declares is recorded. -/
def takeMember (options : ScanOptions) (scope : Scope) (r : Reader) : Reader :=
  if r.cursor.seesMarker .hidden then r.advance.skipStatement
  else
    let annotation := takeMemberTraits r.cursor
    let r := r.moveTo annotation.2
    let bits := if r.cursor.seesMarker .bitFlags then r.advance.takeBitSource else (none, r)
    let api := bits.2.cursor.takeApiWord options
    let location := api.2.peek.location
    let e := (bits.2.moveTo api.2).takeType scope.enclosing
    if e.1.isEmpty || e.1.type.isNone && annotation.1.isNone then (e.2.noted (.skippedStatement location)).skipStatement
    else
      e.2.takeNamedMember options scope location annotation.1.isSome
        { type := e.1, name := "", traits := annotation.1.getD [], bitSource := bits.1, apiWord := api.1, convention := none }

end Reader

end HeaderAtlas
