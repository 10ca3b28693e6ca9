import HeaderAtlas.Proofs.Declaration.Turn

/-!
# Reading ends, and reads everything

Reading a header comes to the end of the header, whatever stands there. The readers that call each other are followed from call to
call (`Reader.Calls`): each call is nearer to the end than the one it is made in, so no chain of calls goes on for ever. The
readers obey the equations by which those calls are made (`Reader.Loops`), in which nothing sets a reader on from outside.
-/

namespace HeaderAtlas

namespace Reader

/-! ## Chains of calls -/

/-- A call of one of the readers that call themselves or each other, by where it begins. -/
inductive Task where
  | header (r : Reader)
  | reflected (r : Reader)
  | body (r : Reader)
  | fake (r : Reader)
  | type (r : Reader)
  | templateArgs (r : Reader)
  | parameters (r : Reader)
  | entries (r : Reader)
  | value (r : Reader)
  | operand (r : Reader)
  | grouped (r : Reader)
  | operations (r : Reader)

/-- How far a call is from the end: the tokens that are left, and among calls that begin in one place the order in which they are
made. -/
def Task.distance : Task → Nat
  | header r | fake r | parameters r | entries r | value r => r.remaining
  | body r | type r => 2 * r.remaining
  | reflected r | templateArgs r => 2 * r.remaining + 1
  | operand r => 3 * r.remaining
  | operations r => 3 * r.remaining + 1
  | grouped r => 3 * r.remaining + 2

/-- The first call makes the second one, inside its turn or as the turn after it. -/
inductive Calls (options : ScanOptions) : Task → Task → Prop where
  | header {r : Reader} (hend : r.cursor.atEnd = false) : Calls options (.header r) (.header (r.headerTurn options))
  | reflected_body {r : Reader} (hword : r.cursor.seesWordOf ["struct", "class"] = true) :
    Calls options (.reflected r) (.body (r.takeTypeHeader options (r.cursor.seesWord "class")).2)
  | body {r : Reader} (owner : TypeId) (depth : Nat) (visibility : Visibility) (hend : r.cursor.atEnd = false)
    (hclose : r.cursor.sees '}' = false) :
    Calls options (.body r) (.body (bodyTurn options owner depth visibility r).2)
  | body_reflected {r : Reader} (hend : r.cursor.atEnd = false) :
    Calls options (.body r) (.reflected (r.moveTo r.cursor.advance.takeTraits.2))
  | fake {r : Reader} (id : TypeId) (hend : r.cursor.atEnd = false) : Calls options (.fake r) (.fake (r.fakeTurn id))
  | type_templateArgs {r : Reader} {word : String} (hword : r.cursor.takeTypeHead.1.word = some word) :
    Calls options (.type r) (.templateArgs (r.moveTo r.cursor.takeTypeHead.2.takeParts.2.advance))
  | templateArgs_type (r : Reader) : Calls options (.templateArgs r) (.type r)
  | templateArgs {r : Reader} (hend : r.cursor.atEnd = false) :
    Calls options (.templateArgs r) (.templateArgs r.argTurn.2)
  | parameters {r : Reader} (hend : r.cursor.atEnd = false) :
    Calls options (.parameters r) (.parameters r.parameterTurn.2)
  | entries {r : Reader} (prior : List EnumValue) (next : Int64) (hend : r.cursor.atEnd = false) :
    Calls options (.entries r) (.entries (entryTurn prior next r).2.2)
  | value {r : Reader} (prior : List EnumValue) (value : Option Int64) (hend : r.cursor.atEnd = false) :
    Calls options (.value r) (.value (valueTurn prior value r).2)
  | operand {r : Reader} (hend : r.cursor.atEnd = false) : Calls options (.operand r) (.operand r.advance)
  | operand_grouped {r : Reader} (hend : r.cursor.atEnd = false) : Calls options (.operand r) (.grouped r.advance)
  | flag_grouped {r : Reader} (hend : r.cursor.atEnd = false) : Calls options (.operand r) (.grouped r.advance.advance)
  | grouped_operand (r : Reader) : Calls options (.grouped r) (.operand r)
  | grouped_operations (prior : List EnumValue) (r : Reader) :
    Calls options (.grouped r) (.operations (takeOperand prior r).2)
  | operations {r : Reader} {prior : List EnumValue} {value : Int64} {s : Int64 × Reader}
    (h : operationTurn prior value r = some s) : Calls options (.operations r) (.operations s.2)
  | operations_operand {r : Reader} (hend : r.cursor.atEnd = false) :
    Calls options (.operations r) (.operand r.advance)

/-- A word in front of the cursor is a token. -/
theorem not_atEnd_of_seesWordOf {c : Cursor} {names : List String} (h : c.seesWordOf names = true) : c.atEnd = false := by
  unfold Cursor.seesWordOf at h
  split at h
  · rename_i hword
    exact Cursor.not_atEnd_of_word hword
  · cases h

/-- A call is nearer to the end than the one it is made in. -/
theorem Calls.distance_lt {options : ScanOptions} {t u : Task} (h : Calls options t u) : u.distance < t.distance := by
  have hadvance : ∀ {r : Reader}, r.cursor.atEnd = false → r.advance.remaining < r.remaining := remaining_advance_lt
  cases h with
  | header hend => exact remaining_headerTurn_lt options hend
  | fake id hend => exact remaining_fakeTurn_lt id hend
  | parameters hend => exact remaining_parameterTurn_lt hend
  | entries prior next hend => exact remaining_entryTurn_lt prior next hend
  | value prior value hend => exact remaining_valueTurn_lt prior value hend
  | @reflected_body r hword =>
    have hhead := (onward_advance_takeTypeHeader options (r.cursor.seesWord "class") r).remaining_le
    have := hadvance (not_atEnd_of_seesWordOf hword)
    simp only [Task.distance]
    omega
  | body owner depth visibility hend hclose =>
    have := remaining_bodyTurn_lt options owner depth visibility hend hclose
    simp only [Task.distance]
    omega
  | @body_reflected r hend =>
    have : (r.moveTo r.cursor.advance.takeTraits.2).remaining < r.remaining :=
      (Cursor.onward_takeTraits r.cursor.advance).remaining_lt hend
    simp only [Task.distance]
    omega
  | @type_templateArgs r word hword =>
    have hopened := ((Cursor.onward_takeParts r.cursor.takeTypeHead.2).trans (Cursor.onward_advance _)).remaining_le
    have : (r.moveTo r.cursor.takeTypeHead.2.takeParts.2.advance).remaining < r.remaining :=
      Nat.lt_of_le_of_lt hopened (Cursor.remaining_takeTypeHead_lt hword)
    simp only [Task.distance]
    omega
  | templateArgs_type r => exact Nat.lt_succ_self _
  | templateArgs hend =>
    have := remaining_argTurn_lt hend
    simp only [Task.distance]
    omega
  | operand hend =>
    have := hadvance hend
    simp only [Task.distance]
    omega
  | operand_grouped hend =>
    have := hadvance hend
    simp only [Task.distance]
    omega
  | flag_grouped hend =>
    have := remaining_advance_advance_lt hend
    simp only [Task.distance]
    omega
  | grouped_operand r => exact Nat.lt_add_of_pos_right (by decide)
  | grouped_operations prior r =>
    have := (onward_takeOperand prior r).remaining_le
    simp only [Task.distance]
    omega
  | operations h =>
    have := remaining_operationTurn_lt h
    simp only [Task.distance]
    omega
  | operations_operand hend =>
    have := hadvance hend
    simp only [Task.distance]
    omega

/-- No chain of calls goes on for ever. -/
theorem calls_wellFounded (options : ScanOptions) : WellFounded fun u t => Calls options t u :=
  Subrelation.wf Calls.distance_lt (InvImage.wf Task.distance Nat.lt_wfRel.wf)

/-- The equations of the readers that call themselves or each other: where they end, and else their turn. -/
structure Loops (options : ScanOptions) : Prop where
  header : ∀ r : Reader, takeHeader options r = if r.cursor.atEnd then r else takeHeader options (r.headerTurn options)
  reflected : ∀ (depth : Nat) (traits : Traits) (r : Reader), takeReflected options depth traits r =
    if r.cursor.seesWordOf ["struct", "class"] then
      let isClass := r.cursor.seesWord "class"
      let head := r.takeTypeHeader options isClass
      match head.1 with
      | .none => (none, head.2)
      | .absent id => (some id, head.2.addTraits id traits)
      | .follows id =>
        let visibility := if isClass then .privateAccess else .publicAccess
        (some id, ((takeBody options id (depth + 1) visibility head.2).pass ';').addTraits id traits)
    else if r.cursor.seesWord "enum" then
      match r.takeEnum.1 with
      | some id => (some id, r.takeEnum.2.addTraits id traits)
      | none => (none, r.takeEnum.2)
    else (none, r.noted (.markerWithoutType r.cursor.peek.location))
  body : ∀ (owner : TypeId) (depth : Nat) (visibility : Visibility) (r : Reader), takeBody options owner depth visibility r =
    if r.cursor.atEnd then r.noted (.unterminatedBody (r.catalog.name owner))
    else if r.cursor.sees '}' then r.advance
    else
      let turn := bodyTurn options owner depth visibility r
      takeBody options owner depth turn.1 turn.2
  fake : ∀ (id : TypeId) (r : Reader), takeFakeBody id r =
    if r.cursor.atEnd then r
    else if r.cursor.seesMarker .property || r.cursor.seesMarker .virtualProperty then takeFakeBody id (r.fakeTurn id)
    else if r.cursor.seesMarker .endFake then r.advance
    else r.noted (.unexpectedInFakeType r.cursor.peek.kind (r.catalog.name id))
  templateArgs : ∀ r : Reader, takeTemplateArgs r =
    if r.cursor.atEnd then ([], r)
    else if r.cursor.sees '>' then ([], r.advance)
    else
      let arg := r.argTurn
      let rest := takeTemplateArgs arg.2
      (arg.1.toList ++ rest.1, rest.2)
  parameters : ∀ r : Reader, takeParameters r =
    if r.cursor.atEnd || r.cursor.sees ';' then ([], r)
    else if r.cursor.sees ')' then ([], r.advance)
    else
      let p := r.parameterTurn
      let rest := takeParameters p.2
      (p.1.toList ++ rest.1, rest.2)
  entries : ∀ (prior : List EnumValue) (next : Int64) (r : Reader), takeEntries prior next r =
    if r.cursor.atEnd then (prior, r)
    else if r.cursor.sees '}' then (prior, r.advance)
    else
      let turn := entryTurn prior next r
      takeEntries turn.1 turn.2.1 turn.2.2
  value : ∀ (prior : List EnumValue) (value : Option Int64) (r : Reader), takeEnumValue prior value r =
    if r.cursor.atEnd then (value, r)
    else if r.cursor.sees ',' || r.cursor.sees '}' then (value, r)
    else takeEnumValue prior (valueTurn prior value r).1 (valueTurn prior value r).2
  operand : ∀ (prior : List EnumValue) (r : Reader), takeOperand prior r =
    match r.cursor.peek.kind.operandItem with
    | .int value => (value, r.advance)
    | .minus => (-(takeOperand prior r.advance).1, (takeOperand prior r.advance).2)
    | .group => ((takeGrouped prior r.advance).1, (takeGrouped prior r.advance).2.pass ')')
    | .flag =>
      if r.advance.cursor.sees '(' then
        let bit := takeGrouped prior r.advance.advance
        (shiftedLeft 1 bit.1, bit.2.pass ')')
      else (1, r.advance)
    | .name first =>
      let parts := r.cursor.advance.takeParts
      literal prior (r.moveTo parts.2) (parts.1.getLastD first)
    | .none => (0, r)
  grouped : ∀ (prior : List EnumValue) (r : Reader),
    takeGrouped prior r = takeOperations prior (takeOperand prior r).1 (takeOperand prior r).2
  operations : ∀ (prior : List EnumValue) (value : Int64) (r : Reader), takeOperations prior value r =
    match operationTurn prior value r with
    | some s => takeOperations prior s.1 s.2
    | none => (value, r)

/-- Every loop of reading is its turn and the rest of the loop. -/
theorem loops (options : ScanOptions) : Loops options where
  header := takeHeader_eq options
  reflected := takeReflected_eq options
  body := takeBody_eq options
  fake := takeFakeBody_eq
  templateArgs := takeTemplateArgs_eq
  parameters := takeParameters_eq
  entries := takeEntries_eq
  value := takeEnumValue_eq
  operand := takeOperand_eq
  grouped := takeGrouped_eq
  operations := takeOperations_eq

/-! ## Where reading ends -/

/-- A header is read to its end. -/
theorem unread_takeHeader (options : ScanOptions) (r : Reader) : (takeHeader options r).cursor.unread = [] := by
  induction hn : r.remaining using Nat.strongRecOn generalizing r with
  | ind n ih =>
    rw [takeHeader_eq]
    cases hend : r.cursor.atEnd with
    | true => exact List.isEmpty_iff.mp hend
    | false => exact ih _ (hn ▸ remaining_headerTurn_lt options hend) _ rfl

/-- Reading a header ends behind the last of its tokens. -/
theorem cursor_takeHeader (options : ScanOptions) (r : Reader) :
    (takeHeader options r).cursor = ⟨r.cursor.source, [], r.cursor.finish⟩ := by
  obtain ⟨hsource, hfinish, -⟩ := onward_takeHeader options r
  rw [← hsource, ← hfinish, ← unread_takeHeader options r]

/-- The last token a reader has read is this mark. -/
def EndsOn (symbol : Char) (r r' : Reader) : Prop :=
  ∃ (before : List Token) (t : Token), r.cursor.unread = before ++ t :: r'.cursor.unread ∧ t.isMark symbol = true

/-- What ends on a mark further on ends on it from here. -/
theorem EndsOn.of_onward {symbol : Char} {r r' r'' : Reader} (h : r.Onward r') (h' : EndsOn symbol r' r'') :
    EndsOn symbol r r'' := by
  obtain ⟨before, hbefore⟩ := h.suffix
  obtain ⟨before', t, hunread, ht⟩ := h'
  exact ⟨before ++ before', t, by rw [← hbefore, hunread, List.append_assoc], ht⟩

/-- A mark that is passed is what reading ends on. -/
theorem endsOn_advance {symbol : Char} {r : Reader} (h : r.cursor.sees symbol = true) : EndsOn symbol r r.advance := by
  obtain ⟨recorder, source, unread, finish⟩ := r
  cases unread with
  | nil => exact absurd (Cursor.not_atEnd_of_sees h) (by simp [Cursor.atEnd])
  | cons t ts => exact ⟨[], t, rfl, h⟩

/-- The body of a type ends at the end of the header, or with the `}` that closes it. -/
theorem takeBody_ends (options : ScanOptions) (owner : TypeId) (depth : Nat) (visibility : Visibility) (r : Reader) :
    (takeBody options owner depth visibility r).cursor.atEnd = true ∨
      EndsOn '}' r (takeBody options owner depth visibility r) := by
  induction hn : r.remaining using Nat.strongRecOn generalizing r visibility with
  | ind n ih =>
    rw [takeBody_eq]
    cases hend : r.cursor.atEnd with
    | true => exact Or.inl hend
    | false =>
      cases hclose : r.cursor.sees '}' with
      | true => exact Or.inr (endsOn_advance hclose)
      | false =>
        have hlt := remaining_bodyTurn_lt options owner depth visibility hend hclose
        rcases ih _ (hn ▸ hlt) (bodyTurn options owner depth visibility r).1 _ rfl with h | h
        · exact Or.inl h
        · exact Or.inr (h.of_onward (onward_bodyTurn options owner depth visibility r))

end Reader

/-! ## Going onward -/

/-- The second cursor is where an operation on the first one ends. -/
inductive Cursor.Passes (options : ScanOptions) (c : Cursor) : Cursor → Prop where
  | advance : Passes options c c.advance
  | pass (symbol : Char) : Passes options c (c.pass symbol)
  | passWord (name : String) : Passes options c (c.passWord name)
  | takeWord : Passes options c c.takeWord.2
  | takeText : Passes options c c.takeText.2
  | skipBlock (opening closing : Char) : Passes options c (c.skipBlock opening closing)
  | skipStatement : Passes options c c.skipStatement
  | capture (stops : List Char) : Passes options c (c.capture stops).2
  | takeParts : Passes options c c.takeParts.2
  | takeLooseParts : Passes options c c.takeLooseParts.2
  | takeValueHead : Passes options c c.takeValueHead.2
  | takeTraitValue : Passes options c c.takeTraitValue.2
  | takeAssigned : Passes options c c.takeAssigned.2
  | takeTraitEntries : Passes options c c.takeTraitEntries.2
  | takeTraits : Passes options c c.takeTraits.2
  | annotated {traits : Option Traits × Cursor} (h : Reader.takeMemberTraits c = traits) : Passes options c traits.2
  | takeQualifiers (m : Modifiers) : Passes options c (takeQualifiers m c).2
  | takeTypeHead : Passes options c c.takeTypeHead.2
  | takeStars : Passes options c c.takeStars.2
  | takeTypeTail (m : Modifiers) : Passes options c (c.takeTypeTail m).2
  | finishParameter : Passes options c c.finishParameter
  | takeDefault : Passes options c c.takeDefault.2
  | takeSpecifiers (m : Modifiers) : Passes options c (takeSpecifiers m c).2
  | skipMethodBody : Passes options c c.skipMethodBody
  | takeApiWord : Passes options c (c.takeApiWord options).2
  | takeConvention (found : Option String) : Passes options c (takeConvention options found c).2
  | takeSymbol : Passes options c c.takeSymbol.2
  | takeOperator : Passes options c c.takeOperator.2
  | takeMemberName : Passes options c c.takeMemberName.2
  | takeInitial : Passes options c c.takeInitial.2
  | takeNextDeclarator : Passes options c c.takeNextDeclarator.2
  | takeDeclarators (name : String) (shape : Shape) : Passes options c (takeDeclarators name shape c).2
  | skipEntry : Passes options c c.skipEntry
  | takeTypeSpecifiers (flags : TypeFlags) : Passes options c (takeTypeSpecifiers flags c).2
  | skipBaseWords : Passes options c c.skipBaseWords
  | takeBase : Passes options c c.takeBase.2
  | takeBases : Passes options c c.takeBases.2

/-- What passes tokens goes onward. -/
theorem Cursor.Passes.onward {options : ScanOptions} {c c' : Cursor} (h : Passes options c c') : c.Onward c' := by
  cases h with
  | advance => exact c.onward_advance
  | pass symbol => exact c.onward_pass symbol
  | passWord name => exact c.onward_passWord name
  | takeWord => exact c.onward_takeWord
  | takeText => exact c.onward_advance
  | skipBlock opening closing => exact c.onward_skipBlock opening closing
  | skipStatement => exact c.onward_skipStatement
  | capture stops => exact c.onward_capture stops
  | takeParts => exact c.onward_takeParts
  | takeLooseParts => exact c.onward_takeLooseParts
  | takeValueHead => exact c.onward_takeValueHead
  | takeTraitValue => exact c.onward_takeTraitValue
  | takeAssigned => exact c.onward_takeAssigned
  | takeTraitEntries => exact c.onward_takeTraitEntries
  | takeTraits => exact c.onward_takeTraits
  | annotated h => exact Reader.onward_annotated h
  | takeQualifiers m => exact c.onward_takeQualifiers m
  | takeTypeHead => exact c.onward_takeTypeHead
  | takeStars => exact c.onward_takeStars
  | takeTypeTail m => exact c.onward_takeTypeTail m
  | finishParameter => exact c.onward_finishParameter
  | takeDefault => exact c.onward_takeDefault
  | takeSpecifiers m => exact c.onward_takeSpecifiers m
  | skipMethodBody => exact c.onward_skipMethodBody
  | takeApiWord => exact c.onward_takeApiWord options
  | takeConvention found => exact c.onward_takeConvention options found
  | takeSymbol => exact c.onward_takeSymbol
  | takeOperator => exact c.onward_takeOperator
  | takeMemberName => exact c.onward_takeMemberName
  | takeInitial => exact c.onward_takeInitial
  | takeNextDeclarator => exact c.onward_takeNextDeclarator
  | takeDeclarators name shape => exact c.onward_takeDeclarators name shape
  | skipEntry => exact c.onward_skipEntry
  | takeTypeSpecifiers flags => exact c.onward_takeTypeSpecifiers flags
  | skipBaseWords => exact c.onward_skipBaseWords
  | takeBase => exact c.onward_takeBase
  | takeBases => exact c.onward_takeBases

namespace Reader

/-- The second reader is where reading something with the first one ends. -/
inductive Scans (options : ScanOptions) (r : Reader) : Reader → Prop where
  | passes {c : Cursor} (h : r.cursor.Passes options c) : Scans options r (r.moveTo c)
  | takeType (context : Option TypeId) : Scans options r (takeType context r).2
  | takeTemplateArgs : Scans options r (takeTemplateArgs r).2
  | takeParameter : Scans options r r.takeParameter.2
  | takeParameters : Scans options r (takeParameters r).2
  | takeBitSource : Scans options r r.takeBitSource.2
  | takeLength (name : String) : Scans options r (r.takeLength name).2
  | takeArray (scope : Scope) (head : MemberHead) : Scans options r (r.takeArray scope head)
  | takeFields (scope : Scope) (head : MemberHead) : Scans options r (r.takeFields scope head)
  | takeMethod (scope : Scope) (head : MemberHead) : Scans options r (r.takeMethod scope head)
  | takeMemberBody (scope : Scope) (isAnnotated : Bool) (head : MemberHead) :
    Scans options r (r.takeMemberBody scope isAnnotated head)
  | takeNamedMember (scope : Scope) (location : Location) (isAnnotated : Bool) (head : MemberHead) :
    Scans options r (takeNamedMember options r scope location isAnnotated head)
  | takeMember (scope : Scope) : Scans options r (takeMember options scope r)
  | takeVisible (scope : Scope) : Scans options r (takeVisible options scope r)
  | takeOperand (prior : List EnumValue) : Scans options r (takeOperand prior r).2
  | takeGrouped (prior : List EnumValue) : Scans options r (takeGrouped prior r).2
  | takeOperations (prior : List EnumValue) (value : Int64) : Scans options r (takeOperations prior value r).2
  | takeEnumValue (prior : List EnumValue) (value : Option Int64) : Scans options r (takeEnumValue prior value r).2
  | takeAssignedValue (prior : List EnumValue) : Scans options r (takeAssignedValue prior r).2
  | takeEntries (prior : List EnumValue) (next : Int64) : Scans options r (takeEntries prior next r).2
  | takeUnderlying : Scans options r r.takeUnderlying.2
  | takeEnumBody (name : String) (isScoped : Bool) (underlying : Option TypeId) :
    Scans options r (r.takeEnumBody name isScoped underlying).2
  | takeEnum : Scans options r r.takeEnum.2
  | takeTypeBases (d : TypeDef) : Scans options r (r.takeTypeBases d).2
  | takeTypeHeader (isClass : Bool) : Scans options r (takeTypeHeader options isClass r).2
  | describedProperty (traits : Traits) (isVirtual : Bool) : Scans options r (r.describedProperty traits isVirtual).2
  | takeDescribed (owner : TypeId) (isVirtual : Bool) : Scans options r (r.takeDescribed owner isVirtual)
  | takeFakeBody (id : TypeId) : Scans options r (takeFakeBody id r)
  | takeFake : Scans options r r.takeFake
  | takeReflected (depth : Nat) (traits : Traits) : Scans options r (takeReflected options depth traits r).2
  | takeBody (owner : TypeId) (depth : Nat) (visibility : Visibility) :
    Scans options r (takeBody options owner depth visibility r)
  | takeHeader : Scans options r (takeHeader options r)

/-- What reads something goes onward. -/
theorem Scans.onward {options : ScanOptions} {r r' : Reader} (h : Scans options r r') : r.Onward r' := by
  cases h with
  | passes h => exact h.onward
  | takeType context => exact onward_takeType context r
  | takeTemplateArgs => exact onward_takeTemplateArgs r
  | takeParameter => exact onward_takeParameter r
  | takeParameters => exact onward_takeParameters r
  | takeBitSource => exact onward_takeBitSource r
  | takeLength name => exact onward_takeLength r name
  | takeArray scope head => exact onward_takeArray r scope head
  | takeFields scope head => exact onward_takeFields r scope head
  | takeMethod scope head => exact onward_takeMethod r scope head
  | takeMemberBody scope isAnnotated head => exact onward_takeMemberBody r scope isAnnotated head
  | takeNamedMember scope location isAnnotated head =>
    exact onward_takeNamedMember options r scope location isAnnotated head
  | takeMember scope => exact onward_takeMember options scope r
  | takeVisible scope => exact onward_takeVisible options scope r
  | takeOperand prior => exact onward_takeOperand prior r
  | takeGrouped prior => exact onward_takeGrouped prior r
  | takeOperations prior value => exact onward_takeOperations prior value r
  | takeEnumValue prior value => exact onward_takeEnumValue prior value r
  | takeAssignedValue prior => exact onward_takeAssignedValue prior r
  | takeEntries prior next => exact onward_takeEntries prior next r
  | takeUnderlying => exact onward_takeUnderlying r
  | takeEnumBody name isScoped underlying => exact onward_takeEnumBody r name isScoped underlying
  | takeEnum => exact onward_takeEnum r
  | takeTypeBases d => exact onward_takeTypeBases r d
  | takeTypeHeader isClass => exact onward_takeTypeHeader options isClass r
  | describedProperty traits isVirtual => exact onward_describedProperty r traits isVirtual
  | takeDescribed owner isVirtual => exact onward_takeDescribed r owner isVirtual
  | takeFakeBody id => exact onward_takeFakeBody id r
  | takeFake => exact onward_takeFake r
  | takeReflected depth traits => exact onward_takeReflected options depth traits r
  | takeBody owner depth visibility => exact onward_takeBody options owner depth visibility r
  | takeHeader => exact onward_takeHeader options r

/-- Reading ends on every header and reads all of it: no chain of calls goes on for ever, and the readers are what the equations
between the calls make them; a header is read up to its end; nothing moves the cursor back; a body is left at the end or behind
the `}` that closes it; and a member that does not begin at the end or at a `}` has at least one token. -/
theorem scan_progress (options : ScanOptions) :
    (WellFounded fun u t => Calls options t u) ∧ Loops options ∧
      (∀ (s : Recorder) (source : String),
        (takeHeader options { s with cursor := .ofText source }).cursor =
          ⟨source.toList, [], (Cursor.ofText source).finish⟩) ∧
      (∀ r r' : Reader, Scans options r r' → r.Onward r') ∧
      (∀ (owner : TypeId) (depth : Nat) (visibility : Visibility) (r : Reader),
        (takeBody options owner depth visibility r).cursor.atEnd = true ∨
          EndsOn '}' r (takeBody options owner depth visibility r)) ∧
      ∀ (scope : Scope) (r : Reader), r.cursor.atEnd = false → r.cursor.sees '}' = false →
        r.Onward (takeMember options scope r) ∧ (takeMember options scope r).remaining < r.remaining := by
  refine ⟨calls_wellFounded options, loops options, ?_, fun r r' h => h.onward, takeBody_ends options, ?_⟩
  · intro s source
    exact cursor_takeHeader options _
  · intro scope r hend hclose
    exact ⟨onward_takeMember options scope r, remaining_takeMember_lt options scope hend hclose⟩

end Reader

end HeaderAtlas
