import HeaderAtlas.Proofs.Declaration.Growth
import HeaderAtlas.Proofs.Declaration.Onward

/-!
# The turns of the loops

A loop of reading takes one turn after another. The turns are functions of their own here, and no turn is set on by the loop that
takes it: where one may read nothing, in template arguments and in parameters, it passes over a token itself. Each loop is then
its turn and the rest of the loop (`takeHeader_eq`, `takeBody_eq` and so on), and as a turn leaves fewer tokens than it found
(`remaining_headerTurn_lt` and so on), it ends.
-/

namespace HeaderAtlas

namespace Cursor

/-- A word in front of the cursor is no mark. -/
theorem sees_of_seesWord {c : Cursor} {name : String} (h : c.seesWord name = true) (symbol : Char) : c.sees symbol = false := by
  simp only [seesWord, Token.isWord, beq_iff_eq] at h
  simp [sees, Token.isMark, h]

/-- At the end the token in front is the end of the file. -/
theorem peek_of_atEnd {c : Cursor} (h : c.atEnd = true) : c.peek = endToken c.finish := by
  obtain ⟨source, unread, finish⟩ := c
  cases unread with
  | nil => rfl
  | cons t ts => simp [atEnd] at h

end Cursor

namespace Reader

/-! ## Template arguments and parameters -/

/-- One turn of reading template arguments, begun off their end: the argument read, if there is one. The negative of a number wraps
around, as it does where overflow is not checked. -/
def argTurn (r : Reader) : Option TemplateArg × Reader :=
  match r.cursor.peek.kind.argItem with
  | .close => (none, r.advance)
  | .int value => (some (.int value), r.advance)
  | .minus =>
    match r.advance.cursor.peek.kind.int? with
    | some value => (some (.int (-value)), r.advance.advance)
    | none => (none, r.advance)
  | .word =>
    let inner := takeType none r
    if inner.1.isEmpty then (none, r.resume inner.2)
    else
      let p := inner.2.use inner.1 ""
      (some (.type p.1), p.2)
  | .other kind => (none, r.advance.noted (.ignoredTemplateArg kind))

/-- Using a type reads no token. -/
theorem remaining_use (r : Reader) (e : TypeExpr) (name : String) : (r.use e name).2.remaining = r.remaining := by
  unfold use
  split <;> rfl

/-- The turn of an argument reads a token: its own, or the one it passes over. -/
theorem remaining_argTurn_lt {r : Reader} (hend : r.cursor.atEnd = false) : r.argTurn.2.remaining < r.remaining := by
  have hadvance := remaining_advance_lt hend
  unfold argTurn
  split
  · exact hadvance
  · exact hadvance
  · split
    · exact remaining_advance_advance_lt hend
    · exact hadvance
  · dsimp only
    split
    · exact remaining_resume_lt _ hend
    · rename_i hname
      rw [remaining_use]
      exact remaining_takeType_lt (Bool.eq_false_iff.mpr hname)
  · exact hadvance

/-- Arguments are closed by a `>`. -/
theorem argItem_close_iff (c : Cursor) : c.peek.kind.argItem = .close ↔ c.sees '>' = true := by
  unfold Token.Kind.argItem Cursor.sees Token.isMark
  split <;> grind

/-- Template arguments, one turn at a time. -/
theorem takeTemplateArgs_eq (r : Reader) :
    takeTemplateArgs r =
      if r.cursor.atEnd then ([], r)
      else if r.cursor.sees '>' then ([], r.advance)
      else
        let arg := r.argTurn
        let rest := takeTemplateArgs arg.2
        (arg.1.toList ++ rest.1, rest.2) := by
  rw [takeTemplateArgs]
  by_cases hend : r.cursor.atEnd = true
  · rw [dif_pos hend, if_pos hend]
  rw [dif_neg hend, if_neg hend]
  by_cases hclose : r.cursor.sees '>' = true
  · rw [if_pos hclose, (argItem_close_iff _).mpr hclose]
  have hlt := remaining_argTurn_lt (Bool.eq_false_iff.mpr hend)
  rw [if_neg hclose]
  unfold argTurn at hlt ⊢
  cases hitem : r.cursor.peek.kind.argItem with
  | close => exact absurd ((argItem_close_iff _).mp hitem) hclose
  | int value => rfl
  | minus =>
    dsimp only
    cases r.advance.cursor.peek.kind.int? with
    | some value =>
      dsimp only
      rw [resume_eq (remaining_advance_advance_lt (Bool.eq_false_iff.mpr hend))]
      rfl
    | none => rfl
  | word =>
    simp only [hitem] at hlt ⊢
    cases hname : (takeType none r).1.isEmpty with
    | true => rfl
    | false =>
      rw [hname, if_neg Bool.false_ne_true] at hlt
      rw [resume_eq hlt]
      rfl
  | other kind => rfl

/-- Induction along a type expression: what holds of a constructor or destructor and of a name, with arguments or without, and for
arguments of their end and of a turn in front of the others, holds of every type expression and of all arguments. -/
theorem takeType_induction {P : Option TypeId → Reader → TypeExpr × Reader → Prop} {Q : Reader → List TemplateArg × Reader → Prop}
    (hnone : ∀ (context : Option TypeId) (r : Reader), r.cursor.takeTypeHead.1.word = none →
      P context r ({ modifiers := r.cursor.takeTypeHead.1.modifiers }, r.moveTo r.cursor.takeTypeHead.2))
    (hspecial : ∀ (context : Option TypeId) (r : Reader) (word : String), r.cursor.takeTypeHead.1.word = some word →
      r.atSpecial context word r.cursor.takeTypeHead.2 = true →
        P context r ((r.moveTo r.cursor.takeTypeHead.2).special r.cursor.takeTypeHead.1 word))
    (hargs : ∀ (context : Option TypeId) (r : Reader) (word : String), r.cursor.takeTypeHead.1.word = some word →
      let head := r.cursor.takeTypeHead
      let parts := head.2.takeParts
      let e := head.1.named r.catalog word parts.1
      let args := takeTemplateArgs (r.moveTo parts.2.advance)
      let tail := args.2.cursor.takeTypeTail e.modifiers
      r.atSpecial context word head.2 = false → parts.2.sees '<' = true → Q (r.moveTo parts.2.advance) args →
        P context r ({ e with modifiers := tail.1, templateArgs := args.1 }, args.2.moveTo tail.2))
    (hplain : ∀ (context : Option TypeId) (r : Reader) (word : String), r.cursor.takeTypeHead.1.word = some word →
      let head := r.cursor.takeTypeHead
      let parts := head.2.takeParts
      let e := head.1.named r.catalog word parts.1
      let tail := parts.2.takeTypeTail e.modifiers
      r.atSpecial context word head.2 = false → parts.2.sees '<' = false →
        P context r ({ e with modifiers := tail.1 }, r.moveTo tail.2))
    (hend : ∀ r : Reader, r.cursor.atEnd = true → Q r ([], r))
    (hclose : ∀ r : Reader, r.cursor.atEnd = false → r.cursor.sees '>' = true → Q r ([], r.advance))
    (hturn : ∀ r : Reader, r.cursor.atEnd = false → r.cursor.sees '>' = false → P none r (takeType none r) →
      Q r.argTurn.2 (takeTemplateArgs r.argTurn.2) →
        Q r (r.argTurn.1.toList ++ (takeTemplateArgs r.argTurn.2).1, (takeTemplateArgs r.argTurn.2).2)) :
    (∀ (context : Option TypeId) (r : Reader), P context r (takeType context r)) ∧
      ∀ r : Reader, Q r (takeTemplateArgs r) := by
  -- a type expression has arguments only behind its first token
  have htype : ∀ (context : Option TypeId) (r : Reader),
      (∀ r' : Reader, r'.remaining < r.remaining → Q r' (takeTemplateArgs r')) → P context r (takeType context r) := by
    intro context r ih
    cases hword : r.cursor.takeTypeHead.1.word with
    | none =>
      rw [takeType_of_none hword]
      exact hnone context r hword
    | some word =>
      rw [takeType_of_some hword]
      dsimp only
      split
      · rename_i hs
        exact hspecial context r word hword hs
      · rename_i hs
        split
        · rename_i hangle
          refine hargs context r word hword (Bool.eq_false_iff.mpr hs) hangle (ih _ ?_)
          have hopened := r.cursor.takeTypeHead.2.onward_takeParts.trans (Cursor.onward_advance _)
          exact Nat.lt_of_le_of_lt hopened.remaining_le (Cursor.remaining_takeTypeHead_lt hword)
        · rename_i hangle
          exact hplain context r word hword (Bool.eq_false_iff.mpr hs) (Bool.eq_false_iff.mpr hangle)
  have hall : ∀ (n : Nat) (r : Reader), r.remaining ≤ n → Q r (takeTemplateArgs r) := by
    intro n
    induction n with
    | zero =>
      intro r hn
      have hatEnd : r.cursor.atEnd = true := by
        cases hat : r.cursor.atEnd with
        | true => rfl
        | false => exact absurd (remaining_advance_lt hat) (by omega)
      rw [takeTemplateArgs_eq, if_pos hatEnd]
      exact hend r hatEnd
    | succ n ih =>
      intro r hn
      rw [takeTemplateArgs_eq]
      split
      · rename_i hatEnd
        exact hend r hatEnd
      · rename_i hatEnd
        have hoff := Bool.eq_false_iff.mpr hatEnd
        split
        · rename_i hsees
          exact hclose r hoff hsees
        · rename_i hsees
          have hlt := remaining_argTurn_lt hoff
          refine hturn r hoff (Bool.eq_false_iff.mpr hsees) (htype none r ?_) (ih _ (by omega))
          exact fun r' hr' => ih r' (by omega)
  exact ⟨fun context r => htype context r fun r' _ => hall _ r' (Nat.le_refl _), fun r => hall _ r (Nat.le_refl _)⟩

/-- One turn of reading parameters, begun off their end: the parameter read, if there is one. -/
def parameterTurn (r : Reader) : Option Parameter × Reader :=
  if r.cursor.seesWord "void" && (r.cursor.ahead 1).isMark ')' then (none, r.advance)
  else
    let p := r.takeParameter
    (p.1, r.resume (p.2.moveTo p.2.cursor.finishParameter))

/-- The turn of a parameter reads a token: its own, or the one it passes over. -/
theorem remaining_parameterTurn_lt {r : Reader} (hend : r.cursor.atEnd = false) :
    r.parameterTurn.2.remaining < r.remaining := by
  unfold parameterTurn
  split
  · exact remaining_advance_lt hend
  · exact remaining_resume_lt _ hend

/-- Parameters, one turn at a time. -/
theorem takeParameters_eq (r : Reader) :
    takeParameters r =
      if r.cursor.atEnd || r.cursor.sees ';' then ([], r)
      else if r.cursor.sees ')' then ([], r.advance)
      else
        let p := r.parameterTurn
        let rest := takeParameters p.2
        (p.1.toList ++ rest.1, rest.2) := by
  rw [takeParameters]
  unfold parameterTurn
  split
  · rename_i hend
    rw [hend]
    rfl
  · rename_i hend
    rw [Bool.eq_false_iff.mpr hend, Bool.false_or]
    split
    · rfl
    · split
      · rfl
      · split <;> rfl

/-! ## Enums -/

/-- One operation on a value in parentheses: its value, and the reader behind it. -/
def operationTurn (prior : List EnumValue) (value : Int64) (r : Reader) : Option (Int64 × Reader) :=
  match r.cursor.peek.kind.valueItem with
  | .shift =>
    let operand := takeOperand prior r.advance
    some (shiftedLeft value operand.1, operand.2)
  | .union =>
    let operand := takeOperand prior r.advance
    some (value ||| operand.1, operand.2)
  | _ => none

/-- At the end no value goes on. -/
theorem valueItem_of_atEnd {c : Cursor} (h : c.atEnd = true) : c.peek.kind.valueItem = .other .eof := by
  rw [Cursor.peek_of_atEnd h]
  rfl

/-- Behind an operation there is less to be read than in front of it. -/
theorem remaining_takeOperand_advance_lt (prior : List EnumValue) {r : Reader} (hend : r.cursor.atEnd = false) :
    (takeOperand prior r.advance).2.remaining < r.remaining :=
  (onward_takeOperand prior r.advance).remaining_lt hend

/-- Anything in a value but the end is a token. -/
theorem not_atEnd_of_valueItem {c : Cursor} (h : c.peek.kind.valueItem ≠ .other .eof) : c.atEnd = false := by
  cases hend : c.atEnd with
  | false => rfl
  | true => exact absurd (valueItem_of_atEnd hend) h

/-- An operation reads its sign. -/
theorem remaining_operationTurn_lt {prior : List EnumValue} {value : Int64} {r : Reader} {s : Int64 × Reader}
    (h : operationTurn prior value r = some s) : s.2.remaining < r.remaining := by
  unfold operationTurn at h
  split at h
  · rename_i hitem
    obtain rfl := Option.some.inj h
    exact remaining_takeOperand_advance_lt prior (not_atEnd_of_valueItem (by simp [hitem]))
  · rename_i hitem
    obtain rfl := Option.some.inj h
    exact remaining_takeOperand_advance_lt prior (not_atEnd_of_valueItem (by simp [hitem]))
  · cases h

/-- The operations in parentheses, one turn at a time. -/
theorem takeOperations_eq (prior : List EnumValue) (value : Int64) (r : Reader) :
    takeOperations prior value r =
      match operationTurn prior value r with
      | some s => takeOperations prior s.1 s.2
      | none => (value, r) := by
  rw [takeOperations]
  unfold operationTurn
  by_cases hend : r.cursor.atEnd = true
  · rw [dif_pos hend, valueItem_of_atEnd hend]
  have hoperand := remaining_takeOperand_advance_lt prior (Bool.eq_false_iff.mpr hend)
  rw [dif_neg hend]
  cases r.cursor.peek.kind.valueItem with
  | shift | union =>
    dsimp only
    rw [resume_eq hoperand]
  | stop | close | operand | other => rfl

/-- A value in parentheses is its first operand and the operations on it. -/
theorem takeGrouped_eq (prior : List EnumValue) (r : Reader) :
    takeGrouped prior r = takeOperations prior (takeOperand prior r).1 (takeOperand prior r).2 := by
  rw [takeGrouped, keep_eq (onward_takeOperand prior r)]

/-- At the end there is no operand. -/
theorem operandItem_of_atEnd {c : Cursor} (h : c.atEnd = true) : c.peek.kind.operandItem = .none := by
  rw [Cursor.peek_of_atEnd h]
  rfl

/-- An operand by what it begins with; at the end there is none. -/
theorem takeOperand_eq (prior : List EnumValue) (r : Reader) :
    takeOperand prior r =
      match r.cursor.peek.kind.operandItem with
      | .int value => (value, r.advance)
      | .minus => (-(takeOperand prior r.advance).1, (takeOperand prior r.advance).2)
      | .group => ((takeGrouped prior r.advance).1, (takeGrouped prior r.advance).2.pass ')')
      | .flag =>
        if r.advance.cursor.sees '(' then
          let bit := takeGrouped prior r.advance.advance
          (shiftedLeft 1 bit.1, bit.2.pass ')')
        else (1, r.advance)
      | .name first =>
        let parts := r.cursor.advance.takeParts
        literal prior (r.moveTo parts.2) (parts.1.getLastD first)
      | .none => (0, r) := by
  rw [takeOperand]
  by_cases hend : r.cursor.atEnd = true
  · rw [dif_pos hend, operandItem_of_atEnd hend]
  rewrite [dif_neg hend, resume_eq (remaining_advance_advance_lt (Bool.eq_false_iff.mpr hend))]
  cases r.cursor.peek.kind.operandItem <;> rfl

/-- One turn of reading the value of an entry, begun off its end. -/
def valueTurn (prior : List EnumValue) (value : Option Int64) (r : Reader) : Option Int64 × Reader :=
  match r.cursor.peek.kind.valueItem with
  | .stop => (value, r.advance)
  | .shift =>
    let operand := takeOperand prior r.advance
    (value.map fun v => shiftedLeft v operand.1, operand.2)
  | .union =>
    let operand := takeOperand prior r.advance
    (some (value.getD 0 ||| operand.1), operand.2)
  | .close => (value, r.advance)
  | .operand =>
    let operand := takeOperand prior r
    (some operand.1, operand.2)
  | .other kind => (value, r.advance.noted (.ignoredInEnumValue kind))

/-- What is an operand in a value begins as one. -/
theorem operandItem_of_valueItem {kind : Token.Kind} (h : kind.valueItem = .operand) : kind.operandItem ≠ .none := by
  unfold Token.Kind.valueItem at h
  unfold Token.Kind.operandItem
  split at h <;> grind

/-- The turn of a value reads a token. -/
theorem remaining_valueTurn_lt (prior : List EnumValue) (value : Option Int64) {r : Reader} (hend : r.cursor.atEnd = false) :
    (valueTurn prior value r).2.remaining < r.remaining := by
  have hadvance := remaining_advance_lt hend
  have hoperand := remaining_takeOperand_advance_lt prior hend
  unfold valueTurn
  split
  · exact hadvance
  · exact hoperand
  · exact hoperand
  · exact hadvance
  · rename_i hitem
    exact remaining_takeOperand_lt prior hend (operandItem_of_valueItem hitem)
  · exact hadvance

/-- A value is stopped by a `,` or a `}`. -/
theorem valueItem_stop_iff (c : Cursor) : c.peek.kind.valueItem = .stop ↔ (c.sees ',' || c.sees '}') = true := by
  unfold Token.Kind.valueItem Cursor.sees Token.isMark
  split <;> grind

/-- A value, one turn at a time. -/
theorem takeEnumValue_eq (prior : List EnumValue) (value : Option Int64) (r : Reader) :
    takeEnumValue prior value r =
      if r.cursor.atEnd then (value, r)
      else if r.cursor.sees ',' || r.cursor.sees '}' then (value, r)
      else takeEnumValue prior (valueTurn prior value r).1 (valueTurn prior value r).2 := by
  rw [takeEnumValue]
  by_cases hend : r.cursor.atEnd = true
  · rw [dif_pos hend, if_pos hend]
  rw [dif_neg hend, if_neg hend]
  by_cases hstop : (r.cursor.sees ',' || r.cursor.sees '}') = true
  · rw [if_pos hstop, (valueItem_stop_iff _).mpr hstop]
  have hlt := remaining_valueTurn_lt prior value (Bool.eq_false_iff.mpr hend)
  rw [if_neg hstop]
  unfold valueTurn at hlt ⊢
  cases hitem : r.cursor.peek.kind.valueItem with
  | stop => exact absurd ((valueItem_stop_iff _).mp hitem) hstop
  | shift | union | operand =>
    simp only [hitem] at hlt ⊢
    rw [resume_eq hlt]
  | close | other => rfl

/-- One turn of reading the entries of an enum, begun off their end: the entries, the value of the next one, and the reader in
front of it. -/
def entryTurn (prior : List EnumValue) (next : Int64) (r : Reader) : List EnumValue × Int64 × Reader :=
  match r.cursor.peek.word? with
  | some name =>
    let assigned := r.advance.takeAssignedValue prior
    let value := assigned.1.getD next
    (prior ++ [⟨name, value⟩], value + 1, assigned.2.moveTo assigned.2.cursor.skipEntry)
  | none => (prior, next, r.advance)

/-- The turn of an entry reads its name, or the token in its place. -/
theorem remaining_entryTurn_lt (prior : List EnumValue) (next : Int64) {r : Reader} (hend : r.cursor.atEnd = false) :
    (entryTurn prior next r).2.2.remaining < r.remaining := by
  unfold entryTurn
  split
  · exact ((onward_takeAssignedValue prior r.advance).moveTo (Cursor.onward_skipEntry _)).remaining_lt hend
  · exact remaining_advance_lt hend

/-- Entries, one turn at a time. -/
theorem takeEntries_eq (prior : List EnumValue) (next : Int64) (r : Reader) :
    takeEntries prior next r =
      if r.cursor.atEnd then (prior, r)
      else if r.cursor.sees '}' then (prior, r.advance)
      else
        let turn := entryTurn prior next r
        takeEntries turn.1 turn.2.1 turn.2.2 := by
  rw [takeEntries]
  by_cases hend : r.cursor.atEnd = true
  · rw [dif_pos hend, if_pos hend]
  have hlt := remaining_entryTurn_lt prior next (Bool.eq_false_iff.mpr hend)
  rw [dif_neg hend, if_neg hend]
  unfold entryTurn at hlt ⊢
  cases hword : r.cursor.peek.word? with
  | none => rfl
  | some name =>
    simp only [hword] at hlt ⊢
    rw [resume_eq hlt]

/-! ## Headers -/

/-- One turn of reading a fake type, begun in front of a property: the reader behind the property. -/
def fakeTurn (id : TypeId) (r : Reader) : Reader := r.advance.takeDescribed id (r.cursor.seesMarker .virtualProperty)

/-- The turn of a described property reads its marker. -/
theorem remaining_fakeTurn_lt (id : TypeId) {r : Reader} (hend : r.cursor.atEnd = false) :
    (r.fakeTurn id).remaining < r.remaining :=
  (onward_takeDescribed r.advance id _).remaining_lt hend

/-- Two markers do not stand in one place. -/
theorem seesMarker_unique {c : Cursor} {m m' : Marker} (h : c.seesMarker m = true) (hne : m.word ≠ m'.word) :
    c.seesMarker m' = false := by
  simp only [Cursor.seesMarker, Cursor.seesWord, Token.isWord, beq_iff_eq] at h
  simp [Cursor.seesMarker, Cursor.seesWord, Token.isWord, h, hne]

/-- The body of a fake type, one turn at a time. -/
theorem takeFakeBody_eq (id : TypeId) (r : Reader) :
    takeFakeBody id r =
      if r.cursor.atEnd then r
      else if r.cursor.seesMarker .property || r.cursor.seesMarker .virtualProperty then takeFakeBody id (r.fakeTurn id)
      else if r.cursor.seesMarker .endFake then r.advance
      else r.noted (.unexpectedInFakeType r.cursor.peek.kind (r.catalog.name id)) := by
  rw [takeFakeBody]
  by_cases hend : r.cursor.atEnd = true
  · rw [dif_pos hend, if_pos hend]
  have hlt := remaining_fakeTurn_lt id (Bool.eq_false_iff.mpr hend)
  rw [dif_neg hend, if_neg hend]
  unfold fakeTurn at hlt ⊢
  cases hproperty : r.cursor.seesMarker .property with
  | true =>
    rw [seesMarker_unique hproperty (by decide)] at hlt ⊢
    rw [resume_eq hlt]
    rfl
  | false =>
    cases hvirtual : r.cursor.seesMarker .virtualProperty with
    | true =>
      rw [hvirtual] at hlt
      rw [resume_eq hlt]
      rfl
    | false => rfl

/-- One turn of reading the body of a type, begun off the end and not in front of the `}` that closes it: the access of what
follows, and the reader in front of it. -/
def bodyTurn (options : ScanOptions) (owner : TypeId) (depth : Nat) (visibility : Visibility) (r : Reader) :
    Visibility × Reader :=
  match bodyItem r.cursor with
  | .close => (visibility, r.advance)
  | .semicolon => (visibility, r.advance)
  | .block => (visibility, r.moveTo (r.cursor.skipBlock '{' '}'))
  | .access visibility => (visibility, r.advance.advance)
  | .type =>
    let traits := r.cursor.advance.takeTraits
    let child := takeReflected options depth traits.1 (r.moveTo traits.2)
    match child.1 with
    | some id => (visibility, child.2.nest owner id)
    | none => (visibility, child.2)
  | .describedProperty => (visibility, r.advance.takeDescribed owner true)
  | .statement => (visibility, r.skipStatement)
  | .template => (visibility, r.moveTo (r.cursor.advance.skipBlock '<' '>'))
  | .member => (visibility, r.takeVisible options ⟨some owner, visibility, depth⟩)

/-- A body is closed by a `}`. -/
theorem bodyItem_close_iff (c : Cursor) : bodyItem c = .close ↔ c.sees '}' = true := by
  unfold bodyItem Cursor.sees Token.isMark
  split <;> grind

/-- A block in a body begins with a `{`. -/
theorem sees_of_bodyItem_block {c : Cursor} (h : bodyItem c = .block) : c.sees '{' = true := by
  unfold bodyItem at h
  unfold Cursor.sees Token.isMark
  split at h <;> grind

/-- A nested type goes onward from behind its marker. -/
theorem onward_nested (options : ScanOptions) (depth : Nat) (r : Reader) :
    r.advance.Onward
      (takeReflected options depth r.cursor.advance.takeTraits.1 (r.moveTo r.cursor.advance.takeTraits.2)).2 :=
  ((Onward.refl r.advance).moveTo (Cursor.onward_takeTraits _)).trans (onward_takeReflected options depth _ _)

/-- The turn of a body reads a token, unless the body is closed. -/
theorem remaining_bodyTurn_lt (options : ScanOptions) (owner : TypeId) (depth : Nat) (visibility : Visibility) {r : Reader}
    (hend : r.cursor.atEnd = false) (hclose : r.cursor.sees '}' = false) :
    (bodyTurn options owner depth visibility r).2.remaining < r.remaining := by
  have hadvance := remaining_advance_lt hend
  unfold bodyTurn
  split
  · exact hadvance
  · exact hadvance
  · rename_i hitem
    exact Cursor.remaining_skipBlock_lt (sees_of_bodyItem_block hitem)
  · exact remaining_advance_advance_lt hend
  · have hchild := (onward_nested options depth r).remaining_lt hend
    dsimp only
    split
    · exact hchild
    · exact hchild
  · exact (onward_takeDescribed r.advance owner true).remaining_lt hend
  · exact Cursor.remaining_skipStatement_lt hend hclose
  · exact (Cursor.onward_skipBlock r.cursor.advance '<' '>').remaining_lt hend
  · exact remaining_takeVisible_lt options _ hend hclose

/-- A body, one turn at a time. -/
theorem takeBody_eq (options : ScanOptions) (owner : TypeId) (depth : Nat) (visibility : Visibility) (r : Reader) :
    takeBody options owner depth visibility r =
      if r.cursor.atEnd then r.noted (.unterminatedBody (r.catalog.name owner))
      else if r.cursor.sees '}' then r.advance
      else
        let turn := bodyTurn options owner depth visibility r
        takeBody options owner depth turn.1 turn.2 := by
  rw [takeBody]
  by_cases hend : r.cursor.atEnd = true
  · rw [dif_pos hend, if_pos hend]
  rw [dif_neg hend, if_neg hend]
  by_cases hclose : r.cursor.sees '}' = true
  · rw [if_pos hclose, (bodyItem_close_iff _).mpr hclose]
  have hend' := Bool.eq_false_iff.mpr hend
  have hlt := remaining_bodyTurn_lt options owner depth visibility hend' (Bool.eq_false_iff.mpr hclose)
  rw [if_neg hclose]
  unfold bodyTurn at hlt ⊢
  cases hitem : bodyItem r.cursor with
  | close => exact absurd ((bodyItem_close_iff _).mp hitem) hclose
  | semicolon => rfl
  | type =>
    have htraits : (r.moveTo r.cursor.advance.takeTraits.2).remaining < r.remaining :=
      (Cursor.onward_takeTraits r.cursor.advance).remaining_lt hend'
    simp only [hitem] at hlt ⊢
    rw [resume_eq htraits]
    split
    · rename_i hid
      simp only [hid] at hlt ⊢
      rw [resume_eq hlt]
    · rename_i hid
      simp only [hid] at hlt ⊢
      rw [resume_eq hlt]
  | block | access visibility | describedProperty | statement | template | member =>
    simp only [hitem] at hlt ⊢
    rw [resume_eq hlt]

/-- A declaration without the care for loops that stay: the head of a type always goes onward. -/
theorem takeReflected_eq (options : ScanOptions) (depth : Nat) (traits : Traits) (r : Reader) :
    takeReflected options depth traits r =
      if r.cursor.seesWordOf ["struct", "class"] then
        let isClass := r.cursor.seesWord "class"
        let head := r.takeTypeHeader options isClass
        match head.1 with
        | .none => (none, head.2)
        | .absent id => (some id, head.2.addTraits id traits)
        | .follows id =>
          let visibility := if isClass then .privateAccess else .publicAccess
          (some id, ((takeBody options id (depth + 1) visibility head.2).pass ';').addTraits id traits)
      else if r.cursor.seesWord "enum" then
        match r.takeEnum.1 with
        | some id => (some id, r.takeEnum.2.addTraits id traits)
        | none => (none, r.takeEnum.2)
      else (none, r.noted (.markerWithoutType r.cursor.peek.location)) := by
  rw [takeReflected]
  dsimp only
  rewrite [keep_eq (onward_takeTypeHeader options _ r)]
  rfl

/-- Induction along the nesting of types: what holds of a declaration if it holds of the body behind its head, and of a body at its
end and of a turn in front of the rest of the body, holds of every declaration behind a type marker and of every body. -/
theorem takeReflected_induction {options : ScanOptions} {P : Nat → Traits → Reader → Option TypeId × Reader → Prop}
    {Q : TypeId → Nat → Visibility → Reader → Reader → Prop}
    (hreflected : ∀ (depth : Nat) (traits : Traits) (r : Reader),
      let head := r.takeTypeHeader options (r.cursor.seesWord "class")
      (∀ id visibility, head.1 = .follows id → Q id (depth + 1) visibility head.2 (takeBody options id (depth + 1) visibility head.2)) →
        P depth traits r (takeReflected options depth traits r))
    (hend : ∀ (owner : TypeId) (depth : Nat) (visibility : Visibility) (r : Reader), r.cursor.atEnd = true →
      Q owner depth visibility r (r.noted (.unterminatedBody (r.catalog.name owner))))
    (hclose : ∀ (owner : TypeId) (depth : Nat) (visibility : Visibility) (r : Reader), r.cursor.atEnd = false →
      r.cursor.sees '}' = true → Q owner depth visibility r r.advance)
    (hturn : ∀ (owner : TypeId) (depth : Nat) (visibility : Visibility) (r : Reader), r.cursor.atEnd = false →
      r.cursor.sees '}' = false →
      let traits := r.cursor.advance.takeTraits
      let turn := bodyTurn options owner depth visibility r
      P depth traits.1 (r.moveTo traits.2) (takeReflected options depth traits.1 (r.moveTo traits.2)) →
        Q owner depth turn.1 turn.2 (takeBody options owner depth turn.1 turn.2) →
          Q owner depth visibility r (takeBody options owner depth turn.1 turn.2)) :
    (∀ (depth : Nat) (traits : Traits) (r : Reader), P depth traits r (takeReflected options depth traits r)) ∧
      ∀ (owner : TypeId) (depth : Nat) (visibility : Visibility) (r : Reader),
        Q owner depth visibility r (takeBody options owner depth visibility r) := by
  -- the head of a declaration adds no tokens
  have htype : ∀ (depth : Nat) (traits : Traits) (r : Reader),
      (∀ owner depth visibility (r' : Reader), r'.remaining ≤ r.remaining →
        Q owner depth visibility r' (takeBody options owner depth visibility r')) →
      P depth traits r (takeReflected options depth traits r) := by
    intro depth traits r ih
    refine hreflected depth traits r ?_
    intro id visibility _
    exact ih _ _ _ _ (onward_takeTypeHeader options _ r).remaining_le
  have hall : ∀ (n : Nat) (owner : TypeId) (depth : Nat) (visibility : Visibility) (r : Reader), r.remaining ≤ n →
      Q owner depth visibility r (takeBody options owner depth visibility r) := by
    intro n
    induction n with
    | zero =>
      intro owner depth visibility r hn
      have hatEnd : r.cursor.atEnd = true := by
        cases hat : r.cursor.atEnd with
        | true => rfl
        | false => exact absurd (remaining_advance_lt hat) (by omega)
      rw [takeBody_eq, if_pos hatEnd]
      exact hend owner depth visibility r hatEnd
    | succ n ih =>
      intro owner depth visibility r hn
      rw [takeBody_eq]
      split
      · rename_i hatEnd
        exact hend owner depth visibility r hatEnd
      · rename_i hatEnd
        have hoff := Bool.eq_false_iff.mpr hatEnd
        split
        · rename_i hsees
          exact hclose owner depth visibility r hoff hsees
        · rename_i hsees
          have hoff' := Bool.eq_false_iff.mpr hsees
          have hlt := remaining_bodyTurn_lt options owner depth visibility hoff hoff'
          have htraits : (r.moveTo r.cursor.advance.takeTraits.2).remaining < r.remaining :=
            (Cursor.onward_takeTraits r.cursor.advance).remaining_lt hoff
          refine hturn owner depth visibility r hoff hoff' (htype depth _ _ ?_) (ih _ _ _ _ (by omega))
          exact fun owner depth visibility r' hr' => ih owner depth visibility r' (by omega)
  exact ⟨fun depth traits r => htype depth traits r fun _ _ _ r' _ => hall _ _ _ _ r' (Nat.le_refl _),
    fun owner depth visibility r => hall _ owner depth visibility r (Nat.le_refl _)⟩

/-- One turn of reading a header, begun off its end. -/
def headerTurn (options : ScanOptions) (r : Reader) : Reader :=
  if r.cursor.seesMarker .reflected then
    let traits := r.cursor.advance.takeTraits
    ((r.moveTo traits.2).takeReflected options 0 traits.1).2
  else if r.cursor.seesMarker .command || r.cursor.seesMarker .global then r.takeMember options .top
  else if r.cursor.seesMarker .fake then r.advance.takeFake
  else r.advance

/-- The turn of a header reads a token. -/
theorem remaining_headerTurn_lt (options : ScanOptions) {r : Reader} (hend : r.cursor.atEnd = false) :
    (r.headerTurn options).remaining < r.remaining := by
  unfold headerTurn
  split
  · exact (onward_nested options 0 r).remaining_lt hend
  · split
    · rename_i hmarker
      refine remaining_takeMember_lt options .top hend ?_
      rcases Bool.or_eq_true_iff.mp hmarker with h | h
      · exact Cursor.sees_of_seesWord h '}'
      · exact Cursor.sees_of_seesWord h '}'
    · split
      · exact (onward_takeFake r.advance).remaining_lt hend
      · exact remaining_advance_lt hend

/-- A header, one turn at a time. -/
theorem takeHeader_eq (options : ScanOptions) (r : Reader) :
    takeHeader options r = if r.cursor.atEnd then r else takeHeader options (r.headerTurn options) := by
  rw [takeHeader]
  by_cases hend : r.cursor.atEnd = true
  · rw [dif_pos hend, if_pos hend]
  have hlt := remaining_headerTurn_lt options (Bool.eq_false_iff.mpr hend)
  rw [dif_neg hend, if_neg hend]
  unfold headerTurn at hlt ⊢
  split
  · rename_i h
    rw [if_pos h] at hlt
    dsimp only at hlt ⊢
    rw [resume_eq hlt]
  · rename_i h
    rw [if_neg h] at hlt
    split
    · rename_i h'
      rw [if_pos h'] at hlt
      rw [resume_eq hlt]
    · rename_i h'
      rw [if_neg h'] at hlt
      split
      · rename_i h''
        rw [if_pos h''] at hlt
        rw [resume_eq hlt]
      · rfl

/-! ## Every turn goes onward and only grows the catalog -/

/-- The turn of an argument goes onward. -/
theorem onward_argTurn (r : Reader) : r.Onward r.argTurn.2 := by
  have hrefl := Onward.refl r
  unfold argTurn
  split
  · exact hrefl.advance
  · exact hrefl.advance
  · split
    · exact hrefl.advance.advance
    · exact hrefl.advance
  · have htype := onward_takeType none r
    dsimp only
    split
    · exact htype.resume
    · exact htype.trans (onward_use _ _ _)
  · exact hrefl.advance.noted _

/-- The turn of a parameter goes onward. -/
theorem onward_parameterTurn (r : Reader) : r.Onward r.parameterTurn.2 := by
  unfold parameterTurn
  split
  · exact (Onward.refl r).advance
  · exact ((onward_takeParameter r).moveTo (Cursor.onward_finishParameter _)).resume

/-- The turn of a body goes onward, whatever stands there. -/
theorem onward_bodyTurn (options : ScanOptions) (owner : TypeId) (depth : Nat) (visibility : Visibility) (r : Reader) :
    r.Onward (bodyTurn options owner depth visibility r).2 := by
  have hadvance := (Onward.refl r).advance
  unfold bodyTurn
  split
  · exact hadvance
  · exact hadvance
  · exact Cursor.onward_skipBlock _ _ _
  · exact hadvance.advance
  · have hchild := hadvance.trans (onward_nested options depth r)
    dsimp only
    split
    · exact hchild.nest _ _
    · exact hchild
  · exact hadvance.trans (onward_takeDescribed _ _ _)
  · exact (Onward.refl r).skipStatement
  · exact hadvance.moveTo (Cursor.onward_skipBlock _ _ _)
  · exact onward_takeVisible options _ r

/-- The turn of a header goes onward. -/
theorem onward_headerTurn (options : ScanOptions) (r : Reader) : r.Onward (r.headerTurn options) := by
  have hadvance := (Onward.refl r).advance
  unfold headerTurn
  split
  · exact hadvance.trans (onward_nested options 0 r)
  · split
    · exact onward_takeMember options .top r
    · split
      · exact hadvance.trans (onward_takeFake r.advance)
      · exact hadvance

/-- An argument grows the catalog by the types it mentions. -/
theorem reads_argTurn (r : Reader) : r.Reads r.argTurn.2 := by
  have hrefl := Reads.refl r
  unfold argTurn
  split
  · exact hrefl.advance
  · exact hrefl.advance
  · split
    · exact hrefl.advance.advance
    · exact hrefl.advance
  · have htype := (adds_takeType none r).reads
    dsimp only
    split
    · exact htype.resume
    · exact htype.trans (adds_use _ _ _).reads
  · exact hrefl.advance.noted _

/-- A parameter grows the catalog by the types it mentions. -/
theorem reads_parameterTurn (r : Reader) : r.Reads r.parameterTurn.2 := by
  unfold parameterTurn
  split
  · exact (Reads.refl r).advance
  · exact ((adds_takeParameter r).reads.moveTo _).resume

/-- The turn of a body only grows the catalog, nested types included. -/
theorem reads_bodyTurn (options : ScanOptions) (owner : TypeId) (depth : Nat) (visibility : Visibility) (r : Reader) :
    r.Reads (bodyTurn options owner depth visibility r).2 := by
  have hrefl := Reads.refl r
  unfold bodyTurn
  split
  · exact hrefl.advance
  · exact hrefl.advance
  · exact hrefl.moveTo _
  · exact hrefl.advance.advance
  · have hchild := (hrefl.moveTo _).trans ((adds_takeReflected_and_takeBody options).1 depth r.cursor.advance.takeTraits.1
      (r.moveTo r.cursor.advance.takeTraits.2)).reads
    dsimp only
    split
    · exact hchild.trans (adds_nest _ (Nat.zero_le _) (Nat.zero_le _)).reads
    · exact hchild
  · exact hrefl.advance.trans (adds_takeDescribed _ (Nat.zero_le _) _).reads
  · exact hrefl.skipStatement
  · exact hrefl.moveTo _
  · exact (adds_takeVisible options (Scope.beyond_zero _) r).reads

/-- The turn of a header only grows the catalog. -/
theorem reads_headerTurn (options : ScanOptions) (r : Reader) : r.Reads (r.headerTurn options) := by
  have hrefl := Reads.refl r
  unfold headerTurn
  split
  · exact (hrefl.moveTo _).trans ((adds_takeReflected_and_takeBody options).1 0 _ _).reads
  · split
    · exact (adds_takeMember options (Scope.beyond_zero _) r).reads
    · split
      · exact hrefl.advance.trans (adds_takeFake r.advance).reads
      · exact hrefl.advance

end Reader

end HeaderAtlas
