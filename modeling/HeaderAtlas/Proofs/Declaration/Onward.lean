import HeaderAtlas.Proofs.Cursor.Onward

/-!
# Readers go onward

No function that reads a header goes back in it, whatever stands there (`Reader.Onward`), and those that the loops of reading rely
on have read at least one token when they return: a type expression with a name, an operand that begins as one, a member in front
of anything but a closing brace. So the loops go on where their steps ended: `resume` and `keep` never have to help
(`resume_eq`, `keep_eq`).
-/

namespace HeaderAtlas

namespace Reader

/-- The second reader is where the first one is, or further on in the same text. -/
def Onward (r r' : Reader) : Prop := r.cursor.Onward r'.cursor

namespace Onward

variable {r r' r'' : Reader}

theorem refl (r : Reader) : r.Onward r := Cursor.Onward.refl _

theorem trans (h : r.Onward r') (h' : r'.Onward r'') : r.Onward r'' := Cursor.Onward.trans h h'

/-- Onward there are not more tokens to be read. -/
theorem remaining_le (h : r.Onward r') : r'.remaining ≤ r.remaining := Cursor.Onward.remaining_le h

/-- Onward from the next token there are fewer, unless the end was reached before. -/
theorem remaining_lt (h : r.advance.Onward r') (hr : r.cursor.atEnd = false) : r'.remaining < r.remaining :=
  Cursor.Onward.remaining_lt h hr

/-- The cursor set further on. -/
theorem moveTo (h : r.Onward r') {c : Cursor} (hc : r'.cursor.Onward c) : r.Onward (r'.moveTo c) :=
  Cursor.Onward.trans h hc

/-- A reader that goes onward may go one token further. -/
theorem advance (h : r.Onward r') : r.Onward r'.advance := h.moveTo (Cursor.onward_advance _)

/-- A reader that goes onward may pass a mark. -/
theorem pass (h : r.Onward r') (symbol : Char) : r.Onward (r'.pass symbol) := h.moveTo (Cursor.onward_pass _ symbol)

/-- A reader that goes onward may pass over a statement. -/
theorem skipStatement (h : r.Onward r') : r.Onward r'.skipStatement := h.moveTo (Cursor.onward_skipStatement _)

/-! What is noted and what is recorded leave the cursor. -/

theorem noted (h : r.Onward r') (e : Event) : r.Onward (r'.noted e) := h

theorem edit (h : r.Onward r') (id : TypeId) (f : TypeDef → TypeDef) : r.Onward (r'.edit id f) := h

theorem declare (h : r.Onward r') (d : TypeDef) : r.Onward (r'.declare d).2 := h

theorem refer (h : r.Onward r') (name : String) : r.Onward (r'.refer name).2 := h

theorem nest (h : r.Onward r') (owner child : TypeId) : r.Onward (r'.nest owner child) := h

/-- Going on after a step that goes onward. -/
theorem resume (h : r.Onward r') : r.Onward (r.resume r') := by
  unfold Reader.resume
  split
  · exact h
  · exact r.cursor.onward_advance

/-- Reading goes onward from a step that may have read no token. -/
theorem keep (h : r.Onward r') : r.Onward (r.keep r') := by
  unfold Reader.keep
  split
  · exact h
  · exact refl r

/-- Steps that each go onward go onward one after the other. -/
theorem foldl {α : Type} {f : Reader → α → Reader} (hf : ∀ (r : Reader) a, r.Onward (f r a)) (l : List α) :
    ∀ r : Reader, r.Onward (l.foldl f r) := by
  induction l with
  | nil => exact refl
  | cons a l ih => exact fun r => (hf r a).trans (ih _)

end Onward

/-- After a step that has read a token, reading goes on where the step ended. -/
theorem resume_eq {start after : Reader} (h : after.remaining < start.remaining) : start.resume after = after := if_pos h

/-- After a step that went onward, reading goes on where the step ended. -/
theorem keep_eq {start after : Reader} (h : start.Onward after) : start.keep after = after := if_pos h.remaining_le

/-- Two tokens on there is less to be read, for one of them was there. -/
theorem remaining_advance_advance_lt {r : Reader} (h : r.cursor.atEnd = false) : r.advance.advance.remaining < r.remaining :=
  (Onward.refl r.advance).advance.remaining_lt h

/-! ## Type expressions -/

/-- A type is used where the cursor stands. -/
theorem onward_use (r : Reader) (e : TypeExpr) (name : String) : r.Onward (r.use e name).2 := by
  unfold use
  split <;> exact .refl r

/-- A type expression without a name is read up to where the name should be. -/
theorem takeType_of_none {context : Option TypeId} {r : Reader} (h : r.cursor.takeTypeHead.1.word = none) :
    takeType context r = ({ modifiers := r.cursor.takeTypeHead.1.modifiers }, r.moveTo r.cursor.takeTypeHead.2) := by
  rw [takeType]
  dsimp only
  split
  · rfl
  · rename_i h'
    cases h.symm.trans h'

/-- A type expression with a name: a constructor or destructor, or the use of a type with or without arguments. -/
theorem takeType_of_some {context : Option TypeId} {r : Reader} {word : String}
    (h : r.cursor.takeTypeHead.1.word = some word) :
    takeType context r =
      let head := r.cursor.takeTypeHead
      let parts := head.2.takeParts
      let e := head.1.named r.catalog word parts.1
      if r.atSpecial context word head.2 then (r.moveTo head.2).special head.1 word
      else if parts.2.sees '<' then
        let args := takeTemplateArgs (r.moveTo parts.2.advance)
        let tail := args.2.cursor.takeTypeTail e.modifiers
        ({ e with modifiers := tail.1, templateArgs := args.1 }, args.2.moveTo tail.2)
      else
        let tail := parts.2.takeTypeTail e.modifiers
        ({ e with modifiers := tail.1 }, r.moveTo tail.2) := by
  rw [takeType]
  dsimp only
  split
  · rename_i h'
    cases h.symm.trans h'
  · rename_i word' h'
    obtain rfl : word = word' := Option.some.inj (h.symm.trans h')
    rfl

/-- A type expression goes onward from behind its head, if its arguments do. -/
theorem onward_takeType_of_some {context : Option TypeId} {r : Reader} {word : String}
    (h : r.cursor.takeTypeHead.1.word = some word)
    (hargs : ∀ c : Cursor, c.remaining < r.remaining → (r.moveTo c).Onward (takeTemplateArgs (r.moveTo c)).2) :
    (r.moveTo r.cursor.takeTypeHead.2).Onward (takeType context r).2 := by
  have hparts := r.cursor.takeTypeHead.2.onward_takeParts
  rw [takeType_of_some h]
  dsimp only
  split
  · exact .refl _
  · split
    · have hopened := hparts.trans (Cursor.onward_advance _)
      have hlt := Nat.lt_of_le_of_lt hopened.remaining_le (Cursor.remaining_takeTypeHead_lt h)
      exact (hopened.trans (hargs _ hlt)).trans (Cursor.onward_takeTypeTail _ _)
    · exact hparts.trans (Cursor.onward_takeTypeTail _ _)

/-- Type expressions and template arguments call each other; the induction is on the tokens that are left, arguments coming after
the expression in front of them. -/
theorem onward_takeType_and_takeTemplateArgs (n : Nat) :
    (∀ (context : Option TypeId) (r : Reader), 2 * r.remaining ≤ n → r.Onward (takeType context r).2) ∧
      ∀ r : Reader, 2 * r.remaining + 1 ≤ n → r.Onward (takeTemplateArgs r).2 := by
  induction n with
  | zero =>
    refine ⟨?_, fun r h => absurd h (Nat.not_succ_le_zero _)⟩
    intro context r h
    cases hword : r.cursor.takeTypeHead.1.word with
    | none =>
      rw [takeType_of_none hword]
      exact r.cursor.onward_takeTypeHead
    | some word =>
      have := Cursor.remaining_takeTypeHead_lt hword
      simp only [remaining] at h
      omega
  | succ n ih =>
    obtain ⟨ihType, ihArgs⟩ := ih
    constructor
    · intro context r h
      have hhead : r.Onward (r.moveTo r.cursor.takeTypeHead.2) := r.cursor.onward_takeTypeHead
      cases hword : r.cursor.takeTypeHead.1.word with
      | none =>
        rw [takeType_of_none hword]
        exact hhead
      | some word =>
        refine hhead.trans (onward_takeType_of_some hword ?_)
        intro c hc
        have hmoved : (r.moveTo c).remaining = c.remaining := rfl
        exact ihArgs _ (by omega)
    · intro r h
      rw [takeTemplateArgs]
      split
      · exact .refl r
      · rename_i hend
        have hlt : ∀ {r' : Reader}, r'.remaining < r.remaining → 2 * r'.remaining + 1 ≤ n := by
          intro r' hr'
          omega
        have hend' := Bool.eq_false_iff.mpr hend
        have hadvance := (Onward.refl r).advance
        have hresume : ∀ {r' : Reader}, r.Onward r' → r.Onward (takeTemplateArgs (r.resume r')).2 :=
          fun hr' => hr'.resume.trans (ihArgs _ (hlt (remaining_resume_lt _ hend')))
        split
        · exact hadvance
        · exact hadvance.trans (ihArgs _ (hlt (remaining_advance_lt hend')))
        · split
          · exact hresume hadvance.advance
          · exact hadvance.trans (ihArgs _ (hlt (remaining_advance_lt hend')))
        · have htype := ihType none r (by omega)
          dsimp only
          split
          · exact hresume htype
          · exact hresume (htype.trans (onward_use _ _ _))
        · exact (hadvance.noted _).trans (ihArgs _ (hlt (remaining_advance_lt hend')))

/-- A type expression, with its arguments, goes onward. -/
theorem onward_takeType (context : Option TypeId) (r : Reader) : r.Onward (takeType context r).2 :=
  (onward_takeType_and_takeTemplateArgs _).1 context r (Nat.le_refl _)

/-- Template arguments go onward; they may hold type expressions. -/
theorem onward_takeTemplateArgs (r : Reader) : r.Onward (takeTemplateArgs r).2 :=
  (onward_takeType_and_takeTemplateArgs _).2 r (Nat.le_refl _)

/-- A type expression that is not empty has a name. -/
theorem word_of_takeType {context : Option TypeId} {r : Reader} (h : (takeType context r).1.isEmpty = false) :
    ∃ word, r.cursor.takeTypeHead.1.word = some word := by
  cases hword : r.cursor.takeTypeHead.1.word with
  | none =>
    rw [takeType_of_none hword] at h
    simp [TypeExpr.isEmpty] at h
  | some word => exact ⟨word, rfl⟩

/-- A type expression that is not empty has at least one token. -/
theorem remaining_takeType_lt {context : Option TypeId} {r : Reader} (h : (takeType context r).1.isEmpty = false) :
    (takeType context r).2.remaining < r.remaining := by
  obtain ⟨word, hword⟩ := word_of_takeType h
  have honward : (r.moveTo r.cursor.takeTypeHead.2).Onward (takeType context r).2 :=
    onward_takeType_of_some hword fun _ _ => onward_takeTemplateArgs _
  exact Nat.lt_of_le_of_lt honward.remaining_le (Cursor.remaining_takeTypeHead_lt hword)

/-! ## Members -/

/-- A parameter is a type, a name, a block and a default, each behind the one before. -/
theorem onward_takeParameter (r : Reader) : r.Onward r.takeParameter.2 := by
  have htype := onward_takeType none r
  unfold takeParameter
  dsimp only
  split
  · exact htype
  · refine Onward.moveTo ((htype.moveTo (Cursor.onward_takeWord _)).trans (onward_use _ _ _)) ?_
    exact (Cursor.onward_skipBlock _ _ _).trans (Cursor.onward_takeDefault _)

/-- Parameters go onward by induction on their number. -/
theorem onward_takeParameters (r : Reader) : r.Onward (takeParameters r).2 := by
  fun_induction takeParameters r with
  | case1 r => exact .refl r
  | case2 r => exact .refl r
  | case3 r => exact (Onward.refl r).advance
  | case4 r _ _ _ _ ih => exact (Onward.refl r).advance.trans ih
  | case5 r _ _ _ _ p _ ih =>
    exact ((onward_takeParameter r).moveTo (Cursor.onward_finishParameter _)).resume.trans ih

/-- A property is recorded where the cursor stands. -/
theorem onward_addProperty (r : Reader) (scope : Scope) (p : Property) : r.Onward (r.addProperty scope p) := by
  unfold addProperty
  dsimp only
  split <;> exact .refl r

/-- A method is recorded where the cursor stands. -/
theorem onward_addMethod (r : Reader) (scope : Scope) (m : Method) : r.Onward (r.addMethod scope m) := by
  unfold addMethod
  dsimp only
  split <;> exact .refl r

/-- The type of a member is used where the cursor stands. -/
theorem onward_memberProperty (r : Reader) (scope : Scope) (head : MemberHead) :
    r.Onward (r.memberProperty scope head).2 :=
  onward_use r head.type head.name

/-- The enum of a bit field is read onward, up to the parenthesis that closes it. -/
theorem onward_takeBitSource (r : Reader) : r.Onward r.takeBitSource.2 := by
  have hword := r.cursor.onward_advance.trans (Cursor.onward_takeWord _)
  have hclosed := hword.trans (Cursor.Onward.of_suffix (Cursor.afterFirst_suffix ')' _))
  unfold takeBitSource
  dsimp only
  split
  · split
    · exact ((Onward.refl r).moveTo hclosed).refer _
    · exact hclosed
  · exact .refl r

/-- The length of an array is a number or a qualified name, or is left unread. -/
theorem onward_takeLength (r : Reader) (name : String) : r.Onward (r.takeLength name).2 := by
  have hparts := r.cursor.onward_advance.trans (Cursor.onward_takeLooseParts _)
  unfold takeLength
  dsimp only
  split
  · exact (Onward.refl r).advance
  · split
    · exact hparts
    · exact ((Onward.refl r).moveTo hparts).noted _
  · exact .refl r

/-- An array goes onward: its length, the `]`, its value and the rest of the statement. -/
theorem onward_takeArray (r : Reader) (scope : Scope) (head : MemberHead) : r.Onward (r.takeArray scope head) := by
  unfold takeArray
  dsimp only
  have hlength := (Onward.refl r).advance.trans (onward_takeLength r.advance head.name)
  have hclosed := hlength.moveTo (.of_suffix (Cursor.afterArrayLength_suffix _))
  have hproperty := hclosed.trans (onward_memberProperty _ scope head)
  generalize Reader.memberProperty _ scope head = p at hproperty ⊢
  have hvalue : p.2.cursor.Onward
      (if p.2.cursor.sees '=' then p.2.cursor.advance.capture [';'] else (none, p.2.cursor)).2 := by
    split
    · exact (Cursor.onward_advance _).trans (Cursor.onward_capture _ _)
    · exact .refl _
  exact ((hproperty.moveTo hvalue).trans (onward_addProperty _ scope _)).skipStatement

/-- Each field is recorded where the cursor stands. -/
theorem onward_addDeclarator (scope : Scope) (head : MemberHead) (r : Reader) (d : Declarator) :
    r.Onward (addDeclarator scope head r d) :=
  (onward_memberProperty r scope _).trans (onward_addProperty _ scope _)

/-- The fields are read all at once and recorded where they end. -/
theorem onward_takeFields (r : Reader) (scope : Scope) (head : MemberHead) : r.Onward (r.takeFields scope head) := by
  unfold takeFields
  exact (((Onward.refl r).moveTo (Cursor.onward_takeDeclarators _ _ _)).trans
    (Onward.foldl (onward_addDeclarator scope head) _ _)).skipStatement

/-- A method goes onward: its parameters, the words behind them, and its body. -/
theorem onward_takeMethod (r : Reader) (scope : Scope) (head : MemberHead) : r.Onward (r.takeMethod scope head) := by
  unfold takeMethod
  have hparams := (onward_use r head.type "").advance.trans (onward_takeParameters _)
  exact (hparams.moveTo ((Cursor.onward_takeSpecifiers _ _).trans (Cursor.onward_skipMethodBody _))).trans
    (onward_addMethod _ scope _)

/-- A method, an array and fields all go onward, and so does a callable that is passed over. -/
theorem onward_takeMemberBody (r : Reader) (scope : Scope) (isAnnotated : Bool) (head : MemberHead) :
    r.Onward (r.takeMemberBody scope isAnnotated head) := by
  unfold takeMemberBody
  split
  · split
    · exact onward_takeMethod r scope head
    · exact ((Onward.refl r).moveTo ((Cursor.onward_skipBlock _ _ _).trans (Cursor.onward_skipStatement _))).noted _
  · split
    · exact onward_takeArray r scope head
    · exact onward_takeFields r scope head

/-- The annotation of a member is a marker and a trait list, or nothing. -/
theorem onward_annotated {c : Cursor} {traits : Option Traits × Cursor} (h : takeMemberTraits c = traits) :
    c.Onward traits.2 := by
  rw [← h]
  unfold takeMemberTraits
  split
  · exact c.onward_advance.trans (Cursor.onward_takeTraits _)
  · exact .refl c

/-- A named member goes onward: its convention, its name and its body. -/
theorem onward_takeNamedMember (options : ScanOptions) (r : Reader) (scope : Scope) (location : Location)
    (isAnnotated : Bool) (head : MemberHead) :
    r.Onward (takeNamedMember options r scope location isAnnotated head) := by
  have hname := (r.cursor.onward_takeConvention options none).trans (Cursor.onward_takeMemberName _)
  unfold takeNamedMember
  dsimp only
  split
  · exact onward_takeMemberBody r scope isAnnotated _
  · split
    · exact ((Onward.refl r).moveTo hname).trans (onward_takeMemberBody _ scope isAnnotated _)
    · exact ((Onward.refl r).moveTo (hname.trans (Cursor.onward_skipStatement _))).noted _

/-- The reader in front of the type of a member: behind its annotation, the enum of its bits and its decoration. -/
def beforeMemberType (options : ScanOptions) (r : Reader) : Reader :=
  let traits := takeMemberTraits r.cursor
  let annotated := r.moveTo traits.2
  let bits := if annotated.cursor.seesMarker .bitFlags then annotated.advance.takeBitSource else (none, annotated)
  bits.2.moveTo (bits.2.cursor.takeApiWord options).2

/-- All that may stand in front of the type of a member goes onward. -/
theorem onward_beforeMemberType (options : ScanOptions) (r : Reader) : r.Onward (r.beforeMemberType options) := by
  unfold beforeMemberType
  dsimp only
  generalize htraits : takeMemberTraits r.cursor = traits
  have hannotated := (Onward.refl r).moveTo (onward_annotated htraits)
  generalize r.moveTo traits.2 = annotated at hannotated ⊢
  have hbits : r.Onward (if annotated.cursor.seesMarker .bitFlags then annotated.advance.takeBitSource
      else (none, annotated)).2 := by
    split
    · exact hannotated.advance.trans (onward_takeBitSource _)
    · exact hannotated
  exact hbits.moveTo (Cursor.onward_takeApiWord _ _)

/-- A member is a statement that is passed over, or is read on from its type. -/
theorem takeMember_cases (options : ScanOptions) (scope : Scope) (r : Reader) :
    takeMember options scope r = r.advance.skipStatement ∧ r.cursor.seesMarker .hidden = true ∨
    (∃ event, takeMember options scope r =
        (((r.beforeMemberType options).takeType scope.enclosing).2.noted event).skipStatement) ∨
    ((r.beforeMemberType options).takeType scope.enclosing).1.isEmpty = false ∧
      ∃ location isAnnotated head, takeMember options scope r =
        takeNamedMember options ((r.beforeMemberType options).takeType scope.enclosing).2 scope location isAnnotated head := by
  unfold takeMember beforeMemberType
  dsimp only
  generalize takeMemberTraits r.cursor = traits
  generalize (if (r.moveTo traits.2).cursor.seesMarker .bitFlags then (r.moveTo traits.2).advance.takeBitSource
    else (none, r.moveTo traits.2)) = bits
  split
  · rename_i hhidden
    exact Or.inl ⟨rfl, hhidden⟩
  · split
    · exact Or.inr (Or.inl ⟨_, rfl⟩)
    · rename_i h
      rw [Bool.or_eq_true, not_or] at h
      exact Or.inr (Or.inr ⟨Bool.eq_false_iff.mpr h.1, _, _, _, rfl⟩)

/-- A member goes onward: behind its type comes the rest of its statement. -/
theorem onward_takeMember (options : ScanOptions) (scope : Scope) (r : Reader) :
    r.Onward (takeMember options scope r) := by
  have htype := (r.onward_beforeMemberType options).trans (onward_takeType scope.enclosing _)
  rcases takeMember_cases options scope r with ⟨h, -⟩ | ⟨_, h⟩ | ⟨-, _, _, _, h⟩
  · rw [h]
    exact (Onward.refl r).advance.skipStatement
  · rw [h]
    exact (htype.noted _).skipStatement
  · rw [h]
    exact htype.trans (onward_takeNamedMember ..)

/-- A reader that has gone onward without reading a token is in front of the token it was in front of. -/
theorem Onward.cursor_eq {r r' : Reader} (h : r.Onward r') (hle : r.remaining ≤ r'.remaining) : r'.cursor = r.cursor := by
  obtain ⟨hsource, hfinish, hsuffix⟩ := h
  have hunread := hsuffix.eq_of_length (Nat.le_antisymm hsuffix.length_le hle)
  obtain ⟨_, ⟨source, unread, finish⟩⟩ := r
  obtain ⟨_, ⟨source', unread', finish'⟩⟩ := r'
  subst hsource hfinish hunread
  rfl

/-- Off the end and not in front of a closing brace, a member has at least one token. -/
theorem remaining_takeMember_lt (options : ScanOptions) (scope : Scope) {r : Reader} (hend : r.cursor.atEnd = false)
    (hclose : r.cursor.sees '}' = false) : (takeMember options scope r).remaining < r.remaining := by
  have hbefore := r.onward_beforeMemberType options
  have htype := hbefore.trans (onward_takeType scope.enclosing _)
  rcases takeMember_cases options scope r with ⟨h, -⟩ | ⟨_, h⟩ | ⟨hname, location, isAnnotated, head, h⟩
  · rw [h]
    exact (Onward.refl r.advance).skipStatement.remaining_lt hend
  · rw [h]
    -- either the type expression has read a token, or the statement is passed over from where it began
    have hskip := (Onward.refl ((r.beforeMemberType options).takeType scope.enclosing).2).skipStatement.remaining_le
    rcases Nat.lt_or_ge ((r.beforeMemberType options).takeType scope.enclosing).2.remaining r.remaining with hlt | hge
    · exact Nat.lt_of_le_of_lt hskip hlt
    · have hcursor := htype.cursor_eq hge
      have hlt := Cursor.remaining_skipStatement_lt hend hclose
      rw [← hcursor] at hlt
      exact Nat.lt_of_lt_of_le hlt htype.remaining_le
  · rw [h]
    have hnamed := (onward_takeNamedMember options (takeType scope.enclosing (r.beforeMemberType options)).2 scope location
      isAnnotated head).remaining_le
    exact Nat.lt_of_le_of_lt hnamed (Nat.lt_of_lt_of_le (remaining_takeType_lt hname) hbefore.remaining_le)

/-! ## Enums -/

/-- The value of a name is looked up where the cursor stands. -/
theorem cursor_literal (prior : List EnumValue) (r : Reader) (name : String) : (literal prior r name).2.cursor = r.cursor := by
  unfold literal
  split
  · rfl
  · split <;> rfl

/-- Operands, values in parentheses and operations call each other; the induction is along their calls. -/
theorem onward_takeOperand_and_takeGrouped_and_takeOperations (prior : List EnumValue) :
    (∀ r : Reader, r.Onward (takeOperand prior r).2) ∧ (∀ r : Reader, r.Onward (takeGrouped prior r).2) ∧
      ∀ (value : Int64) (r : Reader), r.Onward (takeOperations prior value r).2 := by
  refine takeOperand.mutual_induct prior (fun r => r.Onward (takeOperand prior r).2)
    (fun r => r.Onward (takeGrouped prior r).2) (fun value r => r.Onward (takeOperations prior value r).2)
    ?_ ?_ ?_ ?_ ?_ ?_ ?_ ?_ ?_ ?_ ?_ ?_ ?_
  · intro r hend
    rw [takeOperand, dif_pos hend]
    exact .refl r
  · intro r hend value hitem
    rw [takeOperand, dif_neg hend, hitem]
    exact (Onward.refl r).advance
  · intro r hend hitem ih
    rw [takeOperand, dif_neg hend, hitem]
    exact (Onward.refl r).advance.trans ih
  · intro r hend hitem ih
    rw [takeOperand, dif_neg hend, hitem]
    exact ((Onward.refl r).advance.trans ih).pass _
  · intro r hend hitem hparen ih
    rw [takeOperand, dif_neg hend, hitem]
    dsimp only
    rw [if_pos hparen]
    exact ((Onward.refl r).advance.advance.resume.trans ih).pass _
  · intro r hend hitem hparen
    rw [takeOperand, dif_neg hend, hitem]
    dsimp only
    rw [if_neg hparen]
    exact (Onward.refl r).advance
  · intro r hend first hitem
    rw [takeOperand, dif_neg hend, hitem]
    dsimp only
    rw [Onward, cursor_literal]
    exact r.cursor.onward_advance.trans (Cursor.onward_takeParts _)
  · intro r hend hitem
    rw [takeOperand, dif_neg hend, hitem]
    exact .refl r
  · intro r first ihOperand ih
    rw [takeGrouped]
    exact ihOperand.keep.trans ih
  · intro value r hend
    rw [takeOperations, dif_pos hend]
    exact .refl r
  · intro value r hend hitem operand ihOperand ih
    rw [takeOperations, dif_neg hend, hitem]
    exact ((Onward.refl r).advance.trans ihOperand).resume.trans ih
  · intro value r hend hitem operand ihOperand ih
    rw [takeOperations, dif_neg hend, hitem]
    exact ((Onward.refl r).advance.trans ihOperand).resume.trans ih
  · intro value r hend hshift hunion
    rw [takeOperations, dif_neg hend]
    split
    · rename_i h
      exact absurd h hshift
    · rename_i h
      exact absurd h hunion
    · exact .refl r

/-- Operands go onward, by the mutual induction with the values in parentheses. -/
theorem onward_takeOperand (prior : List EnumValue) (r : Reader) : r.Onward (takeOperand prior r).2 :=
  (onward_takeOperand_and_takeGrouped_and_takeOperations prior).1 r

/-- A value in parentheses goes onward. -/
theorem onward_takeGrouped (prior : List EnumValue) (r : Reader) : r.Onward (takeGrouped prior r).2 :=
  (onward_takeOperand_and_takeGrouped_and_takeOperations prior).2.1 r

/-- The operations inside of parentheses go onward. -/
theorem onward_takeOperations (prior : List EnumValue) (value : Int64) (r : Reader) :
    r.Onward (takeOperations prior value r).2 :=
  (onward_takeOperand_and_takeGrouped_and_takeOperations prior).2.2 value r

/-- What begins as an operand is read as one, with at least one token. -/
theorem remaining_takeOperand_lt (prior : List EnumValue) {r : Reader} (hend : r.cursor.atEnd = false)
    (hitem : r.cursor.peek.kind.operandItem ≠ .none) : (takeOperand prior r).2.remaining < r.remaining := by
  have hadvance := Onward.refl r.advance
  rw [takeOperand, dif_neg (by rw [hend]; decide)]
  cases h : r.cursor.peek.kind.operandItem with
  | int value => exact hadvance.remaining_lt hend
  | minus => exact (onward_takeOperand prior r.advance).remaining_lt hend
  | group => exact ((onward_takeGrouped prior r.advance).pass _).remaining_lt hend
  | flag =>
    dsimp only
    split
    · rw [resume_eq (remaining_advance_advance_lt hend)]
      exact ((hadvance.advance.trans (onward_takeGrouped prior _)).pass _).remaining_lt hend
    · exact hadvance.remaining_lt hend
  | name first =>
    dsimp only
    rw [remaining, cursor_literal]
    exact (Cursor.onward_takeParts r.cursor.advance).remaining_lt hend
  | none => exact absurd h hitem

/-- The value of an entry goes onward, operand by operand. -/
theorem onward_takeEnumValue (prior : List EnumValue) (value : Option Int64) (r : Reader) :
    r.Onward (takeEnumValue prior value r).2 := by
  fun_induction takeEnumValue prior value r with
  | case1 _ r => exact .refl r
  | case2 _ r => exact .refl r
  | case3 _ r _ _ _ ih => exact ((Onward.refl r).advance.trans (onward_takeOperand prior _)).resume.trans ih
  | case4 _ r _ _ _ ih => exact ((Onward.refl r).advance.trans (onward_takeOperand prior _)).resume.trans ih
  | case5 _ r _ _ ih => exact (Onward.refl r).advance.trans ih
  | case6 _ r _ _ _ ih => exact (onward_takeOperand prior r).resume.trans ih
  | case7 _ r _ _ _ ih => exact ((Onward.refl r).advance.noted _).trans ih

/-- What stands behind the name of an entry goes onward. -/
theorem onward_takeAssignedValue (prior : List EnumValue) (r : Reader) : r.Onward (takeAssignedValue prior r).2 := by
  unfold takeAssignedValue
  split
  · exact (Onward.refl r).advance.trans (onward_takeEnumValue prior none _)
  · exact .refl r

/-- Entries go onward, one at a time, up to the `}`. -/
theorem onward_takeEntries (prior : List EnumValue) (next : Int64) (r : Reader) : r.Onward (takeEntries prior next r).2 := by
  fun_induction takeEntries prior next r with
  | case1 _ _ r => exact .refl r
  | case2 _ _ r => exact (Onward.refl r).advance
  | case3 prior _ r _ _ _ _ _ _ _ ih =>
    have hvalue := (Onward.refl r).advance.trans (onward_takeAssignedValue prior _)
    exact (hvalue.moveTo (Cursor.onward_skipEntry _)).resume.trans ih
  | case4 _ _ r _ _ _ ih => exact (Onward.refl r).advance.trans ih

/-- The type an enum is stored as is a type expression. -/
theorem onward_takeUnderlying (r : Reader) : r.Onward r.takeUnderlying.2 := by
  have htype := (Onward.refl r).advance.trans (onward_takeType none _)
  unfold takeUnderlying
  dsimp only
  split
  · split
    · exact htype
    · exact htype.trans (onward_use _ _ _)
  · exact .refl r

/-- The body of an enum goes onward: its entries and a `;`. -/
theorem onward_takeEnumBody (r : Reader) (name : String) (isScoped : Bool) (underlying : Option TypeId) :
    r.Onward (r.takeEnumBody name isScoped underlying).2 := by
  unfold takeEnumBody
  dsimp only
  split
  · exact ((onward_takeEntries [] 0 r).pass _).noted _
  · exact ((onward_takeEntries [] 0 r).pass _).declare _

/-- An enum goes onward: its name, the type it is stored as and its body. -/
theorem onward_takeEnum (r : Reader) : r.Onward r.takeEnum.2 := by
  have hname : r.cursor.Onward (if r.advance.cursor.seesWordOf ["class", "struct"] then r.cursor.advance.advance
      else r.cursor.advance).takeWord.2 :=
    (Cursor.onward_ite r.cursor.onward_advance_advance r.cursor.onward_advance).trans (Cursor.onward_takeWord _)
  unfold takeEnum
  dsimp only
  generalize (if r.advance.cursor.seesWordOf ["class", "struct"] then r.cursor.advance.advance
    else r.cursor.advance).takeWord = name at hname ⊢
  have hbody := (((Onward.refl r).moveTo hname).trans (onward_takeUnderlying _)).moveTo
    (.of_suffix (Cursor.beforeBody_suffix _))
  split
  · exact ((Onward.refl r).moveTo (hname.trans (Cursor.onward_skipStatement _))).noted _
  · split
    · exact hbody.noted _
    · split
      · exact hbody.advance.trans (onward_takeEnumBody _ _ _ _)
      · exact hbody

/-! ## Headers -/

theorem onward_addBase (id : TypeId) (r : Reader) (name : String) : r.Onward (addBase id r name) := .refl r

/-- The head of a type goes onward: words, bases, and a `{` or the rest of the statement. -/
theorem onward_takeTypeBases (r : Reader) (d : TypeDef) : r.Onward (r.takeTypeBases d).2 := by
  have hdeclared := ((Onward.refl r).moveTo (r.cursor.onward_takeTypeSpecifiers d.flags)).declare
    { d with flags := (r.cursor.takeTypeSpecifiers d.flags).1 }
  unfold takeTypeBases
  dsimp only
  generalize (r.moveTo (r.cursor.takeTypeSpecifiers d.flags).2).declare
    { d with flags := (r.cursor.takeTypeSpecifiers d.flags).1 } = id at hdeclared ⊢
  have hbases : id.2.cursor.Onward (if id.2.cursor.sees ':' then id.2.cursor.advance.takeBases
      else ([], id.2.cursor)).2 := by
    split
    · exact (Cursor.onward_advance _).trans (Cursor.onward_takeBases _)
    · exact .refl _
  generalize (if id.2.cursor.sees ':' then id.2.cursor.advance.takeBases else ([], id.2.cursor)) = bases at hbases ⊢
  have hentered := (hdeclared.moveTo hbases).trans (Onward.foldl (onward_addBase id.1) bases.1 _)
  split
  · exact hentered.advance
  · exact hentered.skipStatement

/-- The head of a struct or class goes onward from behind the word it begins with. -/
theorem onward_advance_takeTypeHeader (options : ScanOptions) (isClass : Bool) (r : Reader) :
    r.advance.Onward (takeTypeHeader options isClass r).2 := by
  have hname := (r.cursor.advance.onward_takeApiWord options).trans (Cursor.onward_takeWord _)
  unfold takeTypeHeader
  dsimp only
  split
  · exact ((Onward.refl r.advance).moveTo (hname.trans (Cursor.onward_skipStatement _))).noted _
  · split
    · exact ((Onward.refl r.advance).moveTo (hname.trans (Cursor.onward_advance _))).noted _
    · exact ((Onward.refl r.advance).moveTo hname).trans (onward_takeTypeBases _ _)

/-- The head of a type goes onward, whether or not a type is declared. -/
theorem onward_takeTypeHeader (options : ScanOptions) (isClass : Bool) (r : Reader) :
    r.Onward (takeTypeHeader options isClass r).2 :=
  (Onward.refl r).advance.trans (onward_advance_takeTypeHeader options isClass r)

/-- The type of a described property stands in a text of its own, so the cursor of the header stays. -/
theorem onward_describedProperty (r : Reader) (traits : Traits) (isVirtual : Bool) :
    r.Onward (r.describedProperty traits isVirtual).2 := by
  unfold describedProperty
  dsimp only
  split
  · exact (Onward.refl r).noted _
  · split
    · exact Onward.refl r
    · rename_i text _ _
      exact onward_use (((r.moveTo (.ofText text)).takeType none).2.moveTo r.cursor) _ _

/-- A described property goes behind its trait list: its type is read from a text of its own. -/
theorem onward_takeDescribed (r : Reader) (owner : TypeId) (isVirtual : Bool) :
    r.Onward (r.takeDescribed owner isVirtual) := by
  have hproperty := ((Onward.refl r).moveTo r.cursor.onward_takeTraits).trans
    (onward_describedProperty _ r.cursor.takeTraits.1 isVirtual)
  unfold takeDescribed
  dsimp only
  split
  · exact (hproperty.edit _ _).pass _
  · exact hproperty.pass _

/-- The properties of a fake type go onward, one at a time. -/
theorem onward_takeFakeBody (id : TypeId) (r : Reader) : r.Onward (takeFakeBody id r) := by
  fun_induction takeFakeBody id r with
  | case1 r => exact .refl r
  | case2 r _ _ ih => exact ((Onward.refl r).advance.trans (onward_takeDescribed _ id false)).resume.trans ih
  | case3 r _ _ _ ih => exact ((Onward.refl r).advance.trans (onward_takeDescribed _ id true)).resume.trans ih
  | case4 r => exact (Onward.refl r).advance
  | case5 r => exact (Onward.refl r).noted _

/-- A fake type goes onward, also one without a name. -/
theorem onward_takeFake (r : Reader) : r.Onward r.takeFake := by
  have htraits := (Onward.refl r).moveTo r.cursor.onward_takeTraits
  unfold takeFake
  dsimp only
  split
  · exact (htraits.declare _).trans (onward_takeFakeBody _ _)
  · exact (htraits.moveTo (.of_suffix (Cursor.afterFake_suffix _))).noted _

/-- A member goes onward, read or passed over. -/
theorem onward_takeVisible (options : ScanOptions) (scope : Scope) (r : Reader) :
    r.Onward (takeVisible options scope r) := by
  unfold takeVisible
  split
  · exact onward_takeMember options scope r
  · exact (Onward.refl r).skipStatement

/-- Off the end and not in front of a closing brace, a member has at least one token, whether it is read or passed over. -/
theorem remaining_takeVisible_lt (options : ScanOptions) (scope : Scope) {r : Reader} (hend : r.cursor.atEnd = false)
    (hclose : r.cursor.sees '}' = false) : (takeVisible options scope r).remaining < r.remaining := by
  unfold takeVisible
  split
  · exact remaining_takeMember_lt options scope hend hclose
  · exact Cursor.remaining_skipStatement_lt hend hclose

/-- A declaration behind a type marker and the body of a type call each other, at any depth of nesting. -/
theorem onward_takeReflected_and_takeBody (options : ScanOptions) :
    (∀ (depth : Nat) (traits : Traits) (r : Reader), r.Onward (takeReflected options depth traits r).2) ∧
      ∀ (owner : TypeId) (depth : Nat) (visibility : Visibility) (r : Reader),
        r.Onward (takeBody options owner depth visibility r) := by
  refine takeReflected.mutual_induct options (fun depth traits r => r.Onward (takeReflected options depth traits r).2)
    (fun owner depth visibility r => r.Onward (takeBody options owner depth visibility r))
    ?_ ?_ ?_ ?_ ?_ ?_ ?_ ?_ ?_ ?_ ?_ ?_ ?_ ?_ ?_ ?_ ?_
  -- a struct or class: without a name, without a body, with a body
  · intro depth traits r hword isClass head hhead
    rw [takeReflected, if_pos hword]
    dsimp only
    rw [hhead]
    exact onward_takeTypeHeader options isClass r
  · intro depth traits r hword isClass head id hhead
    rw [takeReflected, if_pos hword]
    dsimp only
    rw [hhead]
    exact onward_takeTypeHeader options isClass r
  · intro depth traits r hword isClass head id hhead visibility ih
    rw [takeReflected, if_pos hword]
    dsimp only
    rw [hhead]
    exact (((onward_takeTypeHeader options isClass r).keep.trans ih).pass _).edit _ _
  -- an enum: declared, and not
  · intro depth traits r hword henum e id hid
    rw [takeReflected, if_neg hword, if_pos henum]
    dsimp only
    rw [hid]
    exact onward_takeEnum r
  · intro depth traits r hword henum e hid
    rw [takeReflected, if_neg hword, if_pos henum]
    dsimp only
    rw [hid]
    exact onward_takeEnum r
  · intro depth traits r hword henum
    rw [takeReflected, if_neg hword, if_neg henum]
    exact (Onward.refl r).noted _
  · intro owner depth visibility r hend
    rw [takeBody, dif_pos hend]
    exact (Onward.refl r).noted _
  · intro owner depth visibility r hend hitem
    rw [takeBody, dif_neg hend, hitem]
    exact (Onward.refl r).advance
  · intro owner depth visibility r hend hitem ih
    rw [takeBody, dif_neg hend, hitem]
    exact (Onward.refl r).advance.trans ih
  · intro owner depth visibility r hend hitem ih
    rw [takeBody, dif_neg hend, hitem]
    exact ((Onward.refl r).moveTo (Cursor.onward_skipBlock _ _ _)).resume.trans ih
  · intro owner depth visibility r hend label hitem ih
    rw [takeBody, dif_neg hend, hitem]
    exact (Onward.refl r).advance.advance.resume.trans ih
  -- a nested type, which is entered with its owner if it is declared
  · intro owner depth visibility r hend hitem traits child id hid ihChild _ ih
    rw [takeBody, dif_neg hend, hitem]
    dsimp only
    rw [hid]
    have htraits := (Onward.refl r).moveTo (r.cursor.onward_advance.trans (Cursor.onward_takeTraits _))
    exact Onward.trans ((htraits.resume.trans ihChild).nest owner id).resume ih
  · intro owner depth visibility r hend hitem traits child hid ihChild _ ih
    rw [takeBody, dif_neg hend, hitem]
    dsimp only
    rw [hid]
    have htraits := (Onward.refl r).moveTo (r.cursor.onward_advance.trans (Cursor.onward_takeTraits _))
    exact Onward.trans (Onward.resume (htraits.resume.trans ihChild)) ih
  · intro owner depth visibility r hend hitem ih
    rw [takeBody, dif_neg hend, hitem]
    exact ((Onward.refl r).advance.trans (onward_takeDescribed _ owner true)).resume.trans ih
  · intro owner depth visibility r hend hitem ih
    rw [takeBody, dif_neg hend, hitem]
    exact (Onward.refl r).skipStatement.resume.trans ih
  · intro owner depth visibility r hend hitem ih
    rw [takeBody, dif_neg hend, hitem]
    have hblock := (Onward.refl r).moveTo (r.cursor.onward_advance.trans (Cursor.onward_skipBlock _ '<' '>'))
    exact hblock.resume.trans ih
  · intro owner depth visibility r hend hitem ih
    rw [takeBody, dif_neg hend, hitem]
    exact (onward_takeVisible options _ r).resume.trans ih

/-- A declaration behind a type marker goes onward, by the mutual induction with the bodies of types. -/
theorem onward_takeReflected (options : ScanOptions) (depth : Nat) (traits : Traits) (r : Reader) :
    r.Onward (takeReflected options depth traits r).2 :=
  (onward_takeReflected_and_takeBody options).1 depth traits r

/-- The body of a type goes onward, with all that is nested in it. -/
theorem onward_takeBody (options : ScanOptions) (owner : TypeId) (depth : Nat) (visibility : Visibility) (r : Reader) :
    r.Onward (takeBody options owner depth visibility r) :=
  (onward_takeReflected_and_takeBody options).2 owner depth visibility r

/-- A header is read onward to its end. -/
theorem onward_takeHeader (options : ScanOptions) (r : Reader) : r.Onward (takeHeader options r) := by
  fun_induction takeHeader options r with
  | case1 r => exact .refl r
  | case2 r _ _ _ ih =>
    have htraits := (Onward.refl r).moveTo (r.cursor.onward_advance.trans (Cursor.onward_takeTraits _))
    exact (htraits.trans (onward_takeReflected options 0 _ _)).resume.trans ih
  | case3 r _ _ _ ih => exact (onward_takeMember options .top r).resume.trans ih
  | case4 r _ _ _ _ ih => exact ((Onward.refl r).advance.trans (onward_takeFake _)).resume.trans ih
  | case5 r _ _ _ _ ih => exact (Onward.refl r).advance.trans ih

end Reader

end HeaderAtlas
