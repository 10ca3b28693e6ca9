import HeaderAtlas.Proofs.Layout.Alike

/-!
# Declarations over two texts

Two readers that are alike, over a text and over one that a faithful relabeling puts in its place, stay alike through every
declaration. The statements follow the functions that read: methods, members, enums, and the bodies of types with all that may stand
in them. Only the text of defaults is not the same; it is entered with one blank between each two tokens.
-/

namespace HeaderAtlas

/-- A parameter with one blank between each two tokens of its default. -/
def Parameter.plain (p : Parameter) : Parameter := ⟨p.property.plain, p.name, p.defaultText.map spacedText⟩

namespace Reader

/-- A described property has no default. -/
theorem defaultText_describedProperty {r : Reader} {traits : Traits} {isVirtual : Bool} {p : Property}
    (h : (r.describedProperty traits isVirtual).1 = some p) : p.defaultText = none := by
  have huse : ∀ (s : Reader) (e : TypeExpr) (name : String), (s.use e name).1.defaultText = none := by
    intro s e name
    rw [Reader.use]
    split <;> rfl
  unfold Reader.describedProperty at h
  dsimp only at h
  split at h
  · cases h
  · split at h
    · cases h
    · obtain rfl := Option.some.inj h
      exact huse _ _ _

namespace Alike

variable {ρ : Relabeling} {r r' : Reader}

/-! ## Methods -/

/-- A parameter is the same in both texts, but for its default. -/
theorem takeParameter (h : Alike ρ r r') (hf : ρ.Faithful r.cursor) :
    r'.takeParameter.1 = r.takeParameter.1.map Parameter.plain ∧ Alike ρ r.takeParameter.2 r'.takeParameter.2 := by
  have honward := onward_takeType none r
  obtain ⟨htype, htaken⟩ := h.takeType none
  unfold Reader.takeParameter
  generalize Reader.takeType none r = e at honward htype htaken ⊢
  generalize Reader.takeType none r' = e' at htype htaken ⊢
  obtain ⟨type, s⟩ := e
  obtain ⟨type', s'⟩ := e'
  obtain rfl : type' = type := htype
  have hword : s'.cursor.takeWord = ρ.after s.cursor.takeWord := by rw [htaken.cursor, ρ.takeWord_cursor]
  dsimp only
  split
  · exact ⟨rfl, htaken⟩
  · rw [hword, ρ.fst_after, ρ.snd_after]
    have honward' := (honward.moveTo (Cursor.onward_takeWord _)).trans (onward_use _ type' (s.cursor.takeWord.1.getD ""))
    obtain ⟨hproperty, hused⟩ := (htaken.moveTo s.cursor.takeWord.2).use type' (s.cursor.takeWord.1.getD "")
    generalize (s.moveTo s.cursor.takeWord.2).use type' (s.cursor.takeWord.1.getD "") = p at honward' hproperty hused ⊢
    generalize (s'.moveTo (ρ.cursor s.cursor.takeWord.2)).use type' (s.cursor.takeWord.1.getD "") = p' at hproperty hused ⊢
    have hdefault := (hf.onward (Cursor.Onward.trans honward' (Cursor.onward_skipBlock p.2.cursor '[' ']'))).takeDefault_cursor
    rw [hproperty, hused.cursor, ρ.sees_cursor, ρ.skipBlock_cursor, hdefault]
    exact ⟨rfl, hused.moveTo _⟩

/-- One turn of the loop of parameters is the same in both texts, but for the default. -/
theorem parameterTurn (h : Alike ρ r r') (hf : ρ.Faithful r.cursor) :
    r'.parameterTurn.1 = r.parameterTurn.1.map Parameter.plain ∧ Alike ρ r.parameterTurn.2 r'.parameterTurn.2 := by
  obtain ⟨hparameter, htaken⟩ := h.takeParameter hf
  rw [Reader.parameterTurn, Reader.parameterTurn, h.cursor, ρ.seesWord_cursor, ρ.isMark_ahead_cursor]
  split
  · exact ⟨rfl, h.advance⟩
  · refine ⟨hparameter, h.resume ?_⟩
    rw [htaken.cursor, ρ.finishParameter_cursor]
    exact htaken.moveTo _

/-- Parameters are the same in both texts, but for their defaults. -/
theorem takeParameters (h : Alike ρ r r') (hf : ρ.Faithful r.cursor) :
    (Reader.takeParameters r').1 = (Reader.takeParameters r).1.map Parameter.plain ∧
      Alike ρ (Reader.takeParameters r).2 (Reader.takeParameters r').2 := by
  -- the induction is on the tokens that are left
  induction hn : r.remaining using Nat.strongRecOn generalizing r r' with
  | ind n ih =>
    rw [takeParameters_eq r, takeParameters_eq r', h.cursor, ρ.atEnd_cursor, ρ.sees_cursor, ρ.sees_cursor]
    split
    · exact ⟨rfl, h⟩
    · rename_i hend
      split
      · exact ⟨rfl, h.advance⟩
      · obtain ⟨hturn, halike⟩ := h.parameterTurn hf
        have hlt : r.parameterTurn.2.remaining < n := hn ▸ remaining_parameterTurn_lt (by
          rw [Bool.or_eq_true, not_or] at hend
          exact Bool.eq_false_iff.mpr hend.1)
        obtain ⟨hrest, hafter⟩ := ih _ hlt halike (hf.onward (onward_parameterTurn r)) rfl
        refine ⟨?_, hafter⟩
        dsimp only
        rw [hturn, hrest, List.map_append]
        cases r.parameterTurn.1 <;> rfl

/-- A method that differs in its defaults only leaves the readers alike. -/
theorem addMethod (h : Alike ρ r r') (scope : Scope) (m : Method) : Alike ρ (r.addMethod scope m) (r'.addMethod scope m.plain) := by
  rw [Reader.addMethod, Reader.addMethod]
  split
  · refine (h.noted _ _).edit _ fun d => ?_
    simp only [TypeDef.plain, List.map_append, List.map_cons, List.map_nil]
  · refine ⟨?_, h.cursor⟩
    change r'.catalog.addFunction m.plain = (r.catalog.addFunction m).plain
    rw [h.catalog]
    simp only [Catalog.addFunction, Catalog.plain, List.map_append, List.map_cons, List.map_nil]

/-- Methods leave the readers alike: their bodies are passed over in both. -/
theorem takeMethod (h : Alike ρ r r') (hf : ρ.Faithful r.cursor) (scope : Scope) (head : MemberHead) :
    Alike ρ (r.takeMethod scope head) (r'.takeMethod scope head) := by
  have honward := onward_use r head.type ""
  obtain ⟨hproperty, hused⟩ := h.use head.type ""
  unfold Reader.takeMethod
  generalize r.use head.type "" = p at honward hproperty hused ⊢
  generalize r'.use head.type "" = p' at hproperty hused ⊢
  obtain ⟨hparams, htaken⟩ := hused.advance.takeParameters (hf.onward honward.advance)
  have hproperties : ∀ ps : List Parameter,
      (ps.map Parameter.plain).map Parameter.property = (ps.map Parameter.property).map Property.plain := fun ps => by
    rw [List.map_map, List.map_map]
    rfl
  have hnames : ∀ ps : List Parameter, (ps.map Parameter.plain).map Parameter.name = ps.map Parameter.name := fun ps => by
    rw [List.map_map]
    rfl
  have hdefaults : ∀ ps : List Parameter,
      (ps.map Parameter.plain).map Parameter.defaultText = (ps.map Parameter.defaultText).map (Option.map spacedText) := by
    intro ps
    rw [List.map_map, List.map_map]
    rfl
  dsimp only
  rw [hproperty, hparams, htaken.cursor, ρ.takeSpecifiers_cursor, ρ.fst_after, ρ.snd_after, ρ.skipMethodBody_cursor, hproperties,
    hnames, hdefaults]
  exact (htaken.moveTo _).addMethod scope _

/-! ## Members -/

/-- A property that differs in its value only leaves the readers alike. -/
theorem addProperty (h : Alike ρ r r') (scope : Scope) (p : Property) :
    Alike ρ (r.addProperty scope p) (r'.addProperty scope p.plain) := by
  rw [Reader.addProperty, Reader.addProperty]
  split
  · refine (h.noted _ _).edit _ fun d => ?_
    simp only [TypeDef.plain, List.map_append, List.map_cons, List.map_nil]
  · refine ⟨?_, h.cursor⟩
    change r'.catalog.addGlobal p.plain = (r.catalog.addGlobal p).plain
    rw [h.catalog]
    simp only [Catalog.addGlobal, Catalog.plain, List.map_append, List.map_cons, List.map_nil]

/-- The property of a member head has no value yet, and is the same. -/
theorem memberProperty (h : Alike ρ r r') (scope : Scope) (head : MemberHead) :
    ReadAlike ρ (r.memberProperty scope head) (r'.memberProperty scope head) := by
  obtain ⟨hproperty, hused⟩ := h.use head.type head.name
  refine ⟨?_, hused⟩
  rw [Reader.memberProperty, Reader.memberProperty, hproperty]

/-- The enum of a bit field is named by a word. -/
theorem takeBitSource (h : Alike ρ r r') : ReadAlike ρ r.takeBitSource r'.takeBitSource := by
  simp only [Reader.takeBitSource, h.cursor, ρ.sees_cursor, ρ.advance_cursor, ρ.takeWord_cursor, ρ.fst_after, ρ.snd_after,
    ρ.cursor_unread _ (ρ.afterFirst_map ')')]
  split
  · split
    · exact ⟨congrArg some ((h.moveTo _).refer _).1, ((h.moveTo _).refer _).2⟩
    · exact ⟨rfl, h.moveTo _⟩
  · exact ⟨rfl, h⟩

/-- The length of an array is a number or a word, and is the same. -/
theorem takeLength (h : Alike ρ r r') (name : String) : ReadAlike ρ (r.takeLength name) (r'.takeLength name) := by
  have hliteral : ∀ c name, (r'.moveTo c).catalog.literal? name = r.catalog.literal? name := fun c name => by
    change r'.catalog.literal? name = _
    rw [h.catalog, Catalog.literal?_plain]
  have hown : ∀ c name, (r.moveTo c).catalog.literal? name = r.catalog.literal? name := fun _ _ => rfl
  rw [Reader.takeLength, Reader.takeLength, h.cursor, ρ.kind_peek_cursor]
  split
  · exact ⟨rfl, h.advance⟩
  · dsimp only
    rw [ρ.advance_cursor, ρ.takeLooseParts_cursor, ρ.fst_after, ρ.snd_after, hliteral, hown]
    cases r.catalog.literal? (r.cursor.advance.takeLooseParts.1.getLastD _) with
    | some value => exact ⟨rfl, h.moveTo _⟩
    | none => exact ⟨rfl, (h.moveTo _).noted _ _⟩
  · exact ⟨rfl, h⟩

/-- An array differs in its value only. -/
theorem takeArray (h : Alike ρ r r') (hf : ρ.Faithful r.cursor) (scope : Scope) (head : MemberHead) :
    Alike ρ (r.takeArray scope head) (r'.takeArray scope head) := by
  have hlengthOnward := (Onward.refl r).advance.trans (onward_takeLength r.advance head.name)
  obtain ⟨hlength, htaken⟩ := h.advance.takeLength head.name
  unfold Reader.takeArray
  generalize r.advance.takeLength head.name = length at hlengthOnward hlength htaken ⊢
  generalize r'.advance.takeLength head.name = length' at hlength htaken ⊢
  dsimp only
  rw [hlength, htaken.cursor, ρ.cursor_unread _ ρ.afterArrayLength_map]
  have hclosed := htaken.moveTo { length.2.cursor with unread := Cursor.afterArrayLength length.2.cursor.unread }
  have hclosedOnward := hlengthOnward.moveTo (.of_suffix (Cursor.afterArrayLength_suffix length.2.cursor.unread))
  obtain ⟨hproperty, hused⟩ := hclosed.memberProperty scope head
  have husedOnward := hclosedOnward.trans (onward_memberProperty _ scope head)
  generalize (length.2.moveTo _).memberProperty scope head = p at hproperty hused husedOnward ⊢
  generalize (length'.2.moveTo _).memberProperty scope head = p' at hproperty hused ⊢
  have hcapture := (hf.onward (Cursor.Onward.trans husedOnward (Cursor.onward_advance _))).capture_cursor [';']
  rw [hproperty, hused.cursor, ρ.sees_cursor, ρ.advance_cursor]
  split
  · rw [hcapture]
    exact ((hused.moveTo _).addProperty scope _).skipStatement
  · exact ((hused.moveTo _).addProperty scope _).skipStatement

/-- A field differs in its value only. -/
theorem addDeclarator (h : Alike ρ r r') (scope : Scope) (head : MemberHead) (d : Declarator) :
    Alike ρ (Reader.addDeclarator scope head r d) (Reader.addDeclarator scope head r' d.plain) := by
  obtain ⟨hproperty, hused⟩ := h.memberProperty scope
    { head with type := { head.type with modifiers := { head.type.modifiers with shape := d.shape } }, name := d.name }
  rw [Reader.addDeclarator, Reader.addDeclarator]
  dsimp only [Declarator.plain]
  rw [hproperty]
  exact hused.addProperty scope _

/-- Fields that share a type are taken one after the other in both texts. -/
theorem takeFields (h : Alike ρ r r') (hf : ρ.Faithful r.cursor) (scope : Scope) (head : MemberHead) :
    Alike ρ (r.takeFields scope head) (r'.takeFields scope head) := by
  have hfold : ∀ (ds : List Declarator) {s s' : Reader}, Alike ρ s s' →
      Alike ρ (ds.foldl (Reader.addDeclarator scope head) s)
        ((ds.map Declarator.plain).foldl (Reader.addDeclarator scope head) s') := by
    intro ds
    induction ds with
    | nil => exact fun hs => hs
    | cons d ds ih => exact fun hs => ih (hs.addDeclarator scope head d)
  rw [Reader.takeFields, Reader.takeFields, h.cursor, hf.takeDeclarators_cursor]
  exact (hfold _ (h.moveTo _)).skipStatement

/-- What a member is, a method, an array or fields, is seen from a mark. -/
theorem takeMemberBody (h : Alike ρ r r') (hf : ρ.Faithful r.cursor) (scope : Scope) (isAnnotated : Bool) (head : MemberHead) :
    Alike ρ (r.takeMemberBody scope isAnnotated head) (r'.takeMemberBody scope isAnnotated head) := by
  rw [Reader.takeMemberBody, Reader.takeMemberBody, h.cursor, ρ.sees_cursor, ρ.sees_cursor, ρ.skipBlock_cursor,
    ρ.skipStatement_cursor]
  split
  · split
    · exact h.takeMethod hf scope head
    · exact (h.moveTo _).noted _ _
  · split
    · exact h.takeArray hf scope head
    · exact h.takeFields hf scope head

/-- The two locations may differ: they are only noted. -/
theorem takeNamedMember (h : Alike ρ r r') (hf : ρ.Faithful r.cursor) (options : ScanOptions) (scope : Scope)
    (location location' : Location) (isAnnotated : Bool) (head : MemberHead) :
    Alike ρ (Reader.takeNamedMember options r scope location isAnnotated head)
      (Reader.takeNamedMember options r' scope location' isAnnotated head) := by
  have honward := r.cursor.onward_takeConvention options none
  have hname := (hf.onward honward).takeMemberName_cursor
  unfold Reader.takeNamedMember
  dsimp only
  rw [h.cursor, ρ.takeConvention_cursor, ρ.fst_after, ρ.snd_after, hname, ρ.fst_after, ρ.snd_after, ρ.skipStatement_cursor]
  split
  · exact h.takeMemberBody hf scope isAnnotated _
  · split
    · exact (h.moveTo _).takeMemberBody (hf.onward (honward.trans (Cursor.onward_takeMemberName _))) scope isAnnotated _
    · exact (h.moveTo _).noted _ _

/-- Members leave the readers alike, annotated or not. -/
theorem takeMember (h : Alike ρ r r') (hf : ρ.Faithful r.cursor) (options : ScanOptions) (scope : Scope) :
    Alike ρ (Reader.takeMember options scope r) (Reader.takeMember options scope r') := by
  have hannotation := hf.takeMemberTraits_cursor
  have hannotated := (Onward.refl r).moveTo (onward_annotated rfl)
  unfold Reader.takeMember
  dsimp only
  rw [h.cursor, ρ.seesMarker_cursor, hannotation]
  split
  · exact h.advance.skipStatement
  · generalize takeMemberTraits r.cursor = annotation at hannotated ⊢
    rw [ρ.fst_after, ρ.snd_after]
    have hmoved := h.moveTo annotation.2
    generalize r.moveTo annotation.2 = s at hannotated hmoved ⊢
    generalize r'.moveTo (ρ.cursor annotation.2) = s' at hmoved ⊢
    have hbits : ReadAlike ρ (if s.cursor.seesMarker .bitFlags then s.advance.takeBitSource else (none, s))
        (if s'.cursor.seesMarker .bitFlags then s'.advance.takeBitSource else (none, s')) := by
      rw [hmoved.cursor, ρ.seesMarker_cursor]
      split
      · exact hmoved.advance.takeBitSource
      · exact ⟨rfl, hmoved⟩
    have hbitsOnward : r.Onward (if s.cursor.seesMarker .bitFlags then s.advance.takeBitSource else (none, s)).2 := by
      split
      · exact hannotated.advance.trans (onward_takeBitSource _)
      · exact hannotated
    generalize (if s.cursor.seesMarker .bitFlags then s.advance.takeBitSource else (none, s)) = bits at hbits hbitsOnward ⊢
    generalize (if s'.cursor.seesMarker .bitFlags then s'.advance.takeBitSource else (none, s')) = bits' at hbits ⊢
    obtain ⟨hsource, hbits⟩ := hbits
    rw [hsource, hbits.cursor, ρ.takeApiWord_cursor, ρ.fst_after, ρ.snd_after]
    obtain ⟨htype, htaken⟩ := (hbits.moveTo (bits.2.cursor.takeApiWord options).2).takeType scope.enclosing
    have htypeOnward := (hbitsOnward.moveTo (Cursor.onward_takeApiWord _ options)).trans (onward_takeType scope.enclosing _)
    rw [htype]
    split
    · exact (htaken.noted _ _).skipStatement
    · exact htaken.takeNamedMember (hf.onward htypeOnward) options scope _ _ _ _

/-! ## Enums -/

/-- A step that may have read no token goes on at the same place in both. -/
theorem keep {s s' : Reader} (h : Alike ρ r r') (hs : Alike ρ s s') : Alike ρ (r.keep s) (r'.keep s') := by
  rw [Reader.keep, Reader.keep, h.remaining, hs.remaining, h.cursor]
  split
  · exact hs
  · exact hs.moveTo _

/-- The value of a name is looked up in catalogs that agree on it. -/
theorem literal (h : Alike ρ r r') (prior : List EnumValue) (name : String) :
    ReadAlike ρ (Reader.literal prior r name) (Reader.literal prior r' name) := by
  rw [Reader.literal, Reader.literal, h.catalog, Catalog.literal?_plain]
  split
  · exact ⟨rfl, h⟩
  · split
    · exact ⟨rfl, h⟩
    · exact ⟨rfl, h.noted _ _⟩

/-- Readers that are alike read the same operands, values in parentheses and operations. -/
theorem takeOperand_and_takeGrouped_and_takeOperations (ρ : Relabeling) (prior : List EnumValue) :
    (∀ r r' : Reader, Alike ρ r r' → ReadAlike ρ (Reader.takeOperand prior r) (Reader.takeOperand prior r')) ∧
      (∀ r r' : Reader, Alike ρ r r' → ReadAlike ρ (takeGrouped prior r) (takeGrouped prior r')) ∧
        ∀ (value : Int64) (r r' : Reader), Alike ρ r r' →
          ReadAlike ρ (takeOperations prior value r) (takeOperations prior value r') := by
  have hitem : ∀ {r r' : Reader}, Alike ρ r r' → r'.cursor.peek.kind = r.cursor.peek.kind := fun h => by
    rw [h.cursor, ρ.kind_peek_cursor]
  have hoff : ∀ {r r' : Reader}, Alike ρ r r' → ¬r.cursor.atEnd = true → ¬r'.cursor.atEnd = true := fun h hend => by
    rw [h.cursor, ρ.atEnd_cursor]
    exact hend
  refine takeOperand.mutual_induct prior
    (fun r => ∀ r', Alike ρ r r' → ReadAlike ρ (Reader.takeOperand prior r) (Reader.takeOperand prior r'))
    (fun r => ∀ r', Alike ρ r r' → ReadAlike ρ (takeGrouped prior r) (takeGrouped prior r'))
    (fun value r => ∀ r', Alike ρ r r' → ReadAlike ρ (takeOperations prior value r) (takeOperations prior value r'))
    ?_ ?_ ?_ ?_ ?_ ?_ ?_ ?_ ?_ ?_ ?_ ?_ ?_
  · intro r hend r' h
    rw [takeOperand_eq prior r, takeOperand_eq prior r', hitem h, operandItem_of_atEnd hend]
    exact ⟨rfl, h⟩
  · intro r hend value hkind r' h
    rw [takeOperand_eq prior r, takeOperand_eq prior r', hitem h, hkind]
    exact ⟨rfl, h.advance⟩
  · intro r hend hkind ih r' h
    obtain ⟨hvalue, halike⟩ := ih _ h.advance
    rw [takeOperand_eq prior r, takeOperand_eq prior r', hitem h, hkind]
    exact ⟨congrArg (- ·) hvalue, halike⟩
  · intro r hend hkind ih r' h
    obtain ⟨hvalue, halike⟩ := ih _ h.advance
    rw [takeOperand_eq prior r, takeOperand_eq prior r', hitem h, hkind]
    exact ⟨hvalue, halike.pass _⟩
  · intro r hend hkind hparen ih r' h
    obtain ⟨hvalue, halike⟩ := ih _ (h.resume h.advance.advance)
    rw [takeOperand.eq_def prior r, takeOperand.eq_def prior r', dif_neg hend, dif_neg (hoff h hend), hitem h, hkind]
    dsimp only
    rw [h.advance.cursor, ρ.sees_cursor, if_pos hparen, if_pos hparen]
    exact ⟨congrArg (shiftedLeft 1) hvalue, halike.pass _⟩
  · intro r hend hkind hparen r' h
    rw [takeOperand.eq_def prior r, takeOperand.eq_def prior r', dif_neg hend, dif_neg (hoff h hend), hitem h, hkind]
    dsimp only
    rw [h.advance.cursor, ρ.sees_cursor, if_neg hparen, if_neg hparen]
    exact ⟨rfl, h.advance⟩
  · intro r hend first hkind r' h
    rw [takeOperand_eq prior r, takeOperand_eq prior r', hitem h, hkind]
    dsimp only
    rw [h.cursor, ρ.advance_cursor, ρ.takeParts_cursor, ρ.fst_after, ρ.snd_after]
    exact (h.moveTo _).literal prior _
  · intro r hend hkind r' h
    rw [takeOperand_eq prior r, takeOperand_eq prior r', hitem h, hkind]
    exact ⟨rfl, h⟩
  · intro r first ihOperand ih r' h
    obtain ⟨hvalue, halike⟩ := ihOperand _ h
    rw [takeGrouped, takeGrouped, hvalue]
    exact ih _ (h.keep halike)
  · intro value r hend r' h
    rw [takeOperations.eq_def prior value r, takeOperations.eq_def prior value r', dif_pos hend,
      dif_pos (by rw [h.cursor, ρ.atEnd_cursor]; exact hend)]
    exact ⟨rfl, h⟩
  · intro value r hend hkind operand ihOperand ih r' h
    obtain ⟨hvalue, halike⟩ := ihOperand _ h.advance
    rw [takeOperations.eq_def prior value r, takeOperations.eq_def prior value r', dif_neg hend, dif_neg (hoff h hend), hitem h,
      hkind]
    dsimp only
    rw [hvalue]
    exact ih _ (h.resume halike)
  · intro value r hend hkind operand ihOperand ih r' h
    obtain ⟨hvalue, halike⟩ := ihOperand _ h.advance
    rw [takeOperations.eq_def prior value r, takeOperations.eq_def prior value r', dif_neg hend, dif_neg (hoff h hend), hitem h,
      hkind]
    dsimp only
    rw [hvalue]
    exact ih _ (h.resume halike)
  · intro value r hend hshift hunion r' h
    rw [takeOperations.eq_def prior value r, takeOperations.eq_def prior value r', dif_neg hend, dif_neg (hoff h hend), hitem h]
    split
    · rename_i hkind
      exact absurd hkind hshift
    · rename_i hkind
      exact absurd hkind hunion
    · exact ⟨rfl, h⟩

/-- Operands have the same value in both texts. -/
theorem takeOperand (h : Alike ρ r r') (prior : List EnumValue) :
    ReadAlike ρ (Reader.takeOperand prior r) (Reader.takeOperand prior r') :=
  (takeOperand_and_takeGrouped_and_takeOperations ρ prior).1 r r' h

/-- One turn of a value is the same in both texts. -/
theorem valueTurn (h : Alike ρ r r') (prior : List EnumValue) (value : Option Int64) :
    ReadAlike ρ (Reader.valueTurn prior value r) (Reader.valueTurn prior value r') := by
  obtain ⟨hhere, htaken⟩ := h.takeOperand prior
  obtain ⟨hnext, hbehind⟩ := h.advance.takeOperand prior
  rw [Reader.valueTurn, Reader.valueTurn, h.cursor, ρ.kind_peek_cursor]
  split
  · exact ⟨rfl, h.advance⟩
  · exact ⟨congrArg (fun operand => value.map fun v => shiftedLeft v operand) hnext, hbehind⟩
  · exact ⟨congrArg (fun operand => some (value.getD 0 ||| operand)) hnext, hbehind⟩
  · exact ⟨rfl, h.advance⟩
  · exact ⟨congrArg some hhere, htaken⟩
  · exact ⟨rfl, h.advance.noted _ _⟩

/-- Values are the same in both texts, for they are computed from tokens. -/
theorem takeEnumValue (h : Alike ρ r r') (prior : List EnumValue) (value : Option Int64) :
    ReadAlike ρ (Reader.takeEnumValue prior value r) (Reader.takeEnumValue prior value r') := by
  induction hn : r.remaining using Nat.strongRecOn generalizing r r' value with
  | ind n ih =>
    rw [takeEnumValue_eq prior value r, takeEnumValue_eq prior value r', h.cursor, ρ.atEnd_cursor, ρ.sees_cursor, ρ.sees_cursor]
    split
    · exact ⟨rfl, h⟩
    · rename_i hend
      split
      · exact ⟨rfl, h⟩
      · obtain ⟨hvalue, halike⟩ := h.valueTurn prior value
        rw [hvalue]
        exact ih _ (hn ▸ remaining_valueTurn_lt prior value (Bool.eq_false_iff.mpr hend)) halike _ rfl

/-- Whether there is a value is seen from a mark. -/
theorem takeAssignedValue (h : Alike ρ r r') (prior : List EnumValue) :
    ReadAlike ρ (Reader.takeAssignedValue prior r) (Reader.takeAssignedValue prior r') := by
  rw [Reader.takeAssignedValue, Reader.takeAssignedValue, h.cursor, ρ.sees_cursor]
  split
  · exact h.advance.takeEnumValue prior none
  · exact ⟨rfl, h⟩

/-- Entries are the same in both texts, with their values. -/
theorem takeEntries (h : Alike ρ r r') (prior : List EnumValue) (next : Int64) :
    ReadAlike ρ (Reader.takeEntries prior next r) (Reader.takeEntries prior next r') := by
  induction hn : r.remaining using Nat.strongRecOn generalizing r r' prior next with
  | ind n ih =>
    rw [takeEntries_eq prior next r, takeEntries_eq prior next r', h.cursor, ρ.atEnd_cursor, ρ.sees_cursor]
    split
    · exact ⟨rfl, h⟩
    · rename_i hend
      split
      · exact ⟨rfl, h.advance⟩
      · have hlt := remaining_entryTurn_lt prior next (Bool.eq_false_iff.mpr hend)
        rw [hn] at hlt
        unfold entryTurn at hlt ⊢
        rw [h.cursor, ρ.word?_peek_cursor]
        cases hword : r.cursor.peek.word? with
        | none =>
          simp only [hword] at hlt ⊢
          exact ih _ hlt h.advance _ _ rfl
        | some name =>
          simp only [hword] at hlt ⊢
          obtain ⟨hvalue, halike⟩ := h.advance.takeAssignedValue prior
          rw [hvalue, halike.cursor, ρ.skipEntry_cursor]
          exact ih _ hlt (halike.moveTo _) _ _ rfl

/-- The type an enum is stored as is the same. -/
theorem takeUnderlying (h : Alike ρ r r') : ReadAlike ρ r.takeUnderlying r'.takeUnderlying := by
  obtain ⟨htype, htaken⟩ := h.advance.takeType none
  rw [Reader.takeUnderlying, Reader.takeUnderlying, h.cursor, ρ.sees_cursor]
  split
  · dsimp only
    rw [htype]
    split
    · exact ⟨rfl, htaken⟩
    · obtain ⟨hproperty, hused⟩ := htaken.use (Reader.takeType none r.advance).1 ""
      exact ⟨congrArg (fun p : Property => some p.type) hproperty, hused⟩
  · exact ⟨rfl, h⟩

/-- An enum is declared in both texts or in neither. -/
theorem takeEnumBody (h : Alike ρ r r') (name : String) (isScoped : Bool) (underlying : Option TypeId) :
    ReadAlike ρ (r.takeEnumBody name isScoped underlying) (r'.takeEnumBody name isScoped underlying) := by
  obtain ⟨hentries, htaken⟩ := h.takeEntries [] 0
  rw [Reader.takeEnumBody, Reader.takeEnumBody, hentries]
  dsimp only
  split
  · exact ⟨rfl, (htaken.pass _).noted _ _⟩
  · let d : TypeDef :=
      { name, flags := { isScopedEnum := isScoped }, enumUnderlying := underlying, enumValues := (Reader.takeEntries [] 0 r).1 }
    have hplain : d.plain = d := rfl
    obtain ⟨hid, hdeclared⟩ := (htaken.pass ';').declare hplain
    exact ⟨congrArg some hid, hdeclared⟩

/-- Enums leave the readers alike. -/
theorem takeEnum (h : Alike ρ r r') : ReadAlike ρ r.takeEnum r'.takeEnum := by
  unfold Reader.takeEnum
  dsimp only
  rw [h.advance.cursor, ρ.seesWordOf_cursor, h.cursor, ρ.advance_cursor, ρ.advance_cursor, ← ρ.cursor_ite, ρ.takeWord_cursor,
    ρ.fst_after, ρ.snd_after, ρ.skipStatement_cursor]
  generalize (if r.advance.cursor.seesWordOf ["class", "struct"] then r.cursor.advance.advance
    else r.cursor.advance).takeWord = name
  cases name.1 with
  | none => exact ⟨rfl, (h.moveTo _).noted _ _⟩
  | some enumName =>
    obtain ⟨hunderlying, htaken⟩ := (h.moveTo name.2).takeUnderlying
    dsimp only
    generalize (r.moveTo name.2).takeUnderlying = underlying at hunderlying htaken ⊢
    generalize (r'.moveTo (ρ.cursor name.2)).takeUnderlying = underlying' at hunderlying htaken ⊢
    have hbody : Cursor.beforeBody (ρ.cursor underlying.2.cursor).unread = ((Cursor.beforeBody underlying.2.cursor.unread).1,
        (Cursor.beforeBody underlying.2.cursor.unread).2.map ρ.token) := ρ.beforeBody_map _
    have hmoved : Alike ρ
        (underlying.2.moveTo { underlying.2.cursor with unread := (Cursor.beforeBody underlying.2.cursor.unread).2 })
        (underlying'.2.moveTo { ρ.cursor underlying.2.cursor with
          unread := (Cursor.beforeBody underlying.2.cursor.unread).2.map ρ.token }) := htaken.moveTo _
    rw [htaken.cursor, hbody, hunderlying]
    generalize underlying.2.moveTo _ = s at hmoved ⊢
    generalize underlying'.2.moveTo _ = s' at hmoved ⊢
    rw [hmoved.cursor, ρ.sees_cursor]
    split
    · exact ⟨rfl, hmoved.noted _ _⟩
    · split
      · exact hmoved.advance.takeEnumBody _ _ _
      · exact ⟨rfl, hmoved⟩

/-! ## Types -/

/-- A base is entered in both catalogs under one handle. -/
theorem addBase (h : Alike ρ r r') (id : TypeId) (name : String) :
    Alike ρ (Reader.addBase id r name) (Reader.addBase id r' name) := by
  obtain ⟨hbase, hreferred⟩ := h.refer name
  rw [Reader.addBase, Reader.addBase, hbase]
  exact hreferred.edit id fun _ => rfl

/-- Traits are entered in both catalogs. -/
theorem addTraits (h : Alike ρ r r') (id : TypeId) (traits : Traits) : Alike ρ (r.addTraits id traits) (r'.addTraits id traits) :=
  h.edit id fun _ => rfl

/-- A type is nested in both catalogs. -/
theorem nest (h : Alike ρ r r') (owner child : TypeId) : Alike ρ (r.nest owner child) (r'.nest owner child) := by
  have hchild : Alike ρ (r.edit child fun d => { d with containing := some owner })
      (r'.edit child fun d => { d with containing := some owner }) := h.edit child fun _ => rfl
  exact hchild.edit owner fun _ => rfl

/-- The head of a type is the same in both texts, with its bases. -/
theorem takeTypeBases (h : Alike ρ r r') {d : TypeDef} (hd : ∀ flags, { d with flags }.plain = { d with flags }) :
    ReadAlike ρ (r.takeTypeBases d) (r'.takeTypeBases d) := by
  have hfold : ∀ (id : TypeId) (names : List String) {s s' : Reader}, Alike ρ s s' →
      Alike ρ (names.foldl (Reader.addBase id) s) (names.foldl (Reader.addBase id) s') := by
    intro id names
    induction names with
    | nil => exact fun hs => hs
    | cons name names ih => exact fun hs => ih (hs.addBase id name)
  unfold Reader.takeTypeBases
  dsimp only
  rw [h.cursor, ρ.takeTypeSpecifiers_cursor, ρ.fst_after, ρ.snd_after]
  obtain ⟨hid, hdeclared⟩ := (h.moveTo (r.cursor.takeTypeSpecifiers d.flags).2).declare (hd (r.cursor.takeTypeSpecifiers d.flags).1)
  generalize (r.moveTo (r.cursor.takeTypeSpecifiers d.flags).2).declare _ = declared at hid hdeclared ⊢
  generalize (r'.moveTo (ρ.cursor (r.cursor.takeTypeSpecifiers d.flags).2)).declare _ = declared' at hid hdeclared ⊢
  have hbases : (if (ρ.cursor declared.2.cursor).sees ':' then (ρ.cursor declared.2.cursor).advance.takeBases
      else ([], ρ.cursor declared.2.cursor)) =
      ρ.after (if declared.2.cursor.sees ':' then declared.2.cursor.advance.takeBases else ([], declared.2.cursor)) := by
    rw [ρ.sees_cursor, ρ.advance_cursor, ρ.takeBases_cursor]
    split <;> rfl
  rw [hid, hdeclared.cursor, hbases, ρ.fst_after, ρ.snd_after]
  generalize (if declared.2.cursor.sees ':' then declared.2.cursor.advance.takeBases else ([], declared.2.cursor)) = bases
  have hbased := hfold declared.1 bases.1 (hdeclared.moveTo bases.2)
  rw [hbased.cursor, ρ.sees_cursor]
  split
  · exact ⟨rfl, hbased.advance⟩
  · exact ⟨rfl, hbased.skipStatement⟩

/-- Whether a type is declared, and whether a body follows, is the same in both texts. -/
theorem takeTypeHeader (h : Alike ρ r r') (options : ScanOptions) (isClass : Bool) :
    ReadAlike ρ (Reader.takeTypeHeader options isClass r) (Reader.takeTypeHeader options isClass r') := by
  unfold Reader.takeTypeHeader
  dsimp only
  rw [h.cursor, ρ.advance_cursor, ρ.takeApiWord_cursor, ρ.fst_after, ρ.snd_after, ρ.takeWord_cursor, ρ.fst_after, ρ.snd_after,
    ρ.skipStatement_cursor, ρ.sees_cursor, ρ.advance_cursor]
  split
  · exact ⟨rfl, (h.moveTo _).noted _ _⟩
  · split
    · exact ⟨rfl, (h.moveTo _).noted _ _⟩
    · exact (h.moveTo _).takeTypeBases fun _ => rfl

/-- The type of a described property stands in a text of its own, the same for both readers. -/
theorem describedProperty (h : Alike ρ r r') (traits : Traits) (isVirtual : Bool) :
    ReadAlike ρ (r.describedProperty traits isVirtual) (r'.describedProperty traits isVirtual) := by
  unfold Reader.describedProperty
  dsimp only
  split
  · exact ⟨rfl, h.noted _ _⟩
  · rename_i text _
    have hsame : Alike ⟨(Cursor.ofText text).source, (Cursor.ofText text).finish, id, fun _ => rfl⟩
        (r.moveTo (Cursor.ofText text)) (r'.moveTo (Cursor.ofText text)) :=
      ⟨h.catalog, congrArg (Cursor.mk _ · _) (List.map_id _).symm⟩
    obtain ⟨htype, htaken⟩ := hsame.takeType none
    have hback : Alike ρ ((Reader.takeType none (r.moveTo (Cursor.ofText text))).2.moveTo r.cursor)
        ((Reader.takeType none (r'.moveTo (Cursor.ofText text))).2.moveTo r'.cursor) := ⟨htaken.catalog, h.cursor⟩
    rw [htype]
    split
    · exact ⟨rfl, hback.noted _ _⟩
    · obtain ⟨hproperty, hused⟩ := hback.use (Reader.takeType none (r.moveTo (Cursor.ofText text))).1 ((traits.get? "name").getD "")
      exact ⟨by rw [hproperty], hused⟩

/-- A described property has its type in a trait, whose text is the same. -/
theorem takeDescribed (h : Alike ρ r r') (hf : ρ.Faithful r.cursor) (owner : TypeId) (isVirtual : Bool) :
    Alike ρ (r.takeDescribed owner isVirtual) (r'.takeDescribed owner isVirtual) := by
  unfold Reader.takeDescribed
  dsimp only
  rw [h.cursor, hf.takeTraits_cursor, ρ.fst_after, ρ.snd_after]
  obtain ⟨hproperty, htaken⟩ := (h.moveTo r.cursor.takeTraits.2).describedProperty r.cursor.takeTraits.1 isVirtual
  rw [hproperty]
  split
  · rename_i property hsome
    have hplain : property.plain = property := by
      have hnone := defaultText_describedProperty hsome
      cases property
      cases hnone
      rfl
    have hedit : ∀ d : TypeDef, { d.plain with properties := d.plain.properties ++ [property] } =
        { d with properties := d.properties ++ [property] }.plain := fun d => by
      simp only [TypeDef.plain, List.map_append, List.map_cons, List.map_nil, hplain]
    exact (htaken.edit owner hedit).pass ';'
  · exact htaken.pass _

/-- Fake types have the same properties in both texts. -/
theorem takeFakeBody (h : Alike ρ r r') (hf : ρ.Faithful r.cursor) (id : TypeId) :
    Alike ρ (Reader.takeFakeBody id r) (Reader.takeFakeBody id r') := by
  induction hn : r.remaining using Nat.strongRecOn generalizing r r' with
  | ind n ih =>
    rw [takeFakeBody_eq id r, takeFakeBody_eq id r', h.cursor, ρ.atEnd_cursor, ρ.seesMarker_cursor, ρ.seesMarker_cursor,
      ρ.seesMarker_cursor]
    split
    · exact h
    · rename_i hend
      split
      · have hturn : Alike ρ (r.fakeTurn id) (r'.fakeTurn id) := by
          rw [Reader.fakeTurn, Reader.fakeTurn, h.cursor, ρ.seesMarker_cursor]
          exact h.advance.takeDescribed (hf.onward (Cursor.onward_advance _)) id _
        have honward : r.Onward (r.fakeTurn id) := (Onward.refl r).advance.trans (onward_takeDescribed _ id _)
        exact ih _ (hn ▸ remaining_fakeTurn_lt id (Bool.eq_false_iff.mpr hend)) hturn (hf.onward honward) rfl
      · split
        · exact h.advance
        · exact h.noted _ _

/-- Fake types leave the readers alike. -/
theorem takeFake (h : Alike ρ r r') (hf : ρ.Faithful r.cursor) : Alike ρ r.takeFake r'.takeFake := by
  unfold Reader.takeFake
  dsimp only
  rw [h.cursor, hf.takeTraits_cursor, ρ.fst_after, ρ.snd_after, ρ.cursor_unread _ ρ.afterFake_map]
  split
  · obtain ⟨hid, hdeclared⟩ := (h.moveTo r.cursor.takeTraits.2).declare (d := { name := _, traits := r.cursor.takeTraits.1 }) rfl
    rw [hid]
    exact hdeclared.takeFakeBody (hf.onward (Cursor.onward_takeTraits _)) _
  · exact (h.moveTo _).noted _ _

/-- Whether a member is read is a matter of its scope, not of the text. -/
theorem takeVisible (h : Alike ρ r r') (hf : ρ.Faithful r.cursor) (options : ScanOptions) (scope : Scope) :
    Alike ρ (Reader.takeVisible options scope r) (Reader.takeVisible options scope r') := by
  rw [Reader.takeVisible, Reader.takeVisible]
  split
  · exact h.takeMember hf options scope
  · exact h.skipStatement

/-- One turn of a body leaves the readers alike if a nested declaration does. -/
theorem bodyTurn (h : Alike ρ r r') (hf : ρ.Faithful r.cursor) (options : ScanOptions) (owner : TypeId) (depth : Nat)
    (visibility : Visibility)
    (hnested : ∀ s', Alike ρ (r.moveTo r.cursor.advance.takeTraits.2) s' →
      ReadAlike ρ (Reader.takeReflected options depth r.cursor.advance.takeTraits.1 (r.moveTo r.cursor.advance.takeTraits.2))
        (Reader.takeReflected options depth r.cursor.advance.takeTraits.1 s')) :
    ReadAlike ρ (Reader.bodyTurn options owner depth visibility r) (Reader.bodyTurn options owner depth visibility r') := by
  have hadvance := hf.onward (Cursor.onward_advance _)
  rw [Reader.bodyTurn, Reader.bodyTurn, h.cursor, ρ.bodyItem_cursor]
  cases bodyItem r.cursor with
  | close => exact ⟨rfl, h.advance⟩
  | semicolon => exact ⟨rfl, h.advance⟩
  | block =>
    dsimp only
    rw [ρ.skipBlock_cursor]
    exact ⟨rfl, h.moveTo _⟩
  | access visibility => exact ⟨rfl, h.advance.advance⟩
  | type =>
    dsimp only
    rw [ρ.advance_cursor, hadvance.takeTraits_cursor, ρ.fst_after, ρ.snd_after]
    obtain ⟨hid, htaken⟩ := hnested _ (h.moveTo _)
    rw [hid]
    split
    · exact ⟨rfl, htaken.nest owner _⟩
    · exact ⟨rfl, htaken⟩
  | describedProperty => exact ⟨rfl, h.advance.takeDescribed hadvance owner true⟩
  | statement => exact ⟨rfl, h.skipStatement⟩
  | template =>
    dsimp only
    rw [ρ.advance_cursor, ρ.skipBlock_cursor]
    exact ⟨rfl, h.moveTo _⟩
  | member => exact ⟨rfl, h.takeVisible hf options _⟩

/-- Readers that are alike read the same declarations behind a type marker, and stay alike through the bodies of types. -/
theorem takeReflected_and_takeBody (ρ : Relabeling) (options : ScanOptions) :
    (∀ (depth : Nat) (traits : Traits) (r r' : Reader), Alike ρ r r' → ρ.Faithful r.cursor →
      ReadAlike ρ (Reader.takeReflected options depth traits r) (Reader.takeReflected options depth traits r')) ∧
    ∀ (owner : TypeId) (depth : Nat) (visibility : Visibility) (r r' : Reader), Alike ρ r r' → ρ.Faithful r.cursor →
      Alike ρ (takeBody options owner depth visibility r) (takeBody options owner depth visibility r') := by
  refine takeReflected_induction
    (P := fun depth traits r x => ∀ r', Alike ρ r r' → ρ.Faithful r.cursor →
      ReadAlike ρ x (Reader.takeReflected options depth traits r'))
    (Q := fun owner depth visibility r s => ∀ r', Alike ρ r r' → ρ.Faithful r.cursor →
      Alike ρ s (takeBody options owner depth visibility r')) ?_ ?_ ?_ ?_
  · intro depth traits r head hbody r' h hf
    obtain ⟨hhead, htaken⟩ := h.takeTypeHeader options (r.cursor.seesWord "class")
    obtain ⟨hid, henum⟩ := h.takeEnum
    rw [takeReflected_eq options depth traits r, takeReflected_eq options depth traits r', h.cursor, ρ.seesWordOf_cursor,
      ρ.seesWord_cursor, ρ.seesWord_cursor]
    split
    · dsimp only
      rw [hhead]
      split
      · exact ⟨rfl, htaken⟩
      · exact ⟨rfl, htaken.addTraits _ traits⟩
      · rename_i id hfollows
        have hinside := hbody id (if r.cursor.seesWord "class" then .privateAccess else .publicAccess) hfollows _ htaken
          (hf.onward (onward_takeTypeHeader options _ r))
        exact ⟨rfl, (hinside.pass ';').addTraits id traits⟩
    · split
      · rw [hid]
        split
        · exact ⟨rfl, henum.addTraits _ traits⟩
        · exact ⟨rfl, henum⟩
      · exact ⟨rfl, h.noted _ _⟩
  · intro owner depth visibility r hend r' h hf
    rw [takeBody_eq, h.cursor, ρ.atEnd_cursor, if_pos hend]
    exact h.noted _ _
  · intro owner depth visibility r hend hclose r' h hf
    rw [takeBody_eq, h.cursor, ρ.atEnd_cursor, ρ.sees_cursor, hend, if_neg Bool.false_ne_true, if_pos hclose]
    exact h.advance
  · intro owner depth visibility r hend hclose traits turn hnested hrest r' h hf
    obtain ⟨hvisibility, halike⟩ := h.bodyTurn hf options owner depth visibility fun s' hs =>
      hnested s' hs (hf.onward ((Cursor.onward_advance _).trans (Cursor.onward_takeTraits _)))
    rw [takeBody_eq options owner depth visibility r', h.cursor, ρ.atEnd_cursor, ρ.sees_cursor, hend, if_neg Bool.false_ne_true,
      hclose, if_neg Bool.false_ne_true]
    dsimp only
    rw [hvisibility]
    exact hrest _ halike (hf.onward (onward_bodyTurn options owner depth visibility r))

/-- One turn of a header leaves the readers alike. -/
theorem headerTurn (h : Alike ρ r r') (hf : ρ.Faithful r.cursor) (options : ScanOptions) :
    Alike ρ (r.headerTurn options) (r'.headerTurn options) := by
  have hadvance := hf.onward (Cursor.onward_advance _)
  simp only [Reader.headerTurn, h.cursor, ρ.seesMarker_cursor]
  split
  · rw [ρ.advance_cursor, hadvance.takeTraits_cursor, ρ.fst_after, ρ.snd_after]
    exact ((takeReflected_and_takeBody ρ options).1 0 _ _ _ (h.moveTo _) (hadvance.onward (Cursor.onward_takeTraits _))).2
  · split
    · exact h.takeMember hf options .top
    · split
      · exact h.advance.takeFake hadvance
      · exact h.advance

/-- Whole headers leave the readers alike, turn by turn. -/
theorem takeHeader (h : Alike ρ r r') (hf : ρ.Faithful r.cursor) (options : ScanOptions) :
    Alike ρ (Reader.takeHeader options r) (Reader.takeHeader options r') := by
  induction hn : r.remaining using Nat.strongRecOn generalizing r r' with
  | ind n ih =>
    rw [takeHeader_eq options r, takeHeader_eq options r', h.cursor, ρ.atEnd_cursor]
    split
    · exact h
    · rename_i hend
      exact ih _ (hn ▸ remaining_headerTurn_lt options (Bool.eq_false_iff.mpr hend)) (h.headerTurn hf options)
        (hf.onward (onward_headerTurn options r)) rfl

end Alike

end Reader

end HeaderAtlas
