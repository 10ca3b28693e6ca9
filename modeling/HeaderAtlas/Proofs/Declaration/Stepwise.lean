import HeaderAtlas.Proofs.Declaration.Step

/-!
# Every reading function goes step by step

Each function that reads is a sequence of steps of reading, and the handles it gives back have records (`Reader.Yields`): those that
a type expression found or made, the type a declaration made. The proof goes from one function to the next in the order in which
they call each other, as the one that reading only grows a catalog does; type expressions and bodies are taken along their own
inductions (`takeType_induction`, `takeReflected_induction`).
-/

namespace HeaderAtlas

namespace Reader

variable {options : ScanOptions} {r r' r'' start after : Reader} {scope : Scope}

/-! ## Type expressions -/

/-- The placeholder of a name has a record. -/
theorem yields_placeholderFor (options : ScanOptions) (hr : r.catalog.Inv) (name : String) :
    r.Yields options (r.placeholderFor name).2 [(r.placeholderFor name).1] := by
  have hsteps : r.Steps options (r.placeholderFor name).2 := .single (.placeholder name)
  refine ⟨hsteps, ?_⟩
  intro id hid
  rw [List.mem_singleton.mp hid]
  exact ((hsteps.inv hr).placeholder (r.catalog.get?_placeholder name)).1

/-- What a name refers to has a record, found or made. -/
theorem yields_refer (options : ScanOptions) (hr : r.catalog.Inv) (name : String) : r.Yields options (r.refer name).2 [(r.refer name).1] := by
  unfold refer Recorder.reference
  dsimp only
  split
  · rename_i id hid
    exact ⟨.refl r, fun i hi => List.mem_singleton.mp hi ▸ (hr.lookup_declared hid).1⟩
  · exact yields_placeholderFor options hr name

/-- The handles of a property are those of its type expression. -/
theorem yields_use (options : ScanOptions) (hr : r.catalog.Inv) {e : TypeExpr} (he : ∀ id ∈ e.handles, r.catalog.Has id) (name : String) :
    r.Yields options (r.use e name).2 (r.use e name).1.handles := by
  simp only [TypeExpr.handles, List.mem_append, Option.mem_toList] at he
  unfold use
  split
  · rename_i id hid
    refine ⟨.refl r, ?_⟩
    intro i hi
    simp only [TypeExpr.property, Property.handles, Option.toList_none, List.nil_append, List.mem_cons] at hi
    rcases hi with rfl | hi
    · exact he i (Or.inl hid)
    · exact he i (Or.inr hi)
  · have hp := yields_placeholderFor options hr e.name
    refine ⟨hp.steps, ?_⟩
    intro i hi
    simp only [TypeExpr.property, Property.handles, Option.toList_none, List.nil_append, List.mem_cons] at hi
    rcases hi with rfl | hi
    · exact hp.has _ List.mem_cons_self
    · exact hp.steps.has (he i (Or.inr hi))

/-- The return type of a constructor is `void`, which has a record. -/
theorem yields_special (hr : r.catalog.Inv) (head : TypeHead) (word : String) :
    r.Yields options (r.special head word).2 (r.special head word).1.handles := by
  have hvoid := yields_refer options hr "void"
  refine ⟨hvoid.steps, ?_⟩
  intro id hid
  exact hvoid.has id hid

/-- What a name is taken for has a record. -/
theorem has_named {c : Catalog} (hc : c.Inv) (head : TypeHead) (word : String) (parts : List String) :
    ∀ id ∈ (head.named c word parts).handles, c.Has id := by
  have hlookup : ∀ {name id}, c.lookup name = some id → c.Has id := fun h => (hc.lookup_declared h).1
  have hfold : ∀ (parts : List String) (named : String × Option TypeId), (∀ id, named.2 = some id → c.Has id) →
      ∀ id, (parts.foldl (addPart c) named).2 = some id → c.Has id := by
    intro parts
    induction parts with
    | nil => exact fun named h => h
    | cons part parts ih =>
      intro named _
      refine ih _ ?_
      intro id hid
      simp only [addPart] at hid
      split at hid
      · rename_i found hfound
        exact hlookup (hfound.trans hid)
      · exact hlookup hid
  intro id hid
  have htype : (head.named c word parts).type = some id := by
    simpa [TypeExpr.handles, TypeHead.named, handlesOfArgs] using hid
  exact hfold parts _ (fun i hi => hlookup hi) id htype

/-- The handles of more arguments are those of the arguments and of the further ones. -/
theorem mem_handlesOfArgs_append (as bs : List TemplateArg) (id : TypeId) :
    id ∈ handlesOfArgs (as ++ bs) ↔ id ∈ handlesOfArgs as ∨ id ∈ handlesOfArgs bs := by
  induction as with
  | nil => simp [handlesOfArgs]
  | cons a as ih => rw [List.cons_append, handlesOfArgs, handlesOfArgs, List.mem_append, List.mem_append, ih, or_assoc]

/-- One turn of reading template arguments. -/
theorem yields_argTurn (hr : r.catalog.Inv) (htype : r.Yields options (takeType none r).2 (takeType none r).1.handles) :
    r.Yields options r.argTurn.2 (handlesOfArgs r.argTurn.1.toList) := by
  have hint : ∀ (value : Int64) (r' : Reader), r'.catalog = r.catalog →
      r.Yields options r' (handlesOfArgs (some (TemplateArg.int value)).toList) :=
    fun value r' h => ⟨.of_eq h, fun id hid => absurd hid List.not_mem_nil⟩
  have hnothing : ∀ r' : Reader, r'.catalog = r.catalog → r.Yields options r' (handlesOfArgs (none : Option TemplateArg).toList) :=
    fun r' h => ⟨.of_eq h, fun id hid => absurd hid List.not_mem_nil⟩
  unfold argTurn
  split
  · exact hnothing _ rfl
  · exact hint _ _ rfl
  · split
    · exact hint _ _ rfl
    · exact hnothing _ rfl
  · dsimp only
    split
    · exact ⟨htype.steps.resume, fun id hid => absurd hid List.not_mem_nil⟩
    · have huse := yields_use options (htype.steps.inv hr) htype.has ""
      refine ⟨htype.steps.trans huse.steps, ?_⟩
      intro id hid
      rw [Option.toList_some, handlesOfArgs, handlesOfArgs, List.append_nil, TemplateArg.handles_type] at hid
      exact huse.has id hid
  · exact hnothing _ rfl

/-- Type expressions are read step by step, and the handles in them have records. -/
theorem yields_takeType_and_takeTemplateArgs :
    (∀ (context : Option TypeId) (r : Reader), r.catalog.Inv →
        r.Yields options (takeType context r).2 (takeType context r).1.handles) ∧
      ∀ r : Reader, r.catalog.Inv → r.Yields options (takeTemplateArgs r).2 (handlesOfArgs (takeTemplateArgs r).1) := by
  refine takeType_induction (P := fun _ r e => r.catalog.Inv → r.Yields options e.2 e.1.handles)
    (Q := fun r args => r.catalog.Inv → r.Yields options args.2 (handlesOfArgs args.1)) ?_ ?_ ?_ ?_ ?_ ?_ ?_
  · exact fun context r _ _ => ⟨.of_eq rfl, fun id hid => absurd hid List.not_mem_nil⟩
  · exact fun context r word _ _ hr => (yields_special (r := r.moveTo r.cursor.takeTypeHead.2) hr _ word).of_moveTo
  · intro context r word _ head parts e args tail _ _ hargs hr
    have hread := hargs hr
    refine ⟨hread.steps, ?_⟩
    intro id hid
    rcases List.mem_append.mp hid with hname | harg
    · exact hread.steps.has (has_named hr head.1 word parts.1 id (List.mem_append_left _ hname))
    · exact hread.has id harg
  · exact fun context r word _ _ _ hr => ⟨.of_eq rfl, has_named hr _ word _⟩
  · exact fun r _ _ => ⟨.refl r, fun id hid => absurd hid List.not_mem_nil⟩
  · exact fun r _ _ _ => ⟨.of_eq rfl, fun id hid => absurd hid List.not_mem_nil⟩
  · intro r _ _ htype hrest hr
    have hturn := yields_argTurn hr (htype hr)
    have hothers := hrest (hturn.steps.inv hr)
    refine ⟨hturn.steps.trans hothers.steps, ?_⟩
    intro id hid
    rcases (mem_handlesOfArgs_append _ _ id).mp hid with harg | hother
    · exact hothers.steps.has (hturn.has id harg)
    · exact hothers.has id hother

/-- The handles of a type expression have records, whatever it is read in. -/
theorem yields_takeType (options : ScanOptions) (hr : r.catalog.Inv) (context : Option TypeId) :
    r.Yields options (takeType context r).2 (takeType context r).1.handles :=
  yields_takeType_and_takeTemplateArgs.1 context r hr

/-! ## Members -/

/-- A parameter holds the handles of its type expression. -/
theorem yields_takeParameter (options : ScanOptions) (hr : r.catalog.Inv) :
    r.Yields options r.takeParameter.2 (r.takeParameter.1.toList.flatMap fun p => p.property.handles) := by
  have htype := yields_takeType options hr none
  unfold takeParameter
  dsimp only
  split
  · exact ⟨htype.steps, fun id hid => absurd hid List.not_mem_nil⟩
  · have huse := yields_use options (r := (takeType none r).2.moveTo (takeType none r).2.cursor.takeWord.2)
      (htype.steps.inv hr) htype.has ((takeType none r).2.cursor.takeWord.1.getD "")
    refine ⟨htype.steps.trans huse.steps, ?_⟩
    intro id hid
    rw [Option.toList_some, List.flatMap_singleton] at hid
    split at hid
    · exact huse.has id hid
    · exact huse.has id hid

/-- What one parameter yields stays while the next ones are read. -/
theorem yields_takeParameters (options : ScanOptions) (r : Reader) (hr : r.catalog.Inv) :
    r.Yields options (takeParameters r).2 ((takeParameters r).1.flatMap fun p => p.property.handles) := by
  fun_induction takeParameters r with
  | case1 r => exact ⟨.refl r, fun id hid => absurd hid List.not_mem_nil⟩
  | case2 r => exact ⟨.refl r, fun id hid => absurd hid List.not_mem_nil⟩
  | case3 r => exact ⟨.of_eq rfl, fun id hid => absurd hid List.not_mem_nil⟩
  | case4 r _ _ _ _ ih => exact (ih hr).of_moveTo
  | case5 r _ _ _ _ p _ ih =>
    have hparameter := yields_takeParameter options hr
    have hmoved : r.Steps options (p.2.moveTo p.2.cursor.finishParameter) := hparameter.steps
    have hsteps := hmoved.resume
    have hothers := ih (hsteps.inv hr)
    refine ⟨hsteps.trans hothers.steps, ?_⟩
    intro id hid
    rw [List.flatMap_append, List.mem_append] at hid
    rcases hid with hfirst | hother
    · refine hothers.steps.has ?_
      rw [catalog_resume]
      exact hparameter.has id hfirst
    · exact hothers.has id hother

/-- Recording a property is a step of reading, where its handles have records. -/
theorem steps_addProperty (hs : scope.Within r.catalog) {p : Property} (hv : Shown options p.modifiers.visibility)
    (hp : ∀ id ∈ p.handles, r.catalog.Has id) : r.Steps options (r.addProperty scope p) := by
  unfold addProperty
  dsimp only
  split
  · rename_i owner howner
    exact .single (.properties (hs owner howner) (List.forall_mem_singleton.mpr hv) (List.forall_mem_singleton.mpr hp))
  · exact .single (.addGlobal hv hp)

/-- Recording a method that is well formed in its scope is a step of reading. -/
theorem steps_addMethod (hs : scope.Within r.catalog) {m : Method} (hdeclaring : m.declaring = scope.enclosing)
    (hv : Shown options m.modifiers.visibility) (hformed : m.Formed r.catalog) (hm : ∀ id ∈ m.handles, r.catalog.Has id) :
    r.Steps options (r.addMethod scope m) := by
  unfold addMethod
  dsimp only
  split
  · rename_i owner howner
    exact .single (.method (hs owner howner) (hdeclaring.trans howner) hv hformed hm)
  · rename_i hnone
    exact .single (.addFunction (hdeclaring.trans hnone) hv hformed hm)

/-- The property of a member head holds the handles of the head. -/
theorem yields_memberProperty (options : ScanOptions) (hr : r.catalog.Inv) (head : MemberHead)
    (hhead : ∀ id ∈ head.handles, r.catalog.Has id) (scope : Scope) : r.Yields options (r.memberProperty scope head).2 (r.memberProperty scope head).1.handles := by
  have huse := yields_use options hr (fun id hid => hhead id (List.mem_append_left _ hid)) head.name
  refine ⟨huse.steps, ?_⟩
  intro id hid
  simp only [memberProperty, Property.handles, List.mem_cons, List.mem_append] at hid
  rcases hid with rfl | hbits | hargs
  · exact huse.has _ List.mem_cons_self
  · exact huse.steps.has (hhead id (List.mem_append_right _ hbits))
  · exact huse.has id (List.mem_cons_of_mem _ (List.mem_append_right _ hargs))

/-- The enum of a bit field has a record, found or made. -/
theorem yields_takeBitSource (hr : r.catalog.Inv) : r.Yields options r.takeBitSource.2 r.takeBitSource.1.toList := by
  unfold takeBitSource
  dsimp only
  split
  · generalize hmoved : r.moveTo _ = moved
    have hsteps : r.Steps options moved := .of_eq (hmoved ▸ rfl)
    split
    · rename_i name _
      have hrefer := yields_refer options (hsteps.inv hr) name
      exact ⟨hsteps.trans hrefer.steps, hrefer.has⟩
    · exact ⟨hsteps, fun id hid => absurd hid List.not_mem_nil⟩
  · exact ⟨.refl r, fun id hid => absurd hid List.not_mem_nil⟩

/-- The length of an array is looked up, and the catalog stays. -/
theorem catalog_takeLength (r : Reader) (name : String) : (r.takeLength name).2.catalog = r.catalog := by
  unfold takeLength
  dsimp only
  split
  · rfl
  · split <;> rfl
  · rfl

/-- An array is the steps of its type and one property. -/
theorem steps_takeArray (hr : r.catalog.Inv) (hs : scope.Within r.catalog) (hv : Shown options scope.visibility)
    {head : MemberHead} (hhead : ∀ id ∈ head.handles, r.catalog.Has id) : r.Steps options (r.takeArray scope head) := by
  unfold takeArray
  dsimp only
  have hlength : r.Steps options (r.advance.takeLength head.name).2 := .of_eq (catalog_takeLength r.advance head.name)
  generalize r.advance.takeLength head.name = length at hlength ⊢
  generalize hmoved : length.2.moveTo _ = moved
  have hsteps : r.Steps options moved := hlength.trans (.of_eq (hmoved ▸ rfl))
  have hp := yields_memberProperty options (hsteps.inv hr) head (fun id hid => hsteps.has (hhead id hid)) scope
  have hall := hsteps.trans hp.steps
  generalize (if (moved.memberProperty scope head).2.cursor.sees '=' then _ else _) = value
  exact hall.trans (steps_addProperty (r := (moved.memberProperty scope head).2.moveTo value.2)
    (p := { (moved.memberProperty scope head).1 with arrayLength := some length.1, defaultText := value.1 })
    (hall.within hr hs) hv hp.has)

/-- A field is the steps of its type and one property. -/
theorem steps_addDeclarator (hr : r.catalog.Inv) (hs : scope.Within r.catalog) (hv : Shown options scope.visibility)
    {head : MemberHead} (hhead : ∀ id ∈ head.handles, r.catalog.Has id) (d : Declarator) :
    r.Steps options (addDeclarator scope head r d) := by
  have hp := yields_memberProperty options hr
    { head with
      type := { head.type with modifiers := { head.type.modifiers with shape := d.shape } }
      name := d.name } hhead scope
  exact hp.steps.trans (steps_addProperty (hp.steps.within hr hs) hv hp.has)

/-- Fields that share a type are recorded one after the other, each with handles that have records. -/
theorem steps_takeFields (hr : r.catalog.Inv) (hs : scope.Within r.catalog) (hv : Shown options scope.visibility)
    {head : MemberHead} (hhead : ∀ id ∈ head.handles, r.catalog.Has id) : r.Steps options (r.takeFields scope head) := by
  have hfold : ∀ (ds : List Declarator) (r : Reader), r.catalog.Inv → scope.Within r.catalog →
      (∀ id ∈ head.handles, r.catalog.Has id) → r.Steps options (ds.foldl (addDeclarator scope head) r) := by
    intro ds
    induction ds with
    | nil => exact fun r _ _ _ => .refl r
    | cons d ds ih =>
      intro r hr hs hhead
      have hfirst := steps_addDeclarator hr hs hv hhead d
      exact hfirst.trans (ih _ (hfirst.inv hr) (hfirst.within hr hs) fun id hid => hfirst.has (hhead id hid))
  unfold takeFields
  dsimp only
  generalize Cursor.takeDeclarators head.name head.type.modifiers.shape r.cursor = fields
  exact hfold fields.1 (r.moveTo fields.2) hr hs hhead

/-- A method is the steps of its return value and its parameters, and then its own. -/
theorem steps_takeMethod (hr : r.catalog.Inv) (hs : scope.Within r.catalog) (hv : Shown options scope.visibility)
    {head : MemberHead} (hhead : ∀ id ∈ head.handles, r.catalog.Has id)
    (hgives : head.type.Gives r.catalog scope.enclosing head.name) : r.Steps options (r.takeMethod scope head) := by
  have huse := yields_use options hr (fun id hid => hhead id (List.mem_append_left _ hid)) ""
  have hparams := yields_takeParameters options (r.use head.type "").2.advance (huse.steps.inv hr)
  have hpaired := paired_takeParameters (r.use head.type "").2.advance
  have hall : r.Steps options (r.use head.type "").2.advance.takeParameters.2 := huse.steps.trans hparams.steps
  unfold takeMethod
  dsimp only
  generalize (r.use head.type "").2.advance.takeParameters = params at hparams hpaired hall ⊢
  have hgives' := hgives.keepsNames (ReadSteps.grows hall).keepsNames fun t ht => (hs t ht).has
  have hformed := formed_recordedMethod (r := r) hgives' hpaired params.2.cursor
  have hshown := (params.2.cursor.takeSpecifiers_keeps (methodModifiers scope head.type.modifiers)).1
  generalize params.2.cursor.takeSpecifiers (methodModifiers scope head.type.modifiers) = specifiers at hformed hshown ⊢
  refine hall.trans (steps_addMethod (r := params.2.moveTo specifiers.2.skipMethodBody) (hall.within hr hs) rfl ?_ hformed ?_)
  · rw [hshown]
    exact hv
  · intro id hid
    simp only [Method.handles, List.mem_append, Option.mem_toList, List.flatMap_map] at hid
    rcases hid with (howner | hreturn) | hparam
    · exact hall.has (hs id howner).has
    · exact hparams.steps.has (huse.has id hreturn)
    · exact hparams.has id hparam

/-- A method, an array or fields are steps, and so is a callable that is passed over. -/
theorem steps_takeMemberBody (hr : r.catalog.Inv) (hs : scope.Within r.catalog) (hv : Shown options scope.visibility)
    (isAnnotated : Bool) (head : MemberHead) (hhead : ∀ id ∈ head.handles, r.catalog.Has id)
    (hgives : head.type.Gives r.catalog scope.enclosing head.name) :
    r.Steps options (r.takeMemberBody scope isAnnotated head) := by
  unfold takeMemberBody
  split
  · split
    · exact steps_takeMethod hr hs hv hhead hgives
    · exact .of_eq rfl
  · split
    · exact steps_takeArray hr hs hv hhead
    · exact steps_takeFields hr hs hv hhead

/-- A constructor or destructor is named by its type expression, any other member by the word behind it. -/
theorem steps_takeNamedMember (hr : r.catalog.Inv) (hs : scope.Within r.catalog) (hv : Shown options scope.visibility)
    (location : Location) (isAnnotated : Bool) {head : MemberHead} (hhead : ∀ id ∈ head.handles, r.catalog.Has id)
    (hgives : head.type.Gives r.catalog scope.enclosing head.type.name) :
    r.Steps options (takeNamedMember options r scope location isAnnotated head) := by
  unfold takeNamedMember
  dsimp only
  split
  · exact steps_takeMemberBody hr hs hv isAnnotated { head with name := head.type.name } hhead hgives
  · rename_i hspecial
    generalize r.cursor.takeConvention options none = convention
    generalize convention.2.takeMemberName = name
    split
    · rename_i name' _
      exact steps_takeMemberBody (r := r.moveTo name.2) hr hs hv isAnnotated
        { head with name := name', convention := convention.1 } hhead
        (TypeExpr.gives_of_not_special (Bool.eq_false_iff.mpr hspecial) _ _ _)
    · exact .of_eq rfl

/-- A member is the steps of what stands in front of its type, of the type and of its body. -/
theorem steps_takeMember (hr : r.catalog.Inv) (hs : scope.Within r.catalog) (hv : Shown options scope.visibility) :
    r.Steps options (takeMember options scope r) := by
  unfold takeMember
  split
  · exact .of_eq rfl
  · dsimp only
    generalize takeMemberTraits r.cursor = annotation
    generalize hannotated : r.moveTo annotation.2 = annotated
    have hmoved : r.Steps options annotated := .of_eq (hannotated ▸ rfl)
    have hbits : annotated.Yields options (if annotated.cursor.seesMarker .bitFlags then annotated.advance.takeBitSource
        else (none, annotated)).2 (if annotated.cursor.seesMarker .bitFlags then annotated.advance.takeBitSource
        else (none, annotated)).1.toList := by
      split
      · exact (yields_takeBitSource (r := annotated.advance) (hmoved.inv hr)).of_moveTo
      · exact ⟨.refl _, fun id hid => absurd hid List.not_mem_nil⟩
    generalize (if annotated.cursor.seesMarker .bitFlags then annotated.advance.takeBitSource
        else (none, annotated)) = bits at hbits ⊢
    have hread := hmoved.trans hbits.steps
    generalize bits.2.cursor.takeApiWord options = api
    have htype := yields_takeType options (r := bits.2.moveTo api.2) (hread.inv hr) scope.enclosing
    have hall : r.Steps options (takeType scope.enclosing (bits.2.moveTo api.2)).2 := hread.trans htype.steps
    split
    · exact hall
    · have hgives := takeType_gives (r := bits.2.moveTo api.2) (hread.inv hr) scope.enclosing
      refine hall.trans (steps_takeNamedMember (hall.inv hr) (hall.within hr hs) hv _ _ ?_ hgives)
      intro id hid
      rcases List.mem_append.mp hid with hused | hsource
      · exact htype.has id hused
      · exact htype.steps.has (hbits.has id hsource)

/-! ## Enums -/

/-- The value of an entry is computed, and the catalog stays. -/
theorem catalog_takeEnumValue (prior : List EnumValue) (value : Option Int64) (r : Reader) :
    (takeEnumValue prior value r).2.catalog = r.catalog := by
  have hoperand := (catalog_takeOperand_and_takeGrouped_and_takeOperations prior).1
  fun_induction takeEnumValue prior value r with
  | case1 => rfl
  | case2 => rfl
  | case3 _ r _ _ _ ih => exact ih.trans ((catalog_resume r _).trans (hoperand r.advance))
  | case4 _ r _ _ _ ih => exact ih.trans ((catalog_resume r _).trans (hoperand r.advance))
  | case5 _ r _ _ ih => exact ih
  | case6 _ r _ _ _ ih => exact ih.trans ((catalog_resume r _).trans (hoperand r))
  | case7 _ r _ _ _ ih => exact ih

/-- The catalog stays while entries are read: they are recorded when all of them are. -/
theorem catalog_takeEntries (prior : List EnumValue) (next : Int64) (r : Reader) :
    (takeEntries prior next r).2.catalog = r.catalog := by
  have hassigned : ∀ (prior : List EnumValue) (r : Reader), (takeAssignedValue prior r).2.catalog = r.catalog := by
    intro prior r
    unfold takeAssignedValue
    split
    · exact catalog_takeEnumValue prior none r.advance
    · rfl
  fun_induction takeEntries prior next r with
  | case1 => rfl
  | case2 => rfl
  | case3 prior _ r _ _ _ _ _ _ _ ih => exact ih.trans ((catalog_resume r _).trans (hassigned prior r.advance))
  | case4 _ _ r _ _ _ ih => exact ih

/-- The type an enum is stored as has a record, found or made. -/
theorem yields_takeUnderlying (options : ScanOptions) (hr : r.catalog.Inv) : r.Yields options r.takeUnderlying.2 r.takeUnderlying.1.toList := by
  unfold takeUnderlying
  dsimp only
  split
  · have htype := yields_takeType options (r := r.advance) hr none
    split
    · exact ⟨htype.steps, fun id hid => absurd hid List.not_mem_nil⟩
    · have huse := yields_use options (htype.steps.inv hr) htype.has ""
      refine ⟨htype.steps.trans huse.steps, ?_⟩
      intro id hid
      rw [Option.toList_some, List.mem_singleton] at hid
      rw [hid]
      exact huse.has _ List.mem_cons_self
  · exact ⟨.refl r, fun id hid => absurd hid List.not_mem_nil⟩

/-- An enum is declared by one step; its record stands at top level until it is nested. -/
theorem steps_takeEnumBody (options : ScanOptions) (hr : r.catalog.Inv) (name : String) (isScoped : Bool) {underlying : Option TypeId}
    (hunderlying : ∀ id, underlying = some id → r.catalog.Has id) :
    r.Steps options (r.takeEnumBody name isScoped underlying).2 ∧
      ∀ id, (r.takeEnumBody name isScoped underlying).1 = some id →
        (r.takeEnumBody name isScoped underlying).2.catalog.Outer id := by
  have hentries : r.Steps options ((takeEntries [] 0 r).2.pass ';') := .of_eq (catalog_takeEntries [] 0 r)
  unfold takeEnumBody
  dsimp only
  split
  · exact ⟨hentries, fun id hid => by cases hid⟩
  · rename_i hsome
    have hvalues : (takeEntries [] 0 r).1 ≠ [] := fun h => hsome (List.isEmpty_iff.mpr h)
    refine ⟨hentries.trans (.single (.declare _ ?_ fun id hid => hentries.has (hunderlying id hid))), ?_⟩
    · exact ⟨rfl, by simp [TypeDef.links], rfl, rfl, fun _ => rfl, fun h => absurd h hvalues⟩
    · rintro id ⟨⟩
      exact (hentries.inv hr).outer_register rfl

/-- An enum is the steps of the type it is stored as, and its own. -/
theorem steps_takeEnum (options : ScanOptions) (hr : r.catalog.Inv) :
    r.Steps options r.takeEnum.2 ∧ ∀ id, r.takeEnum.1 = some id → r.takeEnum.2.catalog.Outer id := by
  unfold takeEnum
  dsimp only
  generalize (if r.advance.cursor.seesWordOf ["class", "struct"] then r.cursor.advance.advance
    else r.cursor.advance).takeWord = name
  split
  · exact ⟨.of_eq rfl, fun id hid => by cases hid⟩
  · rename_i enumName _
    have hunderlying := yields_takeUnderlying options (r := r.moveTo name.2) hr
    generalize (r.moveTo name.2).takeUnderlying = underlying at hunderlying ⊢
    generalize hmoved : underlying.2.moveTo _ = moved
    have hsteps : r.Steps options moved := hunderlying.steps.trans (.of_eq (hmoved ▸ rfl))
    split
    · exact ⟨hsteps, fun id hid => by cases hid⟩
    · split
      · have hhas : ∀ id, underlying.1 = some id → moved.advance.catalog.Has id := by
          intro id hid
          rw [← hmoved]
          exact hunderlying.has id (Option.mem_toList.mpr hid)
        have hbody := steps_takeEnumBody options (r := moved.advance) (hsteps.inv hr) enumName
          (r.advance.cursor.seesWordOf ["class", "struct"]) hhas
        exact ⟨hsteps.trans hbody.1, hbody.2⟩
      · exact ⟨hsteps, fun id hid => by cases hid⟩

/-! ## Headers -/

/-- A base is referred to and entered, in two steps. -/
theorem steps_addBase (options : ScanOptions) (hr : r.catalog.Inv) {id : TypeId} (hid : r.catalog.Owner id) (name : String) :
    r.Steps options (addBase id r name) := by
  have hrefer := yields_refer options hr name
  exact hrefer.steps.trans (.single (.base (hrefer.steps.owner hr hid) (hrefer.has _ List.mem_cons_self)))

/-- The words behind the name of a type say nothing of enums. -/
theorem isScopedEnum_takeTypeSpecifiers (flags : TypeFlags) (c : Cursor) :
    (c.takeTypeSpecifiers flags).1.isScopedEnum = flags.isScopedEnum := by
  fun_induction Cursor.takeTypeSpecifiers flags c with
  | case1 => rfl
  | case2 _ _ _ _ ih => exact ih
  | case3 _ _ _ _ _ ih => exact ih
  | case4 => rfl

/-- The record that a struct or class is declared with holds nothing yet. -/
theorem fresh_headRecord (name : String) (isClass : Bool) (apiWord : Option String) (c : Cursor) :
    { headRecord name isClass apiWord with flags := (c.takeTypeSpecifiers (headRecord name isClass apiWord).flags).1 }.Fresh where
  complete := isComplete_takeTypeSpecifiers _ c
  links := rfl
  properties := rfl
  methods := rfl
  not_class h := absurd rfl h
  not_enum _ := ⟨isScopedEnum_takeTypeSpecifiers _ c, rfl⟩

/-- The head of a type is one step that declares it, and two for each base. -/
theorem steps_takeTypeBases (hr : r.catalog.Inv) (name : String) (isClass : Bool) (apiWord : Option String) :
    let head := r.takeTypeBases (headRecord name isClass apiWord)
    r.Steps options head.2 ∧ ∀ id, head.1 = .absent id ∨ head.1 = .follows id → head.2.catalog.Owner id ∧ head.2.catalog.Outer id := by
  have hfold : ∀ (bases : List String) (r : Reader) (id : TypeId), r.catalog.Inv → r.catalog.Owner id →
      r.Steps options (bases.foldl (addBase id) r) := by
    intro bases
    induction bases with
    | nil => exact fun r _ _ _ => .refl r
    | cons base bases ih =>
      intro r id hr hid
      have hfirst := steps_addBase options hr hid base
      exact hfirst.trans (ih _ id (hfirst.inv hr) (hfirst.owner hr hid))
  have hfresh := fresh_headRecord name isClass apiWord r.cursor
  unfold takeTypeBases
  dsimp only
  generalize r.cursor.takeTypeSpecifiers (headRecord name isClass apiWord).flags = specifiers at hfresh ⊢
  generalize hd : { headRecord name isClass apiWord with flags := specifiers.1 } = d at hfresh ⊢
  have hdeclare : r.Steps options ((r.moveTo specifiers.2).declare d).2 :=
    .single (.declare d hfresh fun id hid => by cases hd ▸ hid)
  have howner : ((r.moveTo specifiers.2).declare d).2.catalog.Owner ((r.moveTo specifiers.2).declare d).1 :=
    hr.owner_register (hd ▸ rfl)
  have houter : ((r.moveTo specifiers.2).declare d).2.catalog.Outer ((r.moveTo specifiers.2).declare d).1 :=
    hr.outer_register hfresh.unlinked.2.2.1
  generalize (r.moveTo specifiers.2).declare d = made at hdeclare howner houter ⊢
  generalize (if made.2.cursor.sees ':' then made.2.cursor.advance.takeBases else ([], made.2.cursor)) = bases
  have hbases : made.2.Steps options (bases.1.foldl (addBase made.1) (made.2.moveTo bases.2)) :=
    hfold bases.1 (made.2.moveTo bases.2) made.1 (hdeclare.inv hr) howner
  have hall := hdeclare.trans hbases
  have hmade := And.intro (hbases.owner (hdeclare.inv hr) howner) (hbases.outer (hdeclare.inv hr) houter)
  split
  · refine ⟨hall, ?_⟩
    rintro id (⟨⟨⟩⟩ | ⟨⟨⟩⟩)
    exact hmade
  · refine ⟨hall, ?_⟩
    rintro id (⟨⟨⟩⟩ | ⟨⟨⟩⟩)
    exact hmade

/-- The head of a type without a name, or with a `;` behind it, takes no steps; any other one goes on with its bases. -/
theorem steps_takeTypeHeader (options : ScanOptions) (hr : r.catalog.Inv) (isClass : Bool) :
    let head := takeTypeHeader options isClass r
    r.Steps options head.2 ∧ ∀ id, head.1 = .absent id ∨ head.1 = .follows id → head.2.catalog.Owner id ∧ head.2.catalog.Outer id := by
  unfold takeTypeHeader
  dsimp only
  generalize r.cursor.advance.takeApiWord options = api
  generalize api.2.takeWord = name
  split
  · exact ⟨.of_eq rfl, by rintro id (⟨⟨⟩⟩ | ⟨⟨⟩⟩)⟩
  · rename_i typeName _
    split
    · exact ⟨.of_eq rfl, by rintro id (⟨⟨⟩⟩ | ⟨⟨⟩⟩)⟩
    · exact steps_takeTypeBases (r := r.moveTo name.2) hr typeName isClass api.1

/-- A described property is the steps of its type, read from a text of its own. -/
theorem steps_describedProperty (options : ScanOptions) (hr : r.catalog.Inv) (traits : Traits) (isVirtual : Bool) :
    let described := r.describedProperty traits isVirtual
    r.Steps options described.2 ∧ ∀ p, described.1 = some p →
      p.modifiers.visibility = .publicAccess ∧ ∀ id ∈ p.handles, described.2.catalog.Has id := by
  unfold describedProperty
  dsimp only
  split
  · exact ⟨.of_eq rfl, by rintro p ⟨⟩⟩
  · rename_i text _
    have htype := yields_takeType options (r := r.moveTo (Cursor.ofText text)) hr none
    generalize (r.moveTo (Cursor.ofText text)).takeType none = e at htype ⊢
    have hsteps : r.Steps options (e.2.moveTo r.cursor) := htype.steps
    split
    · exact ⟨hsteps, by rintro p ⟨⟩⟩
    · have huse := yields_use options (r := e.2.moveTo r.cursor) (hsteps.inv hr) htype.has
        ((traits.get? "name").getD "")
      refine ⟨hsteps.trans huse.steps, ?_⟩
      rintro p ⟨⟩
      exact ⟨rfl, huse.has⟩

/-- A described property is entered by one more step. -/
theorem steps_takeDescribed (hr : r.catalog.Inv) {owner : TypeId} (howner : r.catalog.Owner owner) (isVirtual : Bool) :
    r.Steps options (r.takeDescribed owner isVirtual) := by
  unfold takeDescribed
  dsimp only
  generalize r.cursor.takeTraits = traits
  have hdescribed := steps_describedProperty options (r := r.moveTo traits.2) hr traits.1 isVirtual
  generalize (r.moveTo traits.2).describedProperty traits.1 isVirtual = described at hdescribed ⊢
  obtain ⟨hsteps, hproperty⟩ := hdescribed
  split
  · rename_i p hp
    obtain ⟨hshown, hhas⟩ := hproperty p hp
    have hmember : described.2.Steps options (described.2.edit owner fun d => { d with properties := d.properties ++ [p] }) :=
      .single (.properties (hsteps.owner hr howner) (List.forall_mem_singleton.mpr (Or.inl hshown))
        (List.forall_mem_singleton.mpr hhas))
    exact hsteps.trans hmember
  · exact hsteps

/-- The body of a fake type is the steps of its properties. -/
theorem steps_takeFakeBody {id : TypeId} (r : Reader) (hr : r.catalog.Inv) (hid : r.catalog.Owner id) :
    r.Steps options (takeFakeBody id r) := by
  fun_induction takeFakeBody id r with
  | case1 r => exact .refl r
  | case2 r _ _ ih =>
    have hturn : r.Steps options (r.advance.takeDescribed id false) := steps_takeDescribed (r := r.advance) hr hid false
    exact hturn.resume.trans (ih (hturn.resume.inv hr) (hturn.resume.owner hr hid))
  | case3 r _ _ _ ih =>
    have hturn : r.Steps options (r.advance.takeDescribed id true) := steps_takeDescribed (r := r.advance) hr hid true
    exact hturn.resume.trans (ih (hturn.resume.inv hr) (hturn.resume.owner hr hid))
  | case4 r => exact .of_eq rfl
  | case5 r => exact .of_eq rfl

/-- A fake type is declared by one step, in front of those of its body. -/
theorem steps_takeFake (hr : r.catalog.Inv) : r.Steps options r.takeFake := by
  unfold takeFake
  dsimp only
  generalize r.cursor.takeTraits = traits
  split
  · rename_i name _
    have hfresh : { name, traits := traits.1 : TypeDef }.Fresh := ⟨rfl, rfl, rfl, rfl, fun h => absurd rfl h, fun _ => ⟨rfl, rfl⟩⟩
    have hdeclare : r.Steps options ((r.moveTo traits.2).declare { name, traits := traits.1 }).2 :=
      .single (.declare _ hfresh fun id hid => by cases hid)
    have howner := hr.owner_register (d := { name, traits := traits.1 }) rfl
    exact hdeclare.trans (steps_takeFakeBody _ (hdeclare.inv hr) howner)
  · exact .of_eq rfl

/-- A member is read where its access is shown, and only there. -/
theorem steps_takeVisible (hr : r.catalog.Inv) (hs : scope.Within r.catalog) : r.Steps options (takeVisible options scope r) := by
  unfold takeVisible
  split
  · rename_i hshown
    exact steps_takeMember hr hs hshown
  · exact .of_eq rfl

/-- Traits are entered by one step. -/
theorem steps_addTraits (options : ScanOptions) {id : TypeId} (hid : r.catalog.Stands id) (traits : Traits) : r.Steps options (r.addTraits id traits) :=
  .single (.traits hid traits)

/-- One turn of reading the body of a type. -/
theorem steps_bodyTurn (hr : r.catalog.Inv) {owner : TypeId} (howner : r.catalog.Owner owner) (depth : Nat) (visibility : Visibility)
    (hnested : let traits := r.cursor.advance.takeTraits
      let child := takeReflected options depth traits.1 (r.moveTo traits.2)
      r.Steps options child.2 ∧ ∀ id, child.1 = some id → child.2.catalog.Outer id) :
    r.Steps options (bodyTurn options owner depth visibility r).2 := by
  unfold bodyTurn
  split
  · exact .of_eq rfl
  · exact .of_eq rfl
  · exact .of_eq rfl
  · exact .of_eq rfl
  · dsimp only
    split
    · rename_i id hid
      have hnew := length_records_le_takeReflected hid
      have hlater : owner.index < id.index := Nat.lt_of_lt_of_le howner.has hnew
      exact ReadSteps.nest hnested.1 ⟨hlater, hnested.1.owner hr howner, hnested.2 id hid⟩ (Nat.not_lt.mpr hnew)
    · exact hnested.1
  · exact steps_takeDescribed (r := r.advance) hr howner true
  · exact .of_eq rfl
  · exact .of_eq rfl
  · refine steps_takeVisible hr ?_
    rintro id ⟨⟩
    exact howner

/-- Declarations behind type markers and the bodies of types are read step by step. -/
theorem steps_takeReflected_and_takeBody :
    (∀ (depth : Nat) (traits : Traits) (r : Reader), r.catalog.Inv →
      r.Steps options (takeReflected options depth traits r).2 ∧
        ∀ id, (takeReflected options depth traits r).1 = some id → (takeReflected options depth traits r).2.catalog.Outer id) ∧
      ∀ (owner : TypeId) (depth : Nat) (visibility : Visibility) (r : Reader), r.catalog.Inv → r.catalog.Owner owner →
        r.Steps options (takeBody options owner depth visibility r) := by
  refine takeReflected_induction
    (P := fun _ _ r child => r.catalog.Inv → r.Steps options child.2 ∧ ∀ id, child.1 = some id → child.2.catalog.Outer id)
    (Q := fun owner _ _ r r' => r.catalog.Inv → r.catalog.Owner owner → r.Steps options r') ?_ ?_ ?_ ?_
  · intro depth traits r head hbody hr
    rw [takeReflected_eq]
    split
    · obtain ⟨hhead, howner⟩ := steps_takeTypeHeader options hr (r.cursor.seesWord "class")
      dsimp only
      split
      · exact ⟨hhead, by rintro id ⟨⟩⟩
      · rename_i id hid
        have houter := (howner id (Or.inl hid)).2
        have htraits := steps_addTraits options houter.toStands traits
        refine ⟨hhead.trans htraits, ?_⟩
        rintro _ ⟨⟩
        exact htraits.outer (hhead.inv hr) houter
      · rename_i id hid
        generalize (if r.cursor.seesWord "class" then Visibility.privateAccess else .publicAccess) = visibility
        have hread := hbody id visibility hid (hhead.inv hr) (howner id (Or.inr hid)).1
        have houter := hread.outer (hhead.inv hr) (howner id (Or.inr hid)).2
        have hall := hhead.trans hread
        have htraits := steps_addTraits options (r := (takeBody options id (depth + 1) visibility head.2).pass ';')
          houter.toStands traits
        refine ⟨hall.trans htraits, ?_⟩
        rintro _ ⟨⟩
        exact htraits.outer (hall.inv hr) houter
    · split
      · obtain ⟨henum, houter⟩ := steps_takeEnum options hr
        split
        · rename_i id hid
          have htraits := steps_addTraits options (houter id hid).toStands traits
          refine ⟨henum.trans htraits, ?_⟩
          rintro _ ⟨⟩
          exact htraits.outer (henum.inv hr) (houter id hid)
        · exact ⟨henum, by rintro id ⟨⟩⟩
      · exact ⟨.of_eq rfl, by rintro id ⟨⟩⟩
  · exact fun owner depth visibility r _ _ _ => .of_eq rfl
  · exact fun owner depth visibility r _ _ _ _ => .of_eq rfl
  · intro owner depth visibility r _ _ traits turn hnested hrest hr howner
    have hturn := steps_bodyTurn hr howner depth visibility (hnested hr)
    exact hturn.trans (hrest (hturn.inv hr) (hturn.owner hr howner))

/-- Every header is read step by step. -/
theorem steps_takeHeader (r : Reader) (hr : r.catalog.Inv) : r.Steps options (takeHeader options r) := by
  fun_induction takeHeader options r with
  | case1 r => exact .refl r
  | case2 r _ _ traits ih =>
    have hturn : r.Steps options ((r.moveTo traits.2).takeReflected options 0 traits.1).2 :=
      (steps_takeReflected_and_takeBody.1 0 traits.1 (r.moveTo traits.2) hr).1
    exact hturn.resume.trans (ih (hturn.resume.inv hr))
  | case3 r _ _ _ ih =>
    have hturn : r.Steps options (r.takeMember options .top) := steps_takeMember hr (by rintro id ⟨⟩) (Or.inl rfl)
    exact hturn.resume.trans (ih (hturn.resume.inv hr))
  | case4 r _ _ _ _ ih =>
    have hturn : r.Steps options r.advance.takeFake := steps_takeFake (r := r.advance) hr
    exact hturn.resume.trans (ih (hturn.resume.inv hr))
  | case5 r _ _ _ _ ih => exact ih hr

end Reader

/-- A header is read step by step. -/
theorem Recorder.scan_steps (r : Recorder) (options : ScanOptions) (source : String) (hr : r.catalog.Inv) :
    ReadSteps options r.catalog (r.scan options source).catalog :=
  Reader.steps_takeHeader { r with cursor := Cursor.ofText source } hr

end HeaderAtlas
