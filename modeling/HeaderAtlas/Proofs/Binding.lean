import HeaderAtlas.Proofs.Declaration.Stepwise

/-!
# Callables are bound on request only

A method, a function or a global is recorded only behind one of three markers. Where none of them is left among the tokens
(`Cursor.Unmarked`), no reading function adds to what can be called (`Reader.BindsNone`): not in the body of a type, however deep it
is nested, nor where reading goes on behind a declaration that it could not make sense of. The proof goes from one reading function
to the next; that the tokens in front stay unmarked is what going onward keeps.
-/

namespace HeaderAtlas

/-- The markers that ask for a member to be bound. -/
def Marker.binding : List Marker := [property, command, global]

namespace Catalog

variable {c c' c'' : Catalog}

/-- The second catalog has the callables of the first. A handle without a record reads as an empty one, so a type that is new in
the second catalog has no methods. -/
structure SameCallables (c c' : Catalog) : Prop where
  methods : ∀ id, (c'.record id).methods = (c.record id).methods
  functions : c'.functions = c.functions
  globals : c'.globals = c.globals

namespace SameCallables

theorem refl (c : Catalog) : c.SameCallables c := ⟨fun _ => rfl, rfl, rfl⟩

theorem trans (h : c.SameCallables c') (h' : c'.SameCallables c'') : c.SameCallables c'' :=
  ⟨fun id => (h'.methods id).trans (h.methods id), h'.functions.trans h.functions, h'.globals.trans h.globals⟩

/-- One more record, without methods. -/
theorem methods_concat {d : TypeDef} (hrecords : c'.records = c.records ++ [d]) (hd : d.methods = []) (id : TypeId) :
    (c'.record id).methods = (c.record id).methods := by
  rw [record_concat hrecords]
  split
  · rename_i hid
    rw [hd, record, List.getElem?_eq_none (Nat.le_of_eq hid.symm)]
    rfl
  · rfl

/-- A type declared without methods brings no callables. -/
theorem register {d : TypeDef} (hd : d.methods = []) (c : Catalog) : c.SameCallables (c.register d).2 :=
  ⟨methods_concat (records_register c d) hd, functions_register c d, globals_register c d⟩

/-- A placeholder has no methods. -/
theorem placeholder (c : Catalog) (name : String) : c.SameCallables (c.placeholder name).2 := by
  rcases c.placeholder_snd name with hsame | ⟨-, hhold⟩
  · rw [hsame]
    exact refl c
  · rw [hhold]
    exact ⟨methods_concat (records_hold c name) rfl, rfl, rfl⟩

/-- A reference makes a placeholder at most. -/
theorem reference (c : Catalog) (name : String) : c.SameCallables (c.reference name).2 := by
  unfold Catalog.reference
  split
  · exact refl c
  · exact placeholder c name

/-- An edit that leaves the methods of the record. -/
theorem edit {f : TypeDef → TypeDef} (hf : ∀ d, (f d).methods = d.methods) (c : Catalog) (id : TypeId) :
    c.SameCallables (c.edit id f) := by
  refine ⟨fun i => ?_, rfl, rfl⟩
  rw [Catalog.edit, record_setRecord]
  split
  · exact hf _
  · rfl

end SameCallables

end Catalog

/-! ## Tokens without a marker -/

/-- No token that is left is a marker that asks for binding. -/
def Cursor.Unmarked (c : Cursor) : Prop := ∀ t ∈ c.unread, ∀ m ∈ Marker.binding, t.isWord m.word = false

namespace Cursor.Unmarked

variable {c c' : Cursor}

/-- No marker is found further on where none is left. -/
theorem onward (h : c.Unmarked) (hon : c.Onward c') : c'.Unmarked := fun t ht => h t (hon.suffix.subset ht)

/-- Where no marker is left, none stands in front. -/
theorem seesMarker (h : c.Unmarked) {m : Marker} (hm : m ∈ Marker.binding) : c.seesMarker m = false := by
  obtain ⟨source, unread, finish⟩ := c
  cases unread with
  | nil => rfl
  | cons t ts => exact h t List.mem_cons_self m hm

end Cursor.Unmarked

namespace Reader

variable {options : ScanOptions} {r r' r'' start after : Reader} {scope : Scope} {owner : TypeId}

/-- Nothing that can be called was added on the way from the first reader to the second. -/
def BindsNone (r r' : Reader) : Prop := r.catalog.SameCallables r'.catalog

namespace BindsNone

theorem refl (r : Reader) : r.BindsNone r := Catalog.SameCallables.refl _

theorem trans (h : r.BindsNone r') (h' : r'.BindsNone r'') : r.BindsNone r'' := Catalog.SameCallables.trans h h'

/-- What leaves the catalog binds nothing. -/
theorem of_eq (h : r'.catalog = r.catalog) : r.BindsNone r' := by
  rw [BindsNone, h]
  exact .refl _

/-! Moving the cursor and noting an event leave the catalog. -/

theorem moveTo (h : r.BindsNone r') (c : Cursor) : r.BindsNone (r'.moveTo c) := h

theorem advance (h : r.BindsNone r') : r.BindsNone r'.advance := h

theorem pass (h : r.BindsNone r') (symbol : Char) : r.BindsNone (r'.pass symbol) := h

theorem skipStatement (h : r.BindsNone r') : r.BindsNone r'.skipStatement := h

theorem noted (h : r.BindsNone r') (e : Event) : r.BindsNone (r'.noted e) := h

/-- The content of a record may be edited, as long as its methods stay. -/
theorem edit {f : TypeDef → TypeDef} (h : r.BindsNone r') (id : TypeId) (hf : ∀ d, (f d).methods = d.methods) :
    r.BindsNone (r'.edit id f) :=
  Catalog.SameCallables.trans h (.edit hf _ id)

/-- Nesting a type edits no methods. -/
theorem nest (h : r.BindsNone r') (owner child : TypeId) : r.BindsNone (r'.nest owner child) := by
  have hchild : r.BindsNone (r'.edit child fun d => { d with containing := some owner }) := h.edit child fun _ => rfl
  exact hchild.edit owner fun _ => rfl

/-- Traits are no methods. -/
theorem addTraits (h : r.BindsNone r') (id : TypeId) (traits : Traits) : r.BindsNone (r'.addTraits id traits) :=
  h.edit id fun _ => rfl

/-- A step of a loop binds what its body binds. -/
theorem resume (h : start.BindsNone after) : start.BindsNone (start.resume after) :=
  h.trans (.of_eq (catalog_resume start after))

/-- Steps that each bind nothing bind nothing one after the other. -/
theorem foldl {α : Type} {f : Reader → α → Reader} (hf : ∀ (r : Reader) a, r.BindsNone (f r a)) (l : List α) :
    ∀ r : Reader, r.BindsNone (l.foldl f r) := by
  induction l with
  | nil => exact fun r => .refl r
  | cons a l ih => exact fun r => (hf r a).trans (ih _)

end BindsNone

/-- A type is declared without methods. -/
theorem bindsNone_declare (r : Reader) {d : TypeDef} (hd : d.methods = []) : r.BindsNone (r.declare d).2 :=
  .register hd r.catalog

/-- Referring to a name binds nothing. -/
theorem bindsNone_refer (r : Reader) (name : String) : r.BindsNone (r.refer name).2 := by
  have h : (r.refer name).2.catalog = (r.catalog.reference name).2 := Recorder.catalog_reference r.toRecorder name
  rw [BindsNone, h]
  exact .reference r.catalog name

/-! ## Type expressions -/

/-- Using a type binds nothing. -/
theorem bindsNone_use (r : Reader) (e : TypeExpr) (name : String) : r.BindsNone (r.use e name).2 := by
  unfold use
  split
  · exact .refl r
  · exact .placeholder r.catalog e.name

/-- A template argument binds nothing if type expressions bind nothing. -/
theorem bindsNone_argTurn (htype : r.BindsNone (takeType none r).2) : r.BindsNone r.argTurn.2 := by
  unfold argTurn
  split
  · exact .of_eq rfl
  · exact .of_eq rfl
  · split <;> exact .of_eq rfl
  · dsimp only
    split
    · exact htype.resume
    · exact htype.trans (bindsNone_use _ _ _)
  · exact .of_eq rfl

/-- Type expressions bind nothing, by induction along their arguments. -/
theorem bindsNone_takeType (context : Option TypeId) (r : Reader) : r.BindsNone (takeType context r).2 := by
  refine (takeType_induction (P := fun _ r e => r.BindsNone e.2) (Q := fun r args => r.BindsNone args.2)
    ?_ ?_ ?_ ?_ ?_ ?_ ?_).1 context r
  · exact fun context r _ => .of_eq rfl
  · exact fun context r word _ _ => bindsNone_refer (r.moveTo r.cursor.takeTypeHead.2) "void"
  · intro context r word _ head parts e args tail _ _ hargs
    exact hargs
  · exact fun context r word _ _ _ => .of_eq rfl
  · exact fun r _ => .refl r
  · exact fun r _ _ => .of_eq rfl
  · exact fun r _ _ htype hrest => (bindsNone_argTurn htype).trans hrest

/-! ## Members -/

/-- A property in a type is no callable; at top level it would be a global. -/
theorem bindsNone_addProperty (hs : scope.enclosing = some owner) (r : Reader) (p : Property) :
    r.BindsNone (r.addProperty scope p) := by
  unfold addProperty
  rw [hs]
  exact (BindsNone.refl (r.noted _)).edit owner fun _ => rfl

/-- The enum of a bit field is referred to by name. -/
theorem bindsNone_takeBitSource (r : Reader) : r.BindsNone r.takeBitSource.2 := by
  unfold takeBitSource
  dsimp only
  split
  · split
    · exact bindsNone_refer (r.moveTo _) _
    · exact .of_eq rfl
  · exact .refl r

/-- An array in a type is a property. -/
theorem bindsNone_takeArray (hs : scope.enclosing = some owner) (r : Reader) (head : MemberHead) :
    r.BindsNone (r.takeArray scope head) := by
  have hlength : r.BindsNone (r.advance.takeLength head.name).2 := .of_eq (catalog_takeLength r.advance head.name)
  exact ((((hlength.moveTo _).trans (bindsNone_use _ head.type head.name)).moveTo _).trans
    (bindsNone_addProperty hs _ _)).skipStatement

/-- Fields in a type are properties. -/
theorem bindsNone_takeFields (hs : scope.enclosing = some owner) (r : Reader) (head : MemberHead) :
    r.BindsNone (r.takeFields scope head) := by
  have hfield : ∀ (r : Reader) (d : Declarator), r.BindsNone (addDeclarator scope head r d) :=
    fun r d => (bindsNone_use r _ d.name).trans (bindsNone_addProperty hs _ _)
  exact (((BindsNone.refl r).moveTo _).trans (BindsNone.foldl hfield _ _)).skipStatement

/-- What is called without an annotation is passed over. -/
theorem bindsNone_takeMemberBody (hs : scope.enclosing = some owner) (r : Reader) (head : MemberHead) :
    r.BindsNone (r.takeMemberBody scope false head) := by
  unfold takeMemberBody
  split
  · exact .of_eq rfl
  · split
    · exact bindsNone_takeArray hs r head
    · exact bindsNone_takeFields hs r head

/-- A member without annotation is a property, or is passed over. -/
theorem bindsNone_takeNamedMember (options : ScanOptions) (hs : scope.enclosing = some owner) (r : Reader) (location : Location)
    (head : MemberHead) : r.BindsNone (takeNamedMember options r scope location false head) := by
  unfold takeNamedMember
  dsimp only
  split
  · exact bindsNone_takeMemberBody hs r _
  · split
    · exact ((BindsNone.refl r).moveTo _).trans (bindsNone_takeMemberBody hs _ _)
    · exact .of_eq rfl

/-- Where no marker is left, no member has an annotation. -/
theorem takeMemberTraits_of_unmarked {c : Cursor} (h : c.Unmarked) : takeMemberTraits c = (none, c) := by
  rw [takeMemberTraits, h.seesMarker (m := .property) (by decide), h.seesMarker (m := .command) (by decide),
    h.seesMarker (m := .global) (by decide)]
  rfl

/-- No member of a type binds anything where no marker is left. -/
theorem bindsNone_takeMember (options : ScanOptions) (hs : scope.enclosing = some owner) (h : r.cursor.Unmarked) :
    r.BindsNone (takeMember options scope r) := by
  unfold takeMember
  split
  · exact .of_eq rfl
  · rw [takeMemberTraits_of_unmarked h]
    dsimp only
    have hbits : r.BindsNone (if (r.moveTo r.cursor).cursor.seesMarker .bitFlags then (r.moveTo r.cursor).advance.takeBitSource
        else (none, r.moveTo r.cursor)).2 := by
      split
      · exact bindsNone_takeBitSource (r.moveTo r.cursor).advance
      · exact .of_eq rfl
    generalize (if (r.moveTo r.cursor).cursor.seesMarker .bitFlags then (r.moveTo r.cursor).advance.takeBitSource
        else (none, r.moveTo r.cursor)) = bits at hbits ⊢
    have htype := (hbits.moveTo (bits.2.cursor.takeApiWord options).2).trans (bindsNone_takeType scope.enclosing _)
    split
    · exact (htype.noted _).skipStatement
    · exact htype.trans (bindsNone_takeNamedMember options hs _ _ _)

/-- A member that may not be visible binds nothing either, read or passed over. -/
theorem bindsNone_takeVisible (options : ScanOptions) (hs : scope.enclosing = some owner) (h : r.cursor.Unmarked) :
    r.BindsNone (takeVisible options scope r) := by
  unfold takeVisible
  split
  · exact bindsNone_takeMember options hs h
  · exact .of_eq rfl

/-! ## Declarations -/

/-- An enum has no methods. -/
theorem bindsNone_takeEnum (r : Reader) : r.BindsNone r.takeEnum.2 := by
  have hunderlying : ∀ r : Reader, r.BindsNone r.takeUnderlying.2 := by
    intro r
    unfold takeUnderlying
    dsimp only
    split
    · split
      · exact bindsNone_takeType none r.advance
      · exact (bindsNone_takeType none r.advance).trans (bindsNone_use _ _ _)
    · exact .refl r
  have hbody : ∀ (r : Reader) (name : String) (isScoped : Bool) (underlying : Option TypeId),
      r.BindsNone (r.takeEnumBody name isScoped underlying).2 := by
    intro r name isScoped underlying
    have hentries : r.BindsNone (takeEntries [] 0 r).2 := .of_eq (catalog_takeEntries [] 0 r)
    unfold takeEnumBody
    dsimp only
    split
    · exact (hentries.pass _).noted _
    · exact (hentries.pass _).trans (bindsNone_declare _ rfl)
  unfold takeEnum
  dsimp only
  generalize (if r.advance.cursor.seesWordOf ["class", "struct"] then r.cursor.advance.advance
    else r.cursor.advance).takeWord = name
  split
  · exact .of_eq rfl
  · have hread := ((BindsNone.refl r).moveTo name.2).trans (hunderlying (r.moveTo name.2))
    split
    · exact (hread.moveTo _).noted _
    · split
      · exact (hread.moveTo _).advance.trans (hbody _ _ _ _)
      · exact hread.moveTo _

/-- The head of a type declares it without methods. -/
theorem bindsNone_takeTypeHeader (options : ScanOptions) (isClass : Bool) (r : Reader) :
    r.BindsNone (takeTypeHeader options isClass r).2 := by
  have hbases : ∀ (r : Reader) (d : TypeDef), d.methods = [] → r.BindsNone (r.takeTypeBases d).2 := by
    intro r d hd
    have hdeclare := bindsNone_declare (r.moveTo (r.cursor.takeTypeSpecifiers d.flags).2)
      (d := { d with flags := (r.cursor.takeTypeSpecifiers d.flags).1 }) hd
    unfold takeTypeBases
    dsimp only
    generalize (r.moveTo (r.cursor.takeTypeSpecifiers d.flags).2).declare
      { d with flags := (r.cursor.takeTypeSpecifiers d.flags).1 } = id at hdeclare ⊢
    generalize (if id.2.cursor.sees ':' then id.2.cursor.advance.takeBases else ([], id.2.cursor)) = bases
    have hbase : ∀ (r : Reader) (name : String), r.BindsNone (addBase id.1 r name) :=
      fun r name => (bindsNone_refer r name).edit id.1 fun _ => rfl
    have hread := (hdeclare.moveTo bases.2).trans (BindsNone.foldl hbase bases.1 _)
    split
    · exact hread.advance
    · exact hread.skipStatement
  unfold takeTypeHeader
  dsimp only
  split
  · exact .of_eq rfl
  · split
    · exact .of_eq rfl
    · exact ((BindsNone.refl r).moveTo _).trans (hbases _ _ rfl)

/-- A described property is recorded in its type. -/
theorem bindsNone_takeDescribed (r : Reader) (owner : TypeId) (isVirtual : Bool) :
    r.BindsNone (r.takeDescribed owner isVirtual) := by
  have hproperty : ∀ (r : Reader) (traits : Traits), r.BindsNone (r.describedProperty traits isVirtual).2 := by
    intro r traits
    unfold describedProperty
    dsimp only
    split
    · exact .of_eq rfl
    · rename_i text _
      have htype := ((BindsNone.refl r).moveTo (Cursor.ofText text)).trans (bindsNone_takeType none _)
      split
      · exact (htype.moveTo _).noted _
      · exact (htype.moveTo _).trans (bindsNone_use _ _ _)
  have hread := ((BindsNone.refl r).moveTo r.cursor.takeTraits.2).trans (hproperty _ r.cursor.takeTraits.1)
  unfold takeDescribed
  dsimp only
  split
  · refine BindsNone.pass ?_ _
    exact hread.edit owner fun _ => rfl
  · exact hread.pass _

/-- A fake type has described properties only. -/
theorem bindsNone_takeFake (r : Reader) : r.BindsNone r.takeFake := by
  have hbody : ∀ (id : TypeId) (r : Reader), r.BindsNone (takeFakeBody id r) := by
    intro id r
    fun_induction takeFakeBody id r with
    | case1 r => exact .refl r
    | case2 r _ _ ih => exact ((BindsNone.refl r).advance.trans (bindsNone_takeDescribed _ id false)).resume.trans ih
    | case3 r _ _ _ ih => exact ((BindsNone.refl r).advance.trans (bindsNone_takeDescribed _ id true)).resume.trans ih
    | case4 r => exact .of_eq rfl
    | case5 r => exact .of_eq rfl
  unfold takeFake
  dsimp only
  split
  · exact (((BindsNone.refl r).moveTo _).trans (bindsNone_declare _ rfl)).trans (hbody _ _)
  · exact .of_eq rfl

/-- One turn of reading the body of a type, of which a nested declaration has been dealt with. -/
theorem bindsNone_bodyTurn (owner : TypeId) (depth : Nat) (visibility : Visibility) (h : r.cursor.Unmarked)
    (hchild : let traits := r.cursor.advance.takeTraits
      r.BindsNone (takeReflected options depth traits.1 (r.moveTo traits.2)).2) :
    r.BindsNone (bodyTurn options owner depth visibility r).2 := by
  unfold bodyTurn
  cases bodyItem r.cursor with
  | type =>
    dsimp only
    split
    · exact hchild.nest owner _
    · exact hchild
  | describedProperty => exact (BindsNone.refl r).advance.trans (bindsNone_takeDescribed _ owner true)
  | member => exact bindsNone_takeVisible options rfl h
  | close | semicolon | block | access | statement | template => exact .of_eq rfl

/-- A declaration behind a type marker, with all that is nested in it, binds nothing if it has no marker that asks for it. -/
theorem bindsNone_takeReflected (options : ScanOptions) (depth : Nat) (traits : Traits) (r : Reader) (h : r.cursor.Unmarked) :
    r.BindsNone (takeReflected options depth traits r).2 := by
  have hread := @takeReflected_induction options (fun _ _ r s => r.cursor.Unmarked → r.BindsNone s.2)
    (fun _ _ _ r r' => r.cursor.Unmarked → r.BindsNone r')
  refine (hread ?_ ?_ ?_ ?_).1 depth traits r h
  · intro depth traits r head hbody h
    have hhead := bindsNone_takeTypeHeader options (r.cursor.seesWord "class") r
    have hunmarked := h.onward (onward_takeTypeHeader options (r.cursor.seesWord "class") r)
    rw [takeReflected_eq]
    split
    · dsimp only
      split
      · exact hhead
      · exact hhead.addTraits _ _
      · rename_i id hid
        exact ((hhead.trans (hbody id _ hid hunmarked)).pass ';').addTraits id traits
    · split
      · split
        · exact (bindsNone_takeEnum r).addTraits _ _
        · exact bindsNone_takeEnum r
      · exact .of_eq rfl
  · exact fun owner depth visibility r _ _ => .of_eq rfl
  · exact fun owner depth visibility r _ _ _ => .of_eq rfl
  · intro owner depth visibility r _ _ traits turn hchild hrest h
    have htraits := (r.cursor.onward_advance).trans (Cursor.onward_takeTraits _)
    have hturn := bindsNone_bodyTurn owner depth visibility h (hchild (h.onward htraits))
    exact hturn.trans (hrest (h.onward (onward_bodyTurn options owner depth visibility r)))

/-- A header without a marker binds nothing, turn by turn. -/
theorem bindsNone_takeHeader (options : ScanOptions) (r : Reader) (h : r.cursor.Unmarked) : r.BindsNone (takeHeader options r) := by
  fun_induction takeHeader options r with
  | case1 r => exact .refl r
  | case2 r _ _ traits ih =>
    have htraits := h.onward (r.cursor.onward_advance.trans (Cursor.onward_takeTraits _))
    have hread := ((BindsNone.refl r).moveTo _).trans (bindsNone_takeReflected options 0 traits.1 (r.moveTo traits.2) htraits)
    exact hread.resume.trans (ih (h.onward ((Onward.refl r).advance.trans (onward_nested options 0 r)).resume))
  | case3 r _ _ hmarker =>
    rw [h.seesMarker (m := .command) (by decide), h.seesMarker (m := .global) (by decide)] at hmarker
    exact absurd hmarker Bool.false_ne_true
  | case4 r _ _ _ _ ih =>
    have hread := (BindsNone.refl r).advance.trans (bindsNone_takeFake _)
    exact hread.resume.trans (ih (h.onward ((Onward.refl r).advance.trans (onward_takeFake _)).resume))
  | case5 r _ _ _ _ ih => exact ih (h.onward r.cursor.onward_advance)

end Reader

/-- Reading a header in which no token is one of the three markers that ask for binding leaves all that can be called as it is,
whatever else the header is: the types that were there keep their methods, the new ones have none, and functions and globals stay
the same. -/
theorem scan_binds_none (r : Recorder) (options : ScanOptions) (source : String)
    (h : ∀ t ∈ tokens source.toList, ∀ m ∈ Marker.binding, t.isWord m.word = false) :
    let c := r.catalog
    let c' := (r.scan options source).catalog
    (∀ id, c.Has id → (c'.record id).methods = (c.record id).methods) ∧
      (∀ id, ¬c.Has id → (c'.record id).methods = []) ∧ c'.functions = c.functions ∧ c'.globals = c.globals := by
  intro c c'
  have hsame : c.SameCallables c' := Reader.bindsNone_takeHeader options { r with cursor := Cursor.ofText source } h
  refine ⟨fun id _ => hsame.methods id, ?_, hsame.functions, hsame.globals⟩
  intro id hid
  rw [hsame.methods, Catalog.record_of_not_has hid]
  rfl

/-- A method, a constructor and an operator that nothing asks for, behind a mark that makes no sense, and a type declared again that
breaks off in a method; the type that was there has a method, and there are a function and a global. -/
theorem scan_binds_none_in_malformed :
    let before := session .empty
      [.scan {} "REFLECTED() struct A { METHOD_CMD() A f(A a); }; METHOD_CMD() A g(); REFLECT_GLOBAL() A h;"]
    let header := "REFLECTED() struct B : A \x7b ) A g(A a) \x7b \x7d B(); A operator+(A); A x; REFLECTED() class A \x7b public: A f(A"
    let after := before.scan {} header
    (∀ t ∈ tokens header.toList, ∀ m ∈ Marker.binding, t.isWord m.word = false) ∧
      (after.catalog.records.map fun d => (d.name, d.properties.map Property.name, d.methods.map Method.name)) =
        [("A", [], ["f"]), ("B", ["x"], []), ("void", [], []), ("A", [], [])] ∧
      (after.catalog.record ⟨0⟩).methods = (before.catalog.record ⟨0⟩).methods ∧
      after.catalog.functions = before.catalog.functions ∧ after.catalog.globals = before.catalog.globals := by
  -- evaluated once, and not under the names of the statement: the kernel would look behind them by evaluating again
  have hread :
      let before := session .empty
        [.scan {} "REFLECTED() struct A { METHOD_CMD() A f(A a); }; METHOD_CMD() A g(); REFLECT_GLOBAL() A h;"]
      let header := "REFLECTED() struct B : A \x7b ) A g(A a) \x7b \x7d B(); A operator+(A); A x; REFLECTED() class A \x7b public: A f(A"
      ((tokens header.toList).all fun t => Marker.binding.all fun m => !t.isWord m.word) = true ∧
        ((before.scan {} header).catalog.records.map fun d =>
          (d.name, d.properties.map Property.name, d.methods.map Method.name)) =
          [("A", [], ["f"]), ("B", ["x"], []), ("void", [], []), ("A", [], [])] ∧ 0 < before.catalog.records.length := by
    decide +kernel
  obtain ⟨hmarkers, hrecords, hhas⟩ := hread
  simp only [List.all_eq_true, Bool.not_eq_true'] at hmarkers
  have hnone := fun r => scan_binds_none r {} _ hmarkers
  exact ⟨hmarkers, hrecords, (hnone _).1 ⟨0⟩ hhas, (hnone _).2.2⟩

end HeaderAtlas
