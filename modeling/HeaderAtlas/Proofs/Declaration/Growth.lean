import HeaderAtlas.Declaration.Header
import HeaderAtlas.Proofs.Catalog.Change

/-!
# Reading only grows a catalog

Whatever stands in a header, reading it declares types that are complete and have no derived types yet, makes placeholders, adds
to the content of records and adds free functions and globals (`ReadChange`), and does nothing else to the catalog: `scan_grows`.
The records whose content it adds to are records it has made itself (`scan_adds`). The proof goes from one reading function to the
next, in the order in which they call each other; each statement says of one function that it `Adds`, whatever number of records
is to be left alone. That it `Reads` is the case of no such record (`Adds.reads`).
-/

namespace HeaderAtlas

open Catalog (Grows)

/-- What reading a header may do to a catalog. -/
inductive ReadChange : Change → Prop where
  | declare (d : TypeDef) (complete : d.flags.isComplete = true) (derived : d.derived = []) : ReadChange (.register d)
  | placeholder (name : String) : ReadChange (.placeholder name)
  | edit (id : TypeId) (e : ContentEdit) (derived : ∀ d, (e.apply d).derived = d.derived) : ReadChange (.edit id e)
  | addFunction (m : Method) : ReadChange (.addFunction m)
  | addGlobal (p : Property) : ReadChange (.addGlobal p)

/-- The change edits none of the first `n` records. -/
def Change.Spares (n : Nat) : Change → Prop
  | edit id _ => n ≤ id.index
  | _ => True

/-- What reading a header may do to a catalog of which the first `n` records are to be left alone. -/
def AddChange (n : Nat) (x : Change) : Prop := ReadChange x ∧ x.Spares n

/-- An edit that keeps name, completeness and derived types may be read. -/
theorem Catalog.Grows.edit {c c' : Catalog} (h : Grows ReadChange c c') (id : TypeId) (f : TypeDef → TypeDef)
    (hn : ∀ d, (f d).name = d.name) (hc : ∀ d, (f d).flags.isComplete = d.flags.isComplete)
    (hd : ∀ d, (f d).derived = d.derived) : Grows ReadChange c (c'.edit id f) :=
  h.change (.edit id ⟨f, hn, hc⟩) (.edit id ⟨f, hn, hc⟩ hd)

/-- The type around the place, if there is one, is none of the first `n` records. -/
def Scope.Beyond (n : Nat) (scope : Scope) : Prop := ∀ owner, scope.enclosing = some owner → n ≤ owner.index

/-- At top level there is no record to add to. -/
theorem Scope.beyond_top (n : Nat) : Scope.top.Beyond n := by
  intro owner h
  cases h

/-- No record is among the first none. -/
theorem Scope.beyond_zero (scope : Scope) : scope.Beyond 0 := fun _ _ => Nat.zero_le _

/-! ## Recorders: what is noted does not change what is done -/

namespace Recorder

/-- A recorder makes the placeholder that its catalog makes. -/
theorem catalog_placeholder (r : Recorder) (name : String) :
    (r.placeholder name).2.catalog = (r.catalog.placeholder name).2 := rfl

/-- Whatever is noted about a reference, the catalog refers to the name. -/
theorem catalog_reference (r : Recorder) (name : String) :
    (r.reference name).2.catalog = (r.catalog.reference name).2 := by
  unfold reference Catalog.reference
  cases r.catalog.lookup name with
  | none => exact catalog_placeholder r name
  | some id => rfl

end Recorder

namespace Reader

/-- The second reader has the catalog of the first, grown by reading. -/
def Reads (r r' : Reader) : Prop := Grows ReadChange r.catalog r'.catalog

theorem Reads.refl (r : Reader) : r.Reads r := Grows.refl _

/-- One piece of reading behind another is reading. -/
theorem Reads.trans {r r' r'' : Reader} (h : r.Reads r') (h' : r'.Reads r'') : r.Reads r'' := Grows.trans h h'

/-- A reader with the same catalog has read nothing into it. -/
theorem Reads.of_eq {r r' : Reader} (h : r'.catalog = r.catalog) : r.Reads r' := by
  rw [Reads, h]
  exact .refl _

/-- The second reader has the catalog of the first, grown by reading that leaves the first `n` records alone; there are at least
so many. -/
def Adds (n : Nat) (r r' : Reader) : Prop := n ≤ r.catalog.records.length → Grows (AddChange n) r.catalog r'.catalog

variable {n : Nat} {r r' r'' start after : Reader}

/-- What leaves alone no record in particular is reading. -/
theorem Adds.reads (h : r.Adds 0 r') : r.Reads r' := (h (Nat.zero_le _)).mono fun _ hx => hx.1

theorem Adds.refl (r : Reader) : r.Adds n r := fun _ => Grows.refl _

/-- Reading never makes records fewer, so there are enough of them for what is read next. -/
theorem Adds.trans (h : r.Adds n r') (h' : r'.Adds n r'') : r.Adds n r'' :=
  fun hn => (h hn).trans (h' (Nat.le_trans hn (h hn).length_records_le))

/-- Reading never takes a record away. -/
theorem Adds.length_records_le (h : r.Adds 0 r') : r.catalog.records.length ≤ r'.catalog.records.length :=
  (h (Nat.zero_le _)).length_records_le

/-- What is read may be taken to begin with enough records. -/
theorem Adds.of_le (h : n ≤ r.catalog.records.length → r.Adds n r') : r.Adds n r' := fun hn => h hn hn

/-- A reader with the same catalog has added nothing to it. -/
theorem Adds.of_eq (h : r'.catalog = r.catalog) : r.Adds n r' := by
  rw [Adds, h]
  exact fun _ => .refl _

/-! Moving the cursor and noting an event leave the catalog. -/

theorem Reads.moveTo (h : r.Reads r') (c : Cursor) : r.Reads (r'.moveTo c) := h

theorem Reads.advance (h : r.Reads r') : r.Reads r'.advance := h

theorem Reads.pass (h : r.Reads r') (symbol : Char) : r.Reads (r'.pass symbol) := h

theorem Reads.skipStatement (h : r.Reads r') : r.Reads r'.skipStatement := h

theorem Reads.noted (h : r.Reads r') (e : Event) : r.Reads (r'.noted e) := h

theorem Adds.moveTo (h : r.Adds n r') (c : Cursor) : r.Adds n (r'.moveTo c) := h

theorem Adds.advance (h : r.Adds n r') : r.Adds n r'.advance := h

theorem Adds.pass (h : r.Adds n r') (symbol : Char) : r.Adds n (r'.pass symbol) := h

theorem Adds.skipStatement (h : r.Adds n r') : r.Adds n r'.skipStatement := h

theorem Adds.noted (h : r.Adds n r') (e : Event) : r.Adds n (r'.noted e) := h

/-- A step repeated over a list adds if each step does. -/
theorem Adds.foldl {α : Type} {f : Reader → α → Reader} (hf : ∀ (r : Reader) a, r.Adds n (f r a)) (l : List α) :
    ∀ r : Reader, r.Adds n (l.foldl f r) := by
  induction l with
  | nil => intro r; exact .refl r
  | cons a l ih =>
    intro r
    rw [List.foldl_cons]
    exact (hf r a).trans (ih _)

/-- A loop that goes on keeps the catalog its step has made. -/
theorem catalog_resume (start after : Reader) : (start.resume after).catalog = after.catalog := by
  unfold resume
  split <;> rfl

/-- A loop whose step may have read no token keeps the catalog its step has made. -/
theorem catalog_keep (start after : Reader) : (start.keep after).catalog = after.catalog := by
  unfold keep
  split <;> rfl

/-- Going on after a step that reads. -/
theorem Reads.resume (h : start.Reads after) : start.Reads (start.resume after) :=
  h.trans (.of_eq (catalog_resume start after))

/-- A step of a loop adds what its body adds. -/
theorem Adds.resume (h : start.Adds n after) : start.Adds n (start.resume after) :=
  h.trans (.of_eq (catalog_resume start after))

/-- A step that may have read no token adds what its body adds. -/
theorem Adds.keep (h : start.Adds n after) : start.Adds n (start.keep after) :=
  h.trans (.of_eq (catalog_keep start after))

/-- A declared type is a new record; those before it are left alone. -/
theorem adds_declare (r : Reader) (d : TypeDef) (hc : d.flags.isComplete = true) (hd : d.derived = []) :
    r.Adds n (r.declare d).2 :=
  fun _ => Grows.single (.register d) ⟨.declare d hc hd, trivial⟩

/-- A placeholder is a new record, or one that is there. -/
theorem adds_placeholderFor (r : Reader) (name : String) : r.Adds n (r.placeholderFor name).2 :=
  fun _ => Grows.single (.placeholder name) ⟨.placeholder name, trivial⟩

/-- A reference makes a placeholder at most. -/
theorem adds_refer (r : Reader) (name : String) : r.Adds n (r.refer name).2 := by
  have h : (r.refer name).2.catalog = (r.catalog.reference name).2 := Recorder.catalog_reference r.toRecorder name
  rw [Adds, h]
  exact fun _ => Grows.reference name ⟨.placeholder name, trivial⟩

/-- The content of a record may be edited, as long as its name, its completeness and its derived types stay. -/
theorem Reads.edit (h : r.Reads r') (id : TypeId) (f : TypeDef → TypeDef) (hn : ∀ d, (f d).name = d.name)
    (hc : ∀ d, (f d).flags.isComplete = d.flags.isComplete) (hd : ∀ d, (f d).derived = d.derived) : r.Reads (r'.edit id f) :=
  Grows.edit h id f hn hc hd

/-- An edit of a record behind the first `n`. -/
theorem Adds.edit (h : r.Adds n r') {id : TypeId} (hid : n ≤ id.index) (f : TypeDef → TypeDef) (hn : ∀ d, (f d).name = d.name)
    (hc : ∀ d, (f d).flags.isComplete = d.flags.isComplete) (hd : ∀ d, (f d).derived = d.derived) :
    r.Adds n (r'.edit id f) :=
  fun hr => (h hr).change (.edit id ⟨f, hn, hc⟩) ⟨.edit id ⟨f, hn, hc⟩ hd, hid⟩

/-! ## Type expressions -/

/-- Using a type expression at most refers to its name. -/
theorem adds_use (r : Reader) (e : TypeExpr) (name : String) : r.Adds n (r.use e name).2 := by
  unfold use
  split
  · exact .refl r
  · exact adds_placeholderFor r e.name

/-- A constructor or destructor refers to `void` at most. -/
theorem adds_special (r : Reader) (head : TypeHead) (word : String) : r.Adds n (r.special head word).2 :=
  adds_refer r "void"

/-- A type expression and its template arguments call each other, so both are read in one induction along their calls. -/
theorem adds_takeType_and_takeTemplateArgs :
    (∀ (context : Option TypeId) (r : Reader), r.Adds n (takeType context r).2) ∧
      ∀ r : Reader, r.Adds n (takeTemplateArgs r).2 := by
  refine takeType.mutual_induct (fun context r => r.Adds n (takeType context r).2)
    (fun r => r.Adds n (takeTemplateArgs r).2) ?_ ?_ ?_ ?_ ?_ ?_ ?_ ?_ ?_ ?_ ?_ ?_
  -- the type expression has no name
  · intro context r head hword
    rw [takeType]
    dsimp only
    split
    · exact .of_eq rfl
    · rename_i h
      exact absurd (hword.symm.trans h) nofun
  -- the name is that of a constructor or destructor
  · intro context r head word hword hs
    rw [takeType]
    dsimp only
    split
    · rename_i h
      exact absurd (hword.symm.trans h) nofun
    · rename_i word' h
      obtain rfl : word = word' := Option.some.inj (hword.symm.trans h)
      rw [if_pos hs]
      exact adds_special (r.moveTo head.2) head.1 word
  -- there are template arguments
  · intro context r head word hword hs parts hp ih
    rw [takeType]
    dsimp only
    split
    · rename_i h
      exact absurd (hword.symm.trans h) nofun
    · rename_i word' h
      obtain rfl : word = word' := Option.some.inj (hword.symm.trans h)
      rw [if_neg hs, if_pos hp]
      exact ih
  · intro context r head word hword hs parts hp
    rw [takeType]
    dsimp only
    split
    · rename_i h
      exact absurd (hword.symm.trans h) nofun
    · rename_i word' h
      obtain rfl : word = word' := Option.some.inj (hword.symm.trans h)
      rw [if_neg hs, if_neg hp]
      exact .of_eq rfl
  · intro r hend
    rw [takeTemplateArgs, dif_pos hend]
    exact .refl r
  · intro r hend hitem
    rw [takeTemplateArgs, dif_neg hend, hitem]
    exact .of_eq rfl
  · intro r hend value hitem ih
    rw [takeTemplateArgs, dif_neg hend, hitem]
    exact ih
  · intro r hend hitem value hvalue ih
    rw [takeTemplateArgs, dif_neg hend, hitem]
    dsimp only
    rw [hvalue]
    have h : r.Adds n r.advance.advance := .of_eq rfl
    exact h.resume.trans ih
  · intro r hend hitem hvalue ih
    rw [takeTemplateArgs, dif_neg hend, hitem]
    dsimp only
    rw [hvalue]
    exact ih
  -- an argument without a name is passed over
  · intro r hend hitem inner hinner ihType ih
    rw [takeTemplateArgs, dif_neg hend, hitem]
    dsimp only
    rw [if_pos hinner]
    exact ihType.resume.trans ih
  · intro r hend hitem inner hinner p ihType ih
    rw [takeTemplateArgs, dif_neg hend, hitem]
    dsimp only
    rw [if_neg hinner]
    exact (ihType.trans (adds_use _ _ _)).resume.trans ih
  · intro r hend kind hitem ih
    rw [takeTemplateArgs, dif_neg hend, hitem]
    exact ih

/-- A type expression adds what its arguments add, and the types they name. -/
theorem adds_takeType (context : Option TypeId) (r : Reader) : r.Adds n (takeType context r).2 :=
  adds_takeType_and_takeTemplateArgs.1 context r

/-! ## Members -/

/-- A parameter adds the type it mentions. -/
theorem adds_takeParameter (r : Reader) : r.Adds n r.takeParameter.2 := by
  unfold takeParameter
  dsimp only
  split
  · exact adds_takeType none r
  · exact (((adds_takeType none r).moveTo _).trans (adds_use _ _ _)).moveTo _

/-- Parameters add what each of them adds. -/
theorem adds_takeParameters (r : Reader) : r.Adds n (takeParameters r).2 := by
  fun_induction takeParameters r with
  | case1 r => exact .refl r
  | case2 r => exact .refl r
  | case3 r => exact (Adds.refl r).advance
  | case4 r _ _ _ _ ih => exact ih
  | case5 r _ _ _ _ p _ ih => exact ((adds_takeParameter r).moveTo _).resume.trans ih

/-- A property goes into the record around it, or to the globals. -/
theorem adds_addProperty {scope : Scope} (hs : scope.Beyond n) (r : Reader) (p : Property) :
    r.Adds n (r.addProperty scope p) := by
  unfold addProperty
  dsimp only
  split
  · rename_i owner howner
    exact Adds.edit ((Adds.refl r).noted _) (hs owner howner) _ (fun _ => rfl) (fun _ => rfl) (fun _ => rfl)
  · exact fun _ => Grows.single (.addGlobal p) ⟨.addGlobal p, trivial⟩

/-- A method goes into the record around it, or to the free functions. -/
theorem adds_addMethod {scope : Scope} (hs : scope.Beyond n) (r : Reader) (m : Method) : r.Adds n (r.addMethod scope m) := by
  unfold addMethod
  dsimp only
  split
  · rename_i owner howner
    exact Adds.edit ((Adds.refl r).noted _) (hs owner howner) _ (fun _ => rfl) (fun _ => rfl) (fun _ => rfl)
  · exact fun _ => Grows.single (.addFunction m) ⟨.addFunction m, trivial⟩

/-- The property of a member head uses the type of the head. -/
theorem adds_memberProperty (r : Reader) (scope : Scope) (head : MemberHead) :
    r.Adds n (r.memberProperty scope head).2 :=
  adds_use r head.type head.name

/-- The enum of a bit field is referred to by name. -/
theorem adds_takeBitSource (r : Reader) : r.Adds n r.takeBitSource.2 := by
  unfold takeBitSource
  dsimp only
  split
  · split
    · exact ((Adds.refl r).moveTo _).trans (adds_refer _ _)
    · exact (Adds.refl r).moveTo _
  · exact .refl r

/-- The length of an array is looked up, which adds nothing. -/
theorem adds_takeLength (r : Reader) (name : String) : r.Adds n (r.takeLength name).2 := by
  unfold takeLength
  dsimp only
  split
  · exact (Adds.refl r).advance
  · split
    · exact (Adds.refl r).moveTo _
    · exact ((Adds.refl r).moveTo _).noted _
  · exact .refl r

/-- An array adds its type and one property. -/
theorem adds_takeArray {scope : Scope} (hs : scope.Beyond n) (r : Reader) (head : MemberHead) :
    r.Adds n (r.takeArray scope head) := by
  unfold takeArray
  have hl := (Adds.refl (n := n) r).advance.trans (adds_takeLength r.advance head.name)
  exact ((((hl.moveTo _).trans (adds_memberProperty _ scope head)).moveTo _).trans
    (adds_addProperty hs _ _)).skipStatement

/-- Each of several fields adds one property. -/
theorem adds_addDeclarator {scope : Scope} (hs : scope.Beyond n) (head : MemberHead) (r : Reader) (d : Declarator) :
    r.Adds n (addDeclarator scope head r d) :=
  (adds_memberProperty r scope _).trans (adds_addProperty hs _ _)

/-- Fields that share a type add their properties, one after the other. -/
theorem adds_takeFields {scope : Scope} (hs : scope.Beyond n) (r : Reader) (head : MemberHead) :
    r.Adds n (r.takeFields scope head) := by
  unfold takeFields
  exact (((Adds.refl r).moveTo _).trans (Adds.foldl (adds_addDeclarator hs head) _ _)).skipStatement

/-- A method adds the types of its return value and parameters, and itself. -/
theorem adds_takeMethod {scope : Scope} (hs : scope.Beyond n) (r : Reader) (head : MemberHead) :
    r.Adds n (r.takeMethod scope head) := by
  unfold takeMethod
  exact (((adds_use r head.type "").advance.trans (adds_takeParameters _)).moveTo _).trans
    (adds_addMethod hs _ _)

/-- A method, an array or fields: each adds to the record around it only. -/
theorem adds_takeMemberBody {scope : Scope} (hs : scope.Beyond n) (r : Reader) (isAnnotated : Bool) (head : MemberHead) :
    r.Adds n (r.takeMemberBody scope isAnnotated head) := by
  unfold takeMemberBody
  split
  · split
    · exact adds_takeMethod hs r head
    · exact ((Adds.refl r).moveTo _).noted _
  · split
    · exact adds_takeArray hs r head
    · exact adds_takeFields hs r head

/-- The name of a member adds nothing; its body does. -/
theorem adds_takeNamedMember (options : ScanOptions) {scope : Scope} (hs : scope.Beyond n) (r : Reader) (location : Location)
    (isAnnotated : Bool) (head : MemberHead) :
    r.Adds n (takeNamedMember options r scope location isAnnotated head) := by
  unfold takeNamedMember
  dsimp only
  split
  · exact adds_takeMemberBody hs r isAnnotated _
  · split
    · exact ((Adds.refl r).moveTo _).trans (adds_takeMemberBody hs _ isAnnotated _)
    · exact ((Adds.refl r).moveTo _).noted _

/-- A member adds the types it mentions, and content to the record around it. -/
theorem adds_takeMember (options : ScanOptions) {scope : Scope} (hs : scope.Beyond n) (r : Reader) :
    r.Adds n (takeMember options scope r) := by
  unfold takeMember
  split
  · exact (Adds.refl r).advance.skipStatement
  · dsimp only
    generalize takeMemberTraits r.cursor = traits
    have hannotated := (Adds.refl (n := n) r).moveTo traits.2
    generalize r.moveTo traits.2 = annotated at hannotated ⊢
    have hbits : r.Adds n (if annotated.cursor.seesMarker .bitFlags then annotated.advance.takeBitSource
        else (none, annotated)).2 := by
      split
      · exact hannotated.advance.trans (adds_takeBitSource _)
      · exact hannotated
    generalize (if annotated.cursor.seesMarker .bitFlags then annotated.advance.takeBitSource
        else (none, annotated)) = bits at hbits ⊢
    split
    · exact (((hbits.moveTo _).trans (adds_takeType scope.enclosing _)).noted _).skipStatement
    · exact ((hbits.moveTo _).trans (adds_takeType scope.enclosing _)).trans
        (adds_takeNamedMember options hs _ _ _ _)

/-! ## Enums -/

/-- Looking up the value of a name leaves the catalog. -/
theorem catalog_literal (prior : List EnumValue) (r : Reader) (name : String) :
    (literal prior r name).2.catalog = r.catalog := by
  unfold literal
  split
  · rfl
  · split <;> rfl

/-- Operands, values in parentheses and operations call each other; none of them touches the catalog. -/
theorem catalog_takeOperand_and_takeGrouped_and_takeOperations (prior : List EnumValue) :
    (∀ r : Reader, (takeOperand prior r).2.catalog = r.catalog) ∧
      (∀ r : Reader, (takeGrouped prior r).2.catalog = r.catalog) ∧
        ∀ (value : Int64) (r : Reader), (takeOperations prior value r).2.catalog = r.catalog := by
  refine takeOperand.mutual_induct prior (fun r => (takeOperand prior r).2.catalog = r.catalog)
    (fun r => (takeGrouped prior r).2.catalog = r.catalog)
    (fun value r => (takeOperations prior value r).2.catalog = r.catalog) ?_ ?_ ?_ ?_ ?_ ?_ ?_ ?_ ?_ ?_ ?_ ?_ ?_
  · intro r hend
    rw [takeOperand, dif_pos hend]
  · intro r hend value hitem
    rw [takeOperand, dif_neg hend, hitem]
    rfl
  · intro r hend hitem ih
    rw [takeOperand, dif_neg hend, hitem]
    exact ih
  · intro r hend hitem ih
    rw [takeOperand, dif_neg hend, hitem]
    exact ih
  · intro r hend hitem hparen ih
    rw [takeOperand, dif_neg hend, hitem]
    dsimp only
    rw [if_pos hparen]
    exact ih.trans (catalog_resume r _)
  · intro r hend hitem hparen
    rw [takeOperand, dif_neg hend, hitem]
    dsimp only
    rw [if_neg hparen]
    rfl
  · intro r hend first hitem
    rw [takeOperand, dif_neg hend, hitem]
    exact catalog_literal prior _ _
  · intro r hend hitem
    rw [takeOperand, dif_neg hend, hitem]
  · intro r first ihOperand ih
    rw [takeGrouped]
    exact ih.trans ((catalog_keep r _).trans ihOperand)
  · intro value r hend
    rw [takeOperations, dif_pos hend]
  · intro value r hend hitem operand ihOperand ih
    rw [takeOperations, dif_neg hend, hitem]
    exact ih.trans ((catalog_resume r _).trans ihOperand)
  · intro value r hend hitem operand ihOperand ih
    rw [takeOperations, dif_neg hend, hitem]
    exact ih.trans ((catalog_resume r _).trans ihOperand)
  · intro value r hend hshift hunion
    rw [takeOperations, dif_neg hend]
    split
    · rename_i h
      exact absurd h hshift
    · rename_i h
      exact absurd h hunion
    · rfl

/-- An operand looks its names up, and adds none. -/
theorem adds_takeOperand (prior : List EnumValue) (r : Reader) : r.Adds n (takeOperand prior r).2 :=
  .of_eq ((catalog_takeOperand_and_takeGrouped_and_takeOperations prior).1 r)

/-- The value of an entry adds no more than its operands do. -/
theorem adds_takeEnumValue (prior : List EnumValue) (value : Option Int64) (r : Reader) :
    r.Adds n (takeEnumValue prior value r).2 := by
  fun_induction takeEnumValue prior value r with
  | case1 _ r => exact .refl r
  | case2 _ r => exact .refl r
  | case3 _ r _ _ _ ih => exact ((Adds.refl r).advance.trans (adds_takeOperand prior _)).resume.trans ih
  | case4 _ r _ _ _ ih => exact ((Adds.refl r).advance.trans (adds_takeOperand prior _)).resume.trans ih
  | case5 _ r _ _ ih => exact ih
  | case6 _ r _ _ _ ih => exact (adds_takeOperand prior r).resume.trans ih
  | case7 _ r _ _ _ ih => exact ih

/-- What stands behind the name of an entry adds no more than its value does. -/
theorem adds_takeAssignedValue (prior : List EnumValue) (r : Reader) :
    r.Adds n (takeAssignedValue prior r).2 := by
  unfold takeAssignedValue
  split
  · exact (Adds.refl r).advance.trans (adds_takeEnumValue prior none _)
  · exact .refl r

/-- The entries are kept by the reader until all are read. -/
theorem adds_takeEntries (prior : List EnumValue) (next : Int64) (r : Reader) :
    r.Adds n (takeEntries prior next r).2 := by
  fun_induction takeEntries prior next r with
  | case1 _ _ r => exact .refl r
  | case2 _ _ r => exact (Adds.refl r).advance
  | case3 prior _ r _ _ _ _ _ _ _ ih =>
    exact (((Adds.refl r).advance.trans (adds_takeAssignedValue prior _)).moveTo _).resume.trans ih
  | case4 _ _ r _ _ _ ih => exact ih

/-- The type an enum is stored as is the only type it mentions. -/
theorem adds_takeUnderlying (r : Reader) : r.Adds n r.takeUnderlying.2 := by
  unfold takeUnderlying
  dsimp only
  split
  · split
    · exact (Adds.refl r).advance.trans (adds_takeType none _)
    · exact ((Adds.refl r).advance.trans (adds_takeType none _)).trans (adds_use _ _ _)
  · exact .refl r

/-- An enum with entries is declared, as a new record. -/
theorem adds_takeEnumBody (r : Reader) (name : String) (isScoped : Bool) (underlying : Option TypeId) :
    r.Adds n (r.takeEnumBody name isScoped underlying).2 := by
  unfold takeEnumBody
  dsimp only
  split
  · exact ((adds_takeEntries [] 0 r).pass _).noted _
  · exact ((adds_takeEntries [] 0 r).pass _).trans (adds_declare _ _ rfl rfl)

/-- An enum adds the type it is stored as, and itself. -/
theorem adds_takeEnum (r : Reader) : r.Adds n r.takeEnum.2 := by
  unfold takeEnum
  dsimp only
  generalize (if r.advance.cursor.seesWordOf ["class", "struct"] then r.cursor.advance.advance
    else r.cursor.advance).takeWord = name
  split
  · exact ((Adds.refl r).moveTo _).noted _
  · split
    · exact ((((Adds.refl r).moveTo _).trans (adds_takeUnderlying _)).moveTo _).noted _
    · split
      · exact ((((Adds.refl r).moveTo _).trans (adds_takeUnderlying _)).moveTo _).advance.trans
          (adds_takeEnumBody _ _ _ _)
      · exact (((Adds.refl r).moveTo _).trans (adds_takeUnderlying _)).moveTo _

/-- An enum that is declared is a record that was not there before. -/
theorem length_records_le_takeEnum {r : Reader} {id : TypeId} (h : r.takeEnum.1 = some id) :
    r.catalog.records.length ≤ id.index := by
  have hbody : ∀ (r : Reader) (name : String) (isScoped : Bool) (underlying : Option TypeId),
      (r.takeEnumBody name isScoped underlying).1 = some id → r.catalog.records.length ≤ id.index := by
    intro r name isScoped underlying hid
    unfold takeEnumBody at hid
    dsimp only at hid
    split at hid
    · cases hid
    · obtain rfl := Option.some.inj hid
      exact (adds_takeEntries [] 0 r).length_records_le
  unfold takeEnum at h
  dsimp only at h
  generalize (if r.advance.cursor.seesWordOf ["class", "struct"] then r.cursor.advance.advance
    else r.cursor.advance).takeWord = name at h
  split at h
  · cases h
  · split at h
    · cases h
    · split at h
      · have hread := hbody _ _ _ _ h
        exact Nat.le_trans (adds_takeUnderlying (r.moveTo name.2)).length_records_le hread
      · cases h

/-! ## Headers -/

/-- A base goes into a record that is not to be left alone. -/
theorem adds_addBase {id : TypeId} (hid : n ≤ id.index) (r : Reader) (name : String) : r.Adds n (addBase id r name) :=
  Adds.edit (adds_refer r name) hid _ (fun _ => rfl) (fun _ => rfl) (fun _ => rfl)

/-- Traits are content of the record they are added to. -/
theorem adds_addTraits (r : Reader) {id : TypeId} (hid : n ≤ id.index) (traits : Traits) : r.Adds n (r.addTraits id traits) :=
  Adds.edit (.refl r) hid _ (fun _ => rfl) (fun _ => rfl) (fun _ => rfl)

/-- Nesting edits two records, neither of which is to be left alone. -/
theorem adds_nest (r : Reader) {owner child : TypeId} (howner : n ≤ owner.index) (hchild : n ≤ child.index) :
    r.Adds n (r.nest owner child) := by
  unfold nest
  have h : r.Adds n (r.edit child fun d => { d with containing := some owner }) :=
    Adds.edit (.refl r) hchild _ (fun _ => rfl) (fun _ => rfl) (fun _ => rfl)
  exact Adds.edit h howner _ (fun _ => rfl) (fun _ => rfl) (fun _ => rfl)

/-- The words behind the name of a type do not say that it is only referred to. -/
theorem isComplete_takeTypeSpecifiers (flags : TypeFlags) (c : Cursor) :
    (c.takeTypeSpecifiers flags).1.isComplete = flags.isComplete := by
  fun_induction Cursor.takeTypeSpecifiers flags c with
  | case1 => rfl
  | case2 _ _ _ _ ih => exact ih
  | case3 _ _ _ _ _ ih => exact ih
  | case4 => rfl

/-- The head of a type adds its record, and bases to that record. -/
theorem adds_takeTypeBases (r : Reader) (d : TypeDef) (hc : d.flags.isComplete = true) (hd : d.derived = []) :
    r.Adds n (r.takeTypeBases d).2 := by
  have hdeclare := ((Adds.refl (n := n) r).moveTo (r.cursor.takeTypeSpecifiers d.flags).2).trans
    (adds_declare _ { d with flags := (r.cursor.takeTypeSpecifiers d.flags).1 }
      ((isComplete_takeTypeSpecifiers d.flags r.cursor).trans hc) hd)
  unfold takeTypeBases
  dsimp only
  have hid : ((r.moveTo (r.cursor.takeTypeSpecifiers d.flags).2).declare
      { d with flags := (r.cursor.takeTypeSpecifiers d.flags).1 }).1.index = r.catalog.records.length := rfl
  generalize (r.moveTo (r.cursor.takeTypeSpecifiers d.flags).2).declare
    { d with flags := (r.cursor.takeTypeSpecifiers d.flags).1 } = id at hdeclare hid ⊢
  generalize (if id.2.cursor.sees ':' then id.2.cursor.advance.takeBases else ([], id.2.cursor)) = bases
  refine .of_le fun hn => ?_
  have hbases := (hdeclare.moveTo bases.2).trans (Adds.foldl (adds_addBase (Nat.le_trans hn (Nat.le_of_eq hid.symm))) bases.1 _)
  split
  · exact hbases.advance
  · exact hbases.skipStatement

/-- A type of which the head has been read is the record that was made next. -/
theorem index_takeTypeBases {r : Reader} {d : TypeDef} {id : TypeId}
    (h : (r.takeTypeBases d).1 = .absent id ∨ (r.takeTypeBases d).1 = .follows id) : id.index = r.catalog.records.length := by
  unfold takeTypeBases at h
  dsimp only at h
  have hid : ((r.moveTo (r.cursor.takeTypeSpecifiers d.flags).2).declare
      { d with flags := (r.cursor.takeTypeSpecifiers d.flags).1 }).1.index = r.catalog.records.length := rfl
  generalize (r.moveTo (r.cursor.takeTypeSpecifiers d.flags).2).declare
    { d with flags := (r.cursor.takeTypeSpecifiers d.flags).1 } = made at hid h
  generalize (if made.2.cursor.sees ':' then made.2.cursor.advance.takeBases else ([], made.2.cursor)) = bases at h
  rw [← hid]
  split at h <;> simp only [reduceCtorEq, TypeBody.absent.injEq, TypeBody.follows.injEq, or_false, false_or] at h <;>
    exact congrArg TypeId.index h.symm

/-- The record of a type is the first one behind those that were there before its head was read. -/
theorem index_takeTypeHeader {options : ScanOptions} {isClass : Bool} {r : Reader} {id : TypeId}
    (h : (takeTypeHeader options isClass r).1 = .absent id ∨ (takeTypeHeader options isClass r).1 = .follows id) :
    id.index = r.catalog.records.length := by
  unfold takeTypeHeader at h
  dsimp only at h
  generalize r.cursor.advance.takeApiWord options = api at h
  generalize api.2.takeWord = name at h
  obtain ⟨_ | typeName, c⟩ := name
  · simp at h
  · dsimp only at h
    by_cases hs : c.sees ';' = true
    · simp [hs] at h
    · rw [if_neg hs] at h
      have hid := index_takeTypeBases h
      exact hid

/-- The head of a type adds what its bases add, or nothing if the type is not declared. -/
theorem adds_takeTypeHeader (options : ScanOptions) (isClass : Bool) (r : Reader) :
    r.Adds n (takeTypeHeader options isClass r).2 := by
  unfold takeTypeHeader
  dsimp only
  split
  · exact ((Adds.refl r).moveTo _).noted _
  · split
    · exact ((Adds.refl r).moveTo _).noted _
    · exact ((Adds.refl r).moveTo _).trans (adds_takeTypeBases _ _ rfl rfl)

/-- The type of a described property is read from a text of its own, into the same catalog. -/
theorem adds_describedProperty (r : Reader) (traits : Traits) (isVirtual : Bool) :
    r.Adds n (r.describedProperty traits isVirtual).2 := by
  unfold describedProperty
  dsimp only
  split
  · exact (Adds.refl r).noted _
  · split
    · exact ((((Adds.refl r).moveTo _).trans (adds_takeType none _)).moveTo _).noted _
    · exact ((((Adds.refl r).moveTo _).trans (adds_takeType none _)).moveTo _).trans (adds_use _ _ _)

/-- A described property goes into the record of its owner. -/
theorem adds_takeDescribed (r : Reader) {owner : TypeId} (howner : n ≤ owner.index) (isVirtual : Bool) :
    r.Adds n (r.takeDescribed owner isVirtual) := by
  have hp := ((Adds.refl (n := n) r).moveTo r.cursor.takeTraits.2).trans
    (adds_describedProperty _ r.cursor.takeTraits.1 isVirtual)
  unfold takeDescribed
  dsimp only
  split
  · refine Adds.pass ?_ _
    exact Adds.edit hp howner _ (fun _ => rfl) (fun _ => rfl) (fun _ => rfl)
  · exact hp.pass _

/-- The body of a fake type adds properties to its record. -/
theorem adds_takeFakeBody {id : TypeId} (hid : n ≤ id.index) (r : Reader) : r.Adds n (takeFakeBody id r) := by
  fun_induction takeFakeBody id r with
  | case1 r => exact .refl r
  | case2 r _ _ ih => exact ((Adds.refl r).advance.trans (adds_takeDescribed _ hid false)).resume.trans ih
  | case3 r _ _ _ ih => exact ((Adds.refl r).advance.trans (adds_takeDescribed _ hid true)).resume.trans ih
  | case4 r => exact (Adds.refl r).advance
  | case5 r => exact (Adds.refl r).noted _

/-- A fake type adds its record and what its body adds. -/
theorem adds_takeFake (r : Reader) : r.Adds n r.takeFake := by
  unfold takeFake
  dsimp only
  split
  · refine .of_le fun hn => ?_
    exact (((Adds.refl r).moveTo _).trans (adds_declare _ _ rfl rfl)).trans (adds_takeFakeBody (by exact hn) _)
  · exact ((Adds.refl r).moveTo _).noted _

/-- A member that is not read adds nothing. -/
theorem adds_takeVisible (options : ScanOptions) {scope : Scope} (hs : scope.Beyond n) (r : Reader) :
    r.Adds n (takeVisible options scope r) := by
  unfold takeVisible
  split
  · exact adds_takeMember options hs r
  · exact (Adds.refl r).skipStatement

/-- The declaration behind a type marker is of a record that was not there before. -/
theorem length_records_le_takeReflected {options : ScanOptions} {depth : Nat} {traits : Traits} {r : Reader} {id : TypeId}
    (h : (takeReflected options depth traits r).1 = some id) : r.catalog.records.length ≤ id.index := by
  rw [takeReflected] at h
  split at h
  · dsimp only at h
    split at h
    · cases h
    · rename_i hhead
      obtain rfl := Option.some.inj h
      exact Nat.le_of_eq (index_takeTypeHeader (Or.inl hhead)).symm
    · rename_i hhead
      obtain rfl := Option.some.inj h
      exact Nat.le_of_eq (index_takeTypeHeader (Or.inr hhead)).symm
  · split at h
    · dsimp only at h
      split at h
      · rename_i hid
        obtain rfl := Option.some.inj h
        exact length_records_le_takeEnum hid
      · cases h
    · cases h

/-- A declaration behind a type marker and the body of a type call each other, at any depth of nesting. -/
theorem adds_takeReflected_and_takeBody (options : ScanOptions) :
    (∀ (depth : Nat) (traits : Traits) (r : Reader), r.Adds n (takeReflected options depth traits r).2) ∧
      ∀ (owner : TypeId) (depth : Nat) (visibility : Visibility) (r : Reader), n ≤ owner.index →
        r.Adds n (takeBody options owner depth visibility r) := by
  refine takeReflected.mutual_induct options (fun depth traits r => r.Adds n (takeReflected options depth traits r).2)
    (fun owner depth visibility r => n ≤ owner.index → r.Adds n (takeBody options owner depth visibility r))
    ?_ ?_ ?_ ?_ ?_ ?_ ?_ ?_ ?_ ?_ ?_ ?_ ?_ ?_ ?_ ?_ ?_
  -- a struct or class: without a name, without a body, with a body
  · intro depth traits r hword isClass head hhead
    rw [takeReflected, if_pos hword]
    dsimp only
    rw [hhead]
    exact adds_takeTypeHeader options isClass r
  · intro depth traits r hword isClass head id hhead
    rw [takeReflected, if_pos hword]
    dsimp only
    rw [hhead]
    refine .of_le fun hn => ?_
    have hid : n ≤ id.index := Nat.le_trans hn (Nat.le_of_eq (index_takeTypeHeader (Or.inl hhead)).symm)
    exact (adds_takeTypeHeader options isClass r).trans (adds_addTraits _ hid _)
  · intro depth traits r hword isClass head id hhead visibility ih
    rw [takeReflected, if_pos hword]
    dsimp only
    rw [hhead]
    refine .of_le fun hn => ?_
    have hid : n ≤ id.index := Nat.le_trans hn (Nat.le_of_eq (index_takeTypeHeader (Or.inr hhead)).symm)
    exact (((adds_takeTypeHeader options isClass r).keep.trans (ih hid)).pass _).trans (adds_addTraits _ hid _)
  -- an enum: declared, and not
  · intro depth traits r hword henum e id hid
    rw [takeReflected, if_neg hword, if_pos henum]
    dsimp only
    rw [hid]
    exact .of_le fun hn => (adds_takeEnum r).trans (adds_addTraits _ (Nat.le_trans hn (length_records_le_takeEnum hid)) _)
  · intro depth traits r hword henum e hid
    rw [takeReflected, if_neg hword, if_pos henum]
    dsimp only
    rw [hid]
    exact adds_takeEnum r
  · intro depth traits r hword henum
    rw [takeReflected, if_neg hword, if_neg henum]
    exact (Adds.refl r).noted _
  · intro owner depth visibility r hend _
    rw [takeBody, dif_pos hend]
    exact (Adds.refl r).noted _
  · intro owner depth visibility r hend hitem _
    rw [takeBody, dif_neg hend, hitem]
    exact (Adds.refl r).advance
  · intro owner depth visibility r hend hitem ih howner
    rw [takeBody, dif_neg hend, hitem]
    exact ih howner
  · intro owner depth visibility r hend hitem ih howner
    rw [takeBody, dif_neg hend, hitem]
    exact ((Adds.refl r).moveTo _).resume.trans (ih howner)
  · intro owner depth visibility r hend label hitem ih howner
    rw [takeBody, dif_neg hend, hitem]
    exact (Adds.refl r).advance.advance.resume.trans (ih howner)
  -- a nested type, which is entered with its owner if it is declared
  · intro owner depth visibility r hend hitem traits child id hid ihChild _ ih howner
    rw [takeBody, dif_neg hend, hitem]
    dsimp only
    rw [hid]
    refine .of_le fun hn => ?_
    have hchild : n ≤ id.index := by
      refine Nat.le_trans hn (Nat.le_trans (Nat.le_of_eq ?_) (length_records_le_takeReflected hid))
      rw [catalog_resume]
      rfl
    exact (((((Adds.refl r).moveTo _).resume).trans ihChild).trans (adds_nest _ howner hchild)).resume.trans (ih howner)
  · intro owner depth visibility r hend hitem traits child hid ihChild _ ih howner
    rw [takeBody, dif_neg hend, hitem]
    dsimp only
    rw [hid]
    exact ((((Adds.refl r).moveTo _).resume).trans ihChild).resume.trans (ih howner)
  · intro owner depth visibility r hend hitem ih howner
    rw [takeBody, dif_neg hend, hitem]
    exact ((Adds.refl r).advance.trans (adds_takeDescribed _ howner true)).resume.trans (ih howner)
  · intro owner depth visibility r hend hitem ih howner
    rw [takeBody, dif_neg hend, hitem]
    exact (Adds.refl r).skipStatement.resume.trans (ih howner)
  · intro owner depth visibility r hend hitem ih howner
    rw [takeBody, dif_neg hend, hitem]
    exact ((Adds.refl r).moveTo _).resume.trans (ih howner)
  · intro owner depth visibility r hend hitem ih howner
    rw [takeBody, dif_neg hend, hitem]
    exact (adds_takeVisible options (fun _ h => Option.some.inj h ▸ howner) r).resume.trans (ih howner)

/-- A header adds what its declarations add, one after the other. -/
theorem adds_takeHeader (options : ScanOptions) (r : Reader) : r.Adds n (takeHeader options r) := by
  fun_induction takeHeader options r with
  | case1 r => exact .refl r
  | case2 r _ _ _ ih =>
    exact (((Adds.refl r).moveTo _).trans ((adds_takeReflected_and_takeBody options).1 0 _ _)).resume.trans ih
  | case3 r _ _ _ ih => exact (adds_takeMember options (Scope.beyond_top n) r).resume.trans ih
  | case4 r _ _ _ _ ih => exact ((Adds.refl r).advance.trans (adds_takeFake _)).resume.trans ih
  | case5 r _ _ _ _ ih => exact ih

end Reader

/-- Reading the text of a header into a catalog only grows it, and edits none of the records that were there, whatever the text
is. -/
theorem Recorder.scan_adds (r : Recorder) (options : ScanOptions) (source : String) :
    Grows (AddChange r.catalog.records.length) r.catalog (r.scan options source).catalog :=
  Reader.adds_takeHeader options { r with cursor := Cursor.ofText source } (Nat.le_refl _)

/-- Whatever stands in a header, reading it only grows the catalog. -/
theorem Recorder.scan_grows (r : Recorder) (options : ScanOptions) (source : String) :
    Grows ReadChange r.catalog (r.scan options source).catalog :=
  (r.scan_adds options source).mono fun _ h => h.1

end HeaderAtlas
