import HeaderAtlas.Proofs.Declaration.Turn
import HeaderAtlas.Proofs.Token.Word

/-!
# The types a header mentions

Wherever a header names a type, as a base or as the type of something, the name gets a handle: that of a declared type, or that of
the placeholder of the name. What a name is bound to by its handle (`Catalog.Bound`) is seen when it is read, and reading keeps it.
A name in a type expression is looked up as settlement looks names up (`takeType_of_name`), but at once: its last part is taken
if the whole is not declared yet.
-/

namespace HeaderAtlas

open Catalog (Grows)

/-- A type named in a header. -/
structure Mention where
  /-- The name as it is written. -/
  name : String
  /-- The name is looked up as a whole: that of a base, or of the enum that names the bits of a field. -/
  isWhole : Bool
  /-- The catalog when the name was read. -/
  seen : Catalog
  /-- The type or placeholder that the name was bound to. -/
  handle : TypeId

/-- When the name was read it was not declared, but what stands behind its last `::` was, and was taken in its place. -/
def Mention.ByPart (m : Mention) : Prop :=
  m.isWhole = false ∧ m.seen.lookup m.name = none ∧ ∃ part, IsLastPart m.name part ∧ m.seen.lookup part ≠ none

/-- What the name was bound to: a type declared under its last part, or else one declared under the whole name or the placeholder
of the name. -/
def Catalog.Bound (c : Catalog) (m : Mention) : Prop :=
  (m.ByPart ∧ ∃ part, IsLastPart m.name part ∧ c.Declared m.handle part) ∨
    (¬m.ByPart ∧ (c.Declared m.handle m.name ∨ c.placeholders.get? m.name = some m.handle))

namespace Catalog

/-- Reading keeps what names are bound to. -/
theorem Bound.grows {c c' : Catalog} {m : Mention} (h : c.Bound m) (hc : c.Inv) (hg : Grows ReadChange c c') : c'.Bound m := by
  have hkeeps := hg.keeps (P := fun c => c.Inv ∧ c.Bound m) ?_ ⟨hc, h⟩
  · exact hkeeps.2
  · intro c x _ hx
    refine ⟨hx.1.change x, ?_⟩
    rcases hx.2 with ⟨hpart, part, hlast, hd⟩ | ⟨hpart, hd | hp⟩
    · exact Or.inl ⟨hpart, part, hlast, (c.extends_change x).declared hd⟩
    · exact Or.inr ⟨hpart, Or.inl ((c.extends_change x).declared hd)⟩
    · exact Or.inr ⟨hpart, Or.inr (get?_placeholders_change hp x)⟩

/-- Reading keeps the invariant. -/
theorem Inv.grows {c c' : Catalog} (hc : c.Inv) (hg : Grows ReadChange c c') : c'.Inv :=
  hg.keeps (fun _ x _ h => h.change x) hc

/-- A word is looked up as a whole only. -/
theorem lookupWritten_of_plain (c : Catalog) {word : String} (h : IsPlain word) : c.lookupWritten word = c.lookup word := by
  have hnone : lastSegment? word.toList = none :=
    (lastSegment?_eq_none_iff _).mpr fun hin => h.noColons (hin.trans (List.suffix_cons _ _).isInfix)
  rw [lookupWritten, hnone]
  cases c.lookup word <;> rfl

/-- What is declared stays declared while reading goes on. -/
theorem Declared.grows {c c' : Catalog} {id : TypeId} {name : String} (h : c.Declared id name) (hg : Grows ReadChange c c') :
    c'.Declared id name :=
  hg.keeps (fun c x _ hd => (c.extends_change x).declared hd) h

/-- A name that was looked up as written names are, and got its placeholder if nothing was found, is bound. -/
theorem Inv.bound_of_lookupWritten {c c' : Catalog} (hc : c.Inv) (hg : Grows ReadChange c c') {name : String} {handle : TypeId}
    (h : c.lookupWritten name = some handle ∨ c.lookupWritten name = none ∧ c'.placeholders.get? name = some handle) :
    c'.Bound ⟨name, false, c, handle⟩ := by
  rcases h with hfound | ⟨hnone, hp⟩
  · cases hwhole : c.lookup name with
    | some id =>
      obtain rfl : id = handle := Option.some.inj ((lookupWritten_of_some hwhole).symm.trans hfound)
      refine Or.inr ⟨fun hpart => absurd (hwhole.symm.trans hpart.2.1) nofun, Or.inl ?_⟩
      exact (hc.lookup_declared hwhole).grows hg
    | none =>
      obtain ⟨part, rfl | hlast, hl⟩ := lookup_of_lookupWritten hfound
      · cases hwhole.symm.trans hl
      · exact Or.inl ⟨⟨rfl, hwhole, part, hlast, by rw [hl]; exact nofun⟩, part, hlast, (hc.lookup_declared hl).grows hg⟩
  · have hparts := ((c.lookupWritten_eq_none_iff name).mp hnone).2
    exact Or.inr ⟨fun ⟨_, _, part, hlast, hpart⟩ => hpart (hparts part hlast), Or.inr hp⟩

/-- A name that was looked up as a whole is bound. -/
theorem Inv.bound_reference {c : Catalog} (hc : c.Inv) (name : String) :
    (c.reference name).2.Bound ⟨name, true, c, (c.reference name).1⟩ := by
  refine Or.inr ⟨fun hpart => absurd hpart.1 nofun, ?_⟩
  unfold reference
  cases hl : c.lookup name with
  | some id => exact Or.inl (hc.lookup_declared hl)
  | none => exact Or.inr (c.get?_placeholder name)

end Catalog

namespace Reader

/-! ## Names of types -/

/-- The name of a type in front of the reader, as it is written: none if there is none, or if it is that of a constructor or
destructor. -/
def typeName? (context : Option TypeId) (r : Reader) : Option String :=
  let head := r.cursor.takeTypeHead
  match head.1.word with
  | none => none
  | some word =>
    if head.1.isDestructor || r.atSpecial context word head.2 then none
    else some (qualifiedName word head.2.takeParts.1)

/-- The name that parts are put together to, and what is looked up for it. -/
theorem foldl_addPart (c : Catalog) (word : String) (parts : List String) :
    (parts.foldl (addPart c) (word, c.lookup word)).1 = qualifiedName word parts := by
  suffices ∀ named : String × Option TypeId, (parts.foldl (addPart c) named).1 = qualifiedName named.1 parts from this _
  induction parts with
  | nil => exact fun _ => rfl
  | cons part parts ih => exact fun named => ih (addPart c named part)

/-- A name made of words is looked up as written names are. -/
theorem foldl_addPart_snd (c : Catalog) {word : String} {parts : List String} (hword : IsPlain word)
    (hparts : ∀ part ∈ parts, IsPlain part) :
    (parts.foldl (addPart c) (word, c.lookup word)).2 = c.lookupWritten (qualifiedName word parts) := by
  rcases List.eq_nil_or_concat parts with rfl | ⟨front, part, rfl⟩
  · exact (c.lookupWritten_of_plain hword).symm
  · rw [List.concat_eq_append] at hparts ⊢
    have hlast := isLastPart_qualifiedName word front (hparts part (List.mem_append_right _ List.mem_cons_self))
    rewrite [c.lookupWritten_of_isLastPart hlast, qualifiedName_concat, List.foldl_append, List.foldl_cons, List.foldl_nil,
      addPart, foldl_addPart]
    rfl

/-- The type expression that a name stands in: it is looked up as written names are. -/
theorem takeType_of_name {context : Option TypeId} {r : Reader} {name : String} (hplain : r.cursor.Plain)
    (h : r.typeName? context = some name) :
    (takeType context r).1.name = name ∧ (takeType context r).1.type = r.catalog.lookupWritten name := by
  unfold typeName? at h
  dsimp only at h
  split at h
  · cases h
  · rename_i word hword
    split at h
    · cases h
    · rename_i hspecial
      rw [Bool.or_eq_true, not_or] at hspecial
      obtain rfl := Option.some.inj h
      have hparts := (hplain.onward (Cursor.onward_takeTypeHead _)).takeParts
      have hnamed : (r.cursor.takeTypeHead.1.named r.catalog word r.cursor.takeTypeHead.2.takeParts.1).name =
            qualifiedName word r.cursor.takeTypeHead.2.takeParts.1 ∧
          (r.cursor.takeTypeHead.1.named r.catalog word r.cursor.takeTypeHead.2.takeParts.1).type =
            r.catalog.lookupWritten (qualifiedName word r.cursor.takeTypeHead.2.takeParts.1) := by
        rw [TypeHead.named, if_neg hspecial.1]
        exact ⟨foldl_addPart _ _ _, foldl_addPart_snd _ (hplain.takeTypeHead hword) hparts⟩
      rw [takeType_of_some hword, if_neg hspecial.2]
      split
      · exact hnamed
      · exact hnamed

/-- The handle that the use of a type gets. -/
theorem type_use (r : Reader) (e : TypeExpr) (name : String) :
    (r.use e name).1.type = e.type.getD (r.catalog.placeholder e.name).1 := by
  unfold use
  split
  · rename_i id hid
    rw [hid]
    rfl
  · rename_i hid
    rw [hid]
    rfl

/-- A name refers to what the catalog finds or makes for it. -/
theorem refer_fst (r : Reader) (name : String) : (r.refer name).1 = (r.catalog.reference name).1 := by
  unfold refer Recorder.reference Catalog.reference
  dsimp only
  cases r.catalog.lookup name with
  | some id => rfl
  | none => rfl

/-- A reference changes the catalog as the catalog says. -/
theorem catalog_refer (r : Reader) (name : String) : (r.refer name).2.catalog = (r.catalog.reference name).2 :=
  Recorder.catalog_reference r.toRecorder name

/-- An undeclared type that is used has its placeholder. -/
theorem get?_placeholders_use {r : Reader} {e : TypeExpr} (h : e.type = none) (name : String) :
    (r.use e name).2.catalog.placeholders.get? e.name = some (r.use e name).1.type := by
  unfold use
  rw [h]
  exact r.catalog.get?_placeholder e.name

/-- Between the two readers a type expression is used, and gets this handle. -/
def Uses (e : TypeExpr) (r r' : Reader) (handle : TypeId) : Prop :=
  ∃ (e' : TypeExpr) (name : String) (r₁ : Reader), e'.type = e.type ∧ e'.name = e.name ∧ r.Reads r₁ ∧
    (r₁.use e' name).1.type = handle ∧ (r₁.use e' name).2.Reads r'

/-- A use right away. -/
theorem Uses.now {e : TypeExpr} {r r' : Reader} (name : String) (h : (r.use e name).2.Reads r') :
    Uses e r r' (r.use e name).1.type :=
  ⟨e, name, r, rfl, rfl, .refl r, rfl, h⟩

/-- A use stays one with reading in front of it and behind it. -/
theorem Uses.of_reads {e : TypeExpr} {r r₁ r₂ r' : Reader} {handle : TypeId} (h : Uses e r₁ r₂ handle) (hbefore : r.Reads r₁)
    (hafter : r₂.Reads r') : Uses e r r' handle := by
  obtain ⟨e', name, reader, htype, hname, hreads, hhandle, hrest⟩ := h
  exact ⟨e', name, reader, htype, hname, hbefore.trans hreads, hhandle, hrest.trans hafter⟩

/-- A name that is read as a type expression and then used is bound. -/
theorem Uses.bound {context : Option TypeId} {r r' : Reader} {name : String} {handle : TypeId} (hplain : r.cursor.Plain)
    (hc : r.catalog.Inv) (hname : r.typeName? context = some name)
    (h : Uses (takeType context r).1 (takeType context r).2 r' handle) :
    r'.catalog.Bound ⟨name, false, r.catalog, handle⟩ := by
  obtain ⟨hwritten, htype⟩ := takeType_of_name hplain hname
  obtain ⟨e', field, reader, htype', hname', hreads, rfl, hrest⟩ := h
  rw [hwritten] at hname'
  rw [htype] at htype'
  have hbefore : r.Reads reader := (adds_takeType context r).reads.trans hreads
  have hused := hbefore.trans (adds_use reader e' field).reads
  refine Catalog.Bound.grows ?_ (hc.grows hused) hrest
  refine hc.bound_of_lookupWritten hused ?_
  cases hfound : r.catalog.lookupWritten name with
  | some id =>
    rw [type_use, htype', hfound]
    exact Or.inl rfl
  | none =>
    refine Or.inr ⟨rfl, ?_⟩
    rw [← hname']
    exact get?_placeholders_use (htype'.trans hfound) field

/-! ## Members -/

/-- A member has an annotation. -/
def isAnnotated (r : Reader) : Bool :=
  let traits := takeMemberTraits r.cursor
  traits.1.isSome

/-- The enum that names the bits of a member, read behind its annotation. -/
def memberBits (r : Reader) : Option TypeId × Reader :=
  let traits := takeMemberTraits r.cursor
  let annotated := r.moveTo traits.2
  if annotated.cursor.seesMarker .bitFlags then annotated.advance.takeBitSource else (none, annotated)

/-- The name of the enum that names the bits of a member. -/
def bitName? (r : Reader) : Option String :=
  let traits := takeMemberTraits r.cursor
  traits.2.advance.advance.takeWord.1

/-- The head of a member as far as its type. -/
def memberHead (options : ScanOptions) (scope : Scope) (r : Reader) : MemberHead :=
  let traits := takeMemberTraits r.cursor
  { type := ((r.beforeMemberType options).takeType scope.enclosing).1
    name := ""
    traits := traits.1.getD []
    bitSource := r.memberBits.1
    apiWord := (r.memberBits.2.cursor.takeApiWord options).1
    convention := none }

/-- The whole head of a member of which the type has been read, and the reader behind it. -/
def named? (options : ScanOptions) (head : MemberHead) (r : Reader) : Option (MemberHead × Reader) :=
  let decorations := head.type.modifiers.decorations
  if decorations.isConstructor || decorations.isDestructor then some ({ head with name := head.type.name }, r)
  else
    let convention := r.cursor.takeConvention options none
    let name := convention.2.takeMemberName
    match name.1 with
    | some name' => some ({ head with name := name', convention := convention.1 }, r.moveTo name.2)
    | none => none

/-- The whole head of a member, and the reader behind it; none if the statement is passed over. -/
def memberBody? (options : ScanOptions) (scope : Scope) (r : Reader) : Option (MemberHead × Reader) :=
  let head := r.memberHead options scope
  if r.cursor.seesMarker .hidden || head.type.isEmpty || head.type.type.isNone && !r.isAnnotated then none
  else named? options head ((r.beforeMemberType options).takeType scope.enclosing).2

/-- A member whose body is reached is its body. -/
theorem takeMember_of_body {options : ScanOptions} {scope : Scope} {r r' : Reader} {head : MemberHead}
    (h : r.memberBody? options scope = some (head, r')) :
    takeMember options scope r = r'.takeMemberBody scope r.isAnnotated head := by
  unfold memberBody? at h
  dsimp only at h
  split at h
  · cases h
  · rename_i hread
    rw [Bool.or_eq_true, Bool.or_eq_true, not_or, not_or] at hread
    obtain ⟨⟨hhidden, hempty⟩, htype⟩ := hread
    have hnamed : takeMember options scope r =
        takeNamedMember options ((r.beforeMemberType options).takeType scope.enclosing).2 scope
          (r.beforeMemberType options).cursor.peek.location r.isAnnotated (r.memberHead options scope) := by
      rw [takeMember, if_neg hhidden]
      refine if_neg ?_
      unfold isAnnotated at htype
      rw [Option.not_isSome] at htype
      rw [Bool.or_eq_true, not_or]
      exact ⟨hempty, htype⟩
    rw [hnamed, takeNamedMember]
    unfold named? at h
    dsimp only at h
    split at h
    · rename_i hspecial
      obtain ⟨rfl, rfl⟩ := Prod.mk.inj (Option.some.inj h)
      exact if_pos hspecial
    · rename_i hspecial
      split at h
      · rename_i name hname
        obtain ⟨rfl, rfl⟩ := Prod.mk.inj (Option.some.inj h)
        rw [if_neg hspecial]
        dsimp only
        rw [hname]
      · cases h

/-- The head of a member keeps the type that was read, and nothing is recorded before it is whole. -/
theorem memberBody_spec {options : ScanOptions} {scope : Scope} {r r' : Reader} {head : MemberHead}
    (h : r.memberBody? options scope = some (head, r')) :
    head.type = ((r.beforeMemberType options).takeType scope.enclosing).1 ∧
      ∃ c, ((r.beforeMemberType options).takeType scope.enclosing).2.cursor.Onward c ∧
        r' = ((r.beforeMemberType options).takeType scope.enclosing).2.moveTo c := by
  unfold memberBody? at h
  dsimp only at h
  split at h
  · cases h
  · unfold named? at h
    dsimp only at h
    split at h
    · obtain ⟨rfl, rfl⟩ := Prod.mk.inj (Option.some.inj h)
      exact ⟨rfl, _, .refl _, rfl⟩
    · split at h
      · obtain ⟨rfl, rfl⟩ := Prod.mk.inj (Option.some.inj h)
        exact ⟨rfl, _, (Cursor.onward_takeConvention _ _ _).trans (Cursor.onward_takeMemberName _), rfl⟩
      · cases h

/-- What stands in front of the type of a member grows the catalog. -/
theorem reads_beforeMemberType (options : ScanOptions) (r : Reader) : r.Reads (r.beforeMemberType options) := by
  unfold beforeMemberType
  dsimp only
  generalize takeMemberTraits r.cursor = traits
  split
  · exact (((Reads.refl r).moveTo _).advance.trans (adds_takeBitSource _).reads).moveTo _
  · exact ((Reads.refl r).moveTo _).moveTo _

/-- What stands between the type and the body of a member grows the catalog. -/
theorem reads_memberBody {options : ScanOptions} {scope : Scope} {r r' : Reader} {head : MemberHead}
    (h : r.memberBody? options scope = some (head, r')) :
    ((r.beforeMemberType options).takeType scope.enclosing).2.Reads r' := by
  obtain ⟨-, c, -, rfl⟩ := memberBody_spec h
  exact (Reads.refl _).moveTo c

/-- The body of a member is reached onward. -/
theorem onward_memberBody {options : ScanOptions} {scope : Scope} {r r' : Reader} {head : MemberHead}
    (h : r.memberBody? options scope = some (head, r')) : r.Onward r' := by
  obtain ⟨-, c, hc, rfl⟩ := memberBody_spec h
  exact ((r.onward_beforeMemberType options).trans (onward_takeType _ _)).moveTo hc

/-- The handle that the type of a member gets when the member is recorded: as the result of a method, as an array, or as one of
several fields. -/
inductive MemberUse (scope : Scope) (isAnnotated : Bool) (head : MemberHead) (r : Reader) : TypeId → Prop where
  | result (hcall : r.cursor.sees '(' = true) (hannotated : isAnnotated = true) :
    MemberUse scope isAnnotated head r (r.use head.type "").1.type
  | array {length : Nat × Reader} (hcall : r.cursor.sees '(' = false) (harray : r.cursor.sees '[' = true)
    (hlength : r.advance.takeLength head.name = length) :
    MemberUse scope isAnnotated head r
      ((length.2.moveTo { length.2.cursor with unread := Cursor.afterArrayLength length.2.cursor.unread }).memberProperty
        scope head).1.type
  | field {fields : List Declarator × Cursor} {before after : List Declarator} {d : Declarator}
    (hcall : r.cursor.sees '(' = false) (harray : r.cursor.sees '[' = false)
    (hfields : r.cursor.takeDeclarators head.name head.type.modifiers.shape = fields)
    (hsplit : fields.1 = before ++ d :: after) :
    MemberUse scope isAnnotated head r
      ((before.foldl (addDeclarator scope head) (r.moveTo fields.2)).memberProperty scope
        { head with
          type := { head.type with modifiers := { head.type.modifiers with shape := d.shape } }
          name := d.name }).1.type

/-- A handle that a member stores is a use of its type. -/
theorem MemberUse.uses {scope : Scope} {isAnnotated : Bool} {head : MemberHead} {r : Reader} {handle : TypeId}
    (h : MemberUse scope isAnnotated head r handle) : Uses head.type r (r.takeMemberBody scope isAnnotated head) handle := by
  unfold takeMemberBody
  cases h with
  | result hcall hannotated =>
    rw [if_pos hcall, if_pos hannotated]
    refine .now "" ?_
    exact ((Reads.refl _).advance.trans (adds_takeParameters _).reads).moveTo _ |>.trans (adds_addMethod scope.beyond_zero _ _).reads
  | array hcall harray hlength =>
    subst hlength
    rw [if_neg (Bool.eq_false_iff.mp hcall), if_pos harray]
    refine ⟨head.type, head.name, _, rfl, rfl, ?_, rfl, ?_⟩
    · exact ((Reads.refl r).advance.trans (adds_takeLength r.advance head.name).reads).moveTo _
    · exact (((Reads.refl _).moveTo _).trans (adds_addProperty scope.beyond_zero _ _).reads).skipStatement
  | @field fields before after d hcall harray hfields hsplit =>
    subst hfields
    rw [if_neg (Bool.eq_false_iff.mp hcall), if_neg (Bool.eq_false_iff.mp harray)]
    refine ⟨{ head.type with modifiers := { head.type.modifiers with shape := d.shape } }, d.name, _, rfl, rfl, ?_, rfl, ?_⟩
    · exact ((Reads.refl r).moveTo _).trans (Adds.foldl (adds_addDeclarator scope.beyond_zero head) before _).reads
    · unfold takeFields
      dsimp only
      rw [hsplit, List.foldl_append, List.foldl_cons]
      refine Reads.skipStatement ?_
      exact (adds_addProperty scope.beyond_zero _ _).reads.trans (Adds.foldl (adds_addDeclarator scope.beyond_zero head) after _).reads

/-! ## Heads of types -/

/-- The name of a struct or class behind its word, with the decoration in front of it. -/
def typeHead (options : ScanOptions) (r : Reader) : Option String × Option String × Cursor :=
  let api := r.cursor.advance.takeApiWord options
  let name := api.2.takeWord
  (name.1, api.1, name.2)

/-- The record that a struct or class is declared with. -/
def headRecord (name : String) (isClass : Bool) (apiWord : Option String) : TypeDef := { name, flags := { isClass }, apiWord }

/-- The head of a type with a name, and no `;` behind it, goes on with its bases. -/
theorem takeTypeHeader_of_name {options : ScanOptions} {isClass : Bool} {r : Reader} {name : String} {apiWord : Option String}
    {c : Cursor} (h : r.typeHead options = (some name, apiWord, c)) (hbody : c.sees ';' = false) :
    takeTypeHeader options isClass r = (r.moveTo c).takeTypeBases (headRecord name isClass apiWord) := by
  obtain ⟨hname, hrest⟩ := Prod.mk.inj h
  obtain ⟨rfl, rfl⟩ := Prod.mk.inj hrest
  rw [takeTypeHeader, hname]
  exact if_neg (Bool.eq_false_iff.mp hbody)

/-- The handle of a declared type of which the bases follow, and the reader in front of them. -/
def declaredHead (r : Reader) (d : TypeDef) : TypeId × Reader :=
  let specifiers := r.cursor.takeTypeSpecifiers d.flags
  (r.moveTo specifiers.2).declare { d with flags := specifiers.1 }

/-- The names of the bases of a type, and the cursor behind them. -/
def baseNames (r : Reader) : List String × Cursor :=
  if r.cursor.sees ':' then r.cursor.advance.takeBases else ([], r.cursor)

/-- Declaring the type of a head grows the catalog. -/
theorem reads_declaredHead (r : Reader) (name : String) (isClass : Bool) (apiWord : Option String) :
    r.Reads (r.declaredHead (headRecord name isClass apiWord)).2 :=
  ((Reads.refl r).moveTo _).trans (adds_declare _ _ (isComplete_takeTypeSpecifiers _ r.cursor) rfl).reads

/-- A declared type with the first of its bases added, the reader behind all of them. -/
def basedOn (r : Reader) (d : TypeDef) (bases : List String) : Reader :=
  bases.foldl (addBase (r.declaredHead d).1) ((r.declaredHead d).2.moveTo (r.declaredHead d).2.baseNames.2)

/-- Entering the bases of a head grows the catalog. -/
theorem reads_basedOn (r : Reader) (name : String) (isClass : Bool) (apiWord : Option String) (bases : List String) :
    r.Reads (r.basedOn (headRecord name isClass apiWord) bases) :=
  ((reads_declaredHead r name isClass apiWord).moveTo _).trans (Adds.foldl (adds_addBase (Nat.zero_le _)) bases _).reads

/-- A base that has been looked up is entered, and those behind it are added. -/
theorem reads_basedOn_of_refer (r : Reader) (d : TypeDef) (before : List String) (base : String) (after : List String) :
    ((r.basedOn d before).refer base).2.Reads (r.basedOn d (before ++ base :: after)) := by
  have hbase : ((r.basedOn d before).refer base).2.Reads (addBase (r.declaredHead d).1 (r.basedOn d before) base) :=
    Reads.edit (.refl _) _ _ (fun _ => rfl) (fun _ => rfl) (fun _ => rfl)
  have hall : r.basedOn d (before ++ base :: after) =
      after.foldl (addBase (r.declaredHead d).1) (addBase (r.declaredHead d).1 (r.basedOn d before) base) := by
    rw [basedOn, List.foldl_append, List.foldl_cons]
    rfl
  rw [hall]
  exact hbase.trans (Adds.foldl (adds_addBase (Nat.zero_le _)) after _).reads

/-- What is left to do once the bases have been added leaves the catalog. -/
theorem reads_takeTypeBases_of_based (r : Reader) (d : TypeDef) :
    (r.basedOn d (r.declaredHead d).2.baseNames.1).Reads (r.takeTypeBases d).2 := by
  have heq : r.takeTypeBases d =
      let based := r.basedOn d (r.declaredHead d).2.baseNames.1
      if based.cursor.sees '{' then (.follows (r.declaredHead d).1, based.advance)
      else (.absent (r.declaredHead d).1, based.skipStatement) := rfl
  rw [heq]
  dsimp only
  split
  · exact (Reads.refl _).advance
  · exact (Reads.refl _).skipStatement

/-- The name of an enum behind its word, and the cursor behind it. -/
def enumName (r : Reader) : Option String × Cursor :=
  (if r.advance.cursor.seesWordOf ["class", "struct"] then r.cursor.advance.advance else r.cursor.advance).takeWord

/-- The name of an enum is read onward. -/
theorem onward_enumName (r : Reader) : r.cursor.Onward r.enumName.2 :=
  (Cursor.onward_ite ((Cursor.onward_advance _).trans (Cursor.onward_advance _)) (Cursor.onward_advance _)).trans
    (Cursor.onward_takeWord _)

/-- An enum goes on reading behind the type it is stored as. -/
theorem reads_takeEnum_of_underlying {r : Reader} {name : String} (h : r.enumName.1 = some name) :
    (r.moveTo r.enumName.2).takeUnderlying.2.Reads r.takeEnum.2 := by
  unfold enumName at h ⊢
  unfold takeEnum
  dsimp only
  generalize (if r.advance.cursor.seesWordOf ["class", "struct"] then r.cursor.advance.advance
    else r.cursor.advance).takeWord = word at h ⊢
  rw [h]
  dsimp only
  split
  · exact ((Reads.refl _).moveTo _).noted _
  · split
    · exact ((Reads.refl _).moveTo _).advance.trans (adds_takeEnumBody _ _ _ _).reads
    · exact (Reads.refl _).moveTo _

/-- A struct or class goes on from its head. -/
theorem reads_takeReflected_of_head {options : ScanOptions} (depth : Nat) (traits : Traits) {r : Reader}
    (h : r.cursor.seesWordOf ["struct", "class"] = true) :
    (takeTypeHeader options (r.cursor.seesWord "class") r).2.Reads (takeReflected options depth traits r).2 := by
  rw [takeReflected_eq, if_pos h]
  dsimp only
  split
  · exact .refl _
  · exact (adds_addTraits _ (Nat.zero_le _) _).reads
  · exact ((((adds_takeReflected_and_takeBody options).2 _ _ _ _ (Nat.zero_le _)).pass _).trans (adds_addTraits _ (Nat.zero_le _) _)).reads

/-- A declaration that is an enum goes on reading behind the enum. -/
theorem reads_takeReflected_of_enum {options : ScanOptions} (depth : Nat) (traits : Traits) {r : Reader}
    (h : r.cursor.seesWordOf ["struct", "class"] = false) (henum : r.cursor.seesWord "enum" = true) :
    r.takeEnum.2.Reads (takeReflected options depth traits r).2 := by
  rw [takeReflected_eq, if_neg (Bool.eq_false_iff.mp h), if_pos henum]
  split
  · exact (adds_addTraits _ (Nat.zero_le _) _).reads
  · exact .refl _

end Reader

end HeaderAtlas
