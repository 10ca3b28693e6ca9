import HeaderAtlas.Proofs.Declaration.Mention

/-!
# The names in a header

`Reader.Writes` says which names stand in what is read, with the handle each of them got. It goes from one piece of reading (`Job`)
to the pieces that it consists of (`Part`), down to those that name a type themselves (`Names`). A part is begun with a catalog
that has only grown (`Part.reads`) and is followed by reading that only grows it (`Part.rest`), so every name is bound when all
is read: `Writes.bound`.
-/

namespace HeaderAtlas

open Catalog (Grows)

namespace Reader

/-! ## Pieces of reading -/

/-- A piece of reading in which types are named. -/
inductive Job where
  | header
  | reflected (depth : Nat) (traits : Traits)
  | bases (name : String) (isClass : Bool) (apiWord : Option String)
  | underlying
  | body (owner : TypeId) (depth : Nat) (visibility : Visibility)
  | fake (id : TypeId)
  | described (owner : TypeId) (isVirtual : Bool)
  | member (scope : Scope)
  | parameters
  | type (context : Option TypeId)
  | templateArgs

/-- The reader behind a piece of reading. -/
def Job.run (options : ScanOptions) : Job → Reader → Reader
  | header, r => takeHeader options r
  | reflected depth traits, r => (takeReflected options depth traits r).2
  | bases name isClass apiWord, r => (r.takeTypeBases (headRecord name isClass apiWord)).2
  | underlying, r => r.takeUnderlying.2
  | body owner depth visibility, r => takeBody options owner depth visibility r
  | fake id, r => takeFakeBody id r
  | described owner isVirtual, r => r.takeDescribed owner isVirtual
  | member scope, r => takeMember options scope r
  | parameters, r => (takeParameters r).2
  | type context, r => (takeType context r).2
  | templateArgs, r => (takeTemplateArgs r).2

/-- A piece of reading only grows the catalog. -/
theorem Job.reads_run (options : ScanOptions) (j : Job) (r : Reader) : r.Reads (j.run options r) := by
  cases j with
  | header => exact (adds_takeHeader options r).reads
  | reflected depth traits => exact ((adds_takeReflected_and_takeBody options).1 depth traits r).reads
  | bases name isClass apiWord => exact (adds_takeTypeBases r _ rfl rfl).reads
  | underlying => exact (adds_takeUnderlying r).reads
  | body owner depth visibility => exact ((adds_takeReflected_and_takeBody options).2 owner depth visibility r (Nat.zero_le _)).reads
  | fake id => exact (adds_takeFakeBody (Nat.zero_le _) r).reads
  | described owner isVirtual => exact (adds_takeDescribed r (Nat.zero_le _) isVirtual).reads
  | member scope => exact (adds_takeMember options scope.beyond_zero r).reads
  | parameters => exact (adds_takeParameters r).reads
  | type context => exact (adds_takeType context r).reads
  | templateArgs => exact (adds_takeType_and_takeTemplateArgs.2 r).reads

/-- The first piece of reading, done by the first reader, has the second as a part of it, done by the second reader. -/
inductive Part (options : ScanOptions) : Job → Reader → Job → Reader → Prop where
  | header_turn {r : Reader} (hend : r.cursor.atEnd = false) : Part options .header r .header (r.headerTurn options)
  | header_reflected {r : Reader} (hend : r.cursor.atEnd = false) (hmarker : r.cursor.seesMarker .reflected = true) :
    Part options .header r (.reflected 0 r.cursor.advance.takeTraits.1) (r.moveTo r.cursor.advance.takeTraits.2)
  | header_member {r : Reader} (hend : r.cursor.atEnd = false)
    (hmarker : (r.cursor.seesMarker .command || r.cursor.seesMarker .global) = true) :
    Part options .header r (.member .top) r
  | header_fake {r : Reader} {name : String} {id : TypeId × Reader} (hend : r.cursor.atEnd = false)
    (hmarker : r.cursor.seesMarker .fake = true) (hname : r.cursor.advance.takeTraits.1.filled? "name" = some name)
    (hid : (r.moveTo r.cursor.advance.takeTraits.2).declare { name, traits := r.cursor.advance.takeTraits.1 } = id) :
    Part options .header r (.fake id.1) id.2
  | reflected_bases {depth : Nat} {traits : Traits} {r : Reader} {name : String} {apiWord : Option String} {c : Cursor}
    (hword : r.cursor.seesWordOf ["struct", "class"] = true) (hhead : r.typeHead options = (some name, apiWord, c))
    (hbody : c.sees ';' = false) :
    Part options (.reflected depth traits) r (.bases name (r.cursor.seesWord "class") apiWord) (r.moveTo c)
  | reflected_body {depth : Nat} {traits : Traits} {r : Reader} {id : TypeId}
    (hword : r.cursor.seesWordOf ["struct", "class"] = true)
    (hhead : (takeTypeHeader options (r.cursor.seesWord "class") r).1 = .follows id) :
    Part options (.reflected depth traits) r
      (.body id (depth + 1) (if r.cursor.seesWord "class" then .privateAccess else .publicAccess))
      (takeTypeHeader options (r.cursor.seesWord "class") r).2
  | reflected_underlying {depth : Nat} {traits : Traits} {r : Reader} {name : String}
    (hword : r.cursor.seesWordOf ["struct", "class"] = false) (henum : r.cursor.seesWord "enum" = true)
    (hname : r.enumName.1 = some name) :
    Part options (.reflected depth traits) r .underlying (r.moveTo r.enumName.2)
  | underlying_type {r : Reader} (hcolon : r.cursor.sees ':' = true) : Part options .underlying r (.type none) r.advance
  | body_turn {owner : TypeId} {depth : Nat} {visibility : Visibility} {r : Reader} (hend : r.cursor.atEnd = false)
    (hclose : r.cursor.sees '}' = false) :
    Part options (.body owner depth visibility) r (.body owner depth (bodyTurn options owner depth visibility r).1)
      (bodyTurn options owner depth visibility r).2
  | body_reflected {owner : TypeId} {depth : Nat} {visibility : Visibility} {r : Reader} (hend : r.cursor.atEnd = false)
    (hitem : bodyItem r.cursor = .type) :
    Part options (.body owner depth visibility) r (.reflected depth r.cursor.advance.takeTraits.1)
      (r.moveTo r.cursor.advance.takeTraits.2)
  | body_described {owner : TypeId} {depth : Nat} {visibility : Visibility} {r : Reader} (hend : r.cursor.atEnd = false)
    (hitem : bodyItem r.cursor = .describedProperty) :
    Part options (.body owner depth visibility) r (.described owner true) r.advance
  | body_member {owner : TypeId} {depth : Nat} {visibility : Visibility} {r : Reader} (hend : r.cursor.atEnd = false)
    (hitem : bodyItem r.cursor = .member) (hvisible : visibility = .publicAccess ∨ options.includePrivate = true) :
    Part options (.body owner depth visibility) r (.member ⟨some owner, visibility, depth⟩) r
  | fake_turn {id : TypeId} {r : Reader} (hend : r.cursor.atEnd = false)
    (hmarker : (r.cursor.seesMarker .property || r.cursor.seesMarker .virtualProperty) = true) :
    Part options (.fake id) r (.fake id) (r.fakeTurn id)
  | fake_described {id : TypeId} {r : Reader} (hend : r.cursor.atEnd = false)
    (hmarker : (r.cursor.seesMarker .property || r.cursor.seesMarker .virtualProperty) = true) :
    Part options (.fake id) r (.described id (r.cursor.seesMarker .virtualProperty)) r.advance
  | described_type {owner : TypeId} {isVirtual : Bool} {r : Reader} {text : String}
    (htext : r.cursor.takeTraits.1.filled? "type" = some text) :
    Part options (.described owner isVirtual) r (.type none) (r.moveTo (Cursor.ofText text))
  | member_type {scope : Scope} {r : Reader} (hhidden : r.cursor.seesMarker .hidden = false) :
    Part options (.member scope) r (.type scope.enclosing) (r.beforeMemberType options)
  | member_parameters {scope : Scope} {r r' : Reader} {head : MemberHead} (hbody : r.memberBody? options scope = some (head, r'))
    (hcall : r'.cursor.sees '(' = true) (hannotated : r.isAnnotated = true) :
    Part options (.member scope) r .parameters (r'.use head.type "").2.advance
  | parameters_turn {r : Reader} (hend : (r.cursor.atEnd || r.cursor.sees ';') = false) (hclose : r.cursor.sees ')' = false) :
    Part options .parameters r .parameters r.parameterTurn.2
  | parameters_type {r : Reader} (hend : (r.cursor.atEnd || r.cursor.sees ';') = false) (hclose : r.cursor.sees ')' = false)
    (hvoid : (r.cursor.seesWord "void" && (r.cursor.ahead 1).isMark ')') = false) :
    Part options .parameters r (.type none) r
  | type_templateArgs {context : Option TypeId} {r : Reader} {word : String} (hword : r.cursor.takeTypeHead.1.word = some word)
    (hspecial : r.atSpecial context word r.cursor.takeTypeHead.2 = false)
    (hopen : r.cursor.takeTypeHead.2.takeParts.2.sees '<' = true) :
    Part options (.type context) r .templateArgs (r.moveTo r.cursor.takeTypeHead.2.takeParts.2.advance)
  | templateArgs_turn {r : Reader} (hend : r.cursor.atEnd = false) (hclose : r.cursor.sees '>' = false) :
    Part options .templateArgs r .templateArgs r.argTurn.2
  | templateArgs_type {r : Reader} (hend : r.cursor.atEnd = false) (hitem : r.cursor.peek.kind.argItem = .word) :
    Part options .templateArgs r (.type none) r

/-- A part begins with a catalog that has only grown. -/
theorem Part.reads {options : ScanOptions} {j j' : Job} {r r' : Reader} (h : Part options j r j' r') : r.Reads r' := by
  have hrefl := Reads.refl r
  cases h with
  | header_turn hend => exact reads_headerTurn options r
  | header_reflected hend hmarker => exact hrefl.moveTo _
  | header_member hend hmarker => exact hrefl
  | header_fake hend hmarker hname hid =>
    subst hid
    exact (hrefl.moveTo _).trans (adds_declare _ _ rfl rfl).reads
  | reflected_bases hword hhead hbody => exact hrefl.moveTo _
  | reflected_body hword hhead => exact (adds_takeTypeHeader options _ r).reads
  | reflected_underlying hword henum hname => exact hrefl.moveTo _
  | underlying_type hcolon => exact hrefl.advance
  | body_turn hend hclose => exact reads_bodyTurn options _ _ _ r
  | body_reflected hend hitem => exact hrefl.moveTo _
  | body_described hend hitem => exact hrefl.advance
  | body_member hend hitem hvisible => exact hrefl
  | fake_turn hend hmarker => exact hrefl.advance.trans (adds_takeDescribed _ (Nat.zero_le _) _).reads
  | fake_described hend hmarker => exact hrefl.advance
  | described_type htext => exact hrefl.moveTo _
  | member_type hhidden => exact reads_beforeMemberType options r
  | member_parameters hbody hcall hannotated =>
    exact ((((reads_beforeMemberType options r).trans (adds_takeType _ _).reads).trans (reads_memberBody hbody)).trans
      (adds_use _ _ _).reads).advance
  | parameters_turn hend hclose => exact reads_parameterTurn r
  | parameters_type hend hclose hvoid => exact hrefl
  | type_templateArgs hword hspecial hopen => exact hrefl.moveTo _
  | templateArgs_turn hend hclose => exact reads_argTurn r
  | templateArgs_type hend hitem => exact hrefl

/-- A part is read from the text of the whole or from a text of its own. -/
theorem Part.plain {options : ScanOptions} {j j' : Job} {r r' : Reader} (h : Part options j r j' r') (hr : r.cursor.Plain) :
    r'.cursor.Plain := by
  have hrefl := Onward.refl r
  cases h with
  | header_turn hend => exact hr.onward (onward_headerTurn options r)
  | header_reflected hend hmarker => exact hr.onward ((Cursor.onward_advance _).trans (Cursor.onward_takeTraits _))
  | header_member hend hmarker => exact hr
  | header_fake hend hmarker hname hid =>
    subst hid
    exact hr.onward ((Cursor.onward_advance _).trans (Cursor.onward_takeTraits _))
  | reflected_bases hword hhead hbody =>
    obtain ⟨-, hrest⟩ := Prod.mk.inj hhead
    obtain ⟨-, rfl⟩ := Prod.mk.inj hrest
    exact hr.onward (((Cursor.onward_advance _).trans (Cursor.onward_takeApiWord _ _)).trans (Cursor.onward_takeWord _))
  | reflected_body hword hhead => exact hr.onward (onward_takeTypeHeader options _ r)
  | reflected_underlying hword henum hname => exact hr.onward (onward_enumName r)
  | underlying_type hcolon => exact hr.onward hrefl.advance
  | body_turn hend hclose => exact hr.onward (onward_bodyTurn options _ _ _ r)
  | body_reflected hend hitem => exact hr.onward ((Cursor.onward_advance _).trans (Cursor.onward_takeTraits _))
  | body_described hend hitem => exact hr.onward hrefl.advance
  | body_member hend hitem hvisible => exact hr
  | fake_turn hend hmarker => exact hr.onward (hrefl.advance.trans (onward_takeDescribed _ _ _))
  | fake_described hend hmarker => exact hr.onward hrefl.advance
  | described_type htext => exact Cursor.plain_ofText _
  | member_type hhidden => exact hr.onward (r.onward_beforeMemberType options)
  | member_parameters hbody hcall hannotated =>
    exact hr.onward ((onward_memberBody hbody).trans (onward_use _ _ _)).advance
  | parameters_turn hend hclose => exact hr.onward (onward_parameterTurn r)
  | parameters_type hend hclose hvoid => exact hr
  | type_templateArgs hword hspecial hopen =>
    exact hr.onward (((Cursor.onward_takeTypeHead _).trans (Cursor.onward_takeParts _)).trans (Cursor.onward_advance _))
  | templateArgs_turn hend hclose => exact hr.onward (onward_argTurn r)
  | templateArgs_type hend hitem => exact hr

/-! ### What follows a turn -/

/-- Before its end a header goes on behind its turn. -/
theorem takeHeader_turn {options : ScanOptions} {r : Reader} (hend : r.cursor.atEnd = false) :
    takeHeader options r = takeHeader options (r.headerTurn options) := by
  rw [takeHeader_eq, if_neg (Bool.eq_false_iff.mp hend)]

/-- A body that is not closed goes on behind its turn. -/
theorem takeBody_turn {options : ScanOptions} {owner : TypeId} {depth : Nat} {visibility : Visibility} {r : Reader}
    (hend : r.cursor.atEnd = false) (hclose : r.cursor.sees '}' = false) :
    takeBody options owner depth visibility r =
      takeBody options owner depth (bodyTurn options owner depth visibility r).1
        (bodyTurn options owner depth visibility r).2 := by
  rw [takeBody_eq, if_neg (Bool.eq_false_iff.mp hend), if_neg (Bool.eq_false_iff.mp hclose)]

/-- The body of a fake type goes on behind a property. -/
theorem takeFakeBody_turn {id : TypeId} {r : Reader} (hend : r.cursor.atEnd = false)
    (hmarker : (r.cursor.seesMarker .property || r.cursor.seesMarker .virtualProperty) = true) :
    takeFakeBody id r = takeFakeBody id (r.fakeTurn id) := by
  rw [takeFakeBody_eq, if_neg (Bool.eq_false_iff.mp hend), if_pos hmarker]

/-- Parameters that are not closed go on behind their turn. -/
theorem takeParameters_turn {r : Reader} (hend : (r.cursor.atEnd || r.cursor.sees ';') = false)
    (hclose : r.cursor.sees ')' = false) : (takeParameters r).2 = (takeParameters r.parameterTurn.2).2 := by
  rw [takeParameters_eq, if_neg (Bool.eq_false_iff.mp hend), if_neg (Bool.eq_false_iff.mp hclose)]

/-- Template arguments that are not closed go on behind their turn. -/
theorem takeTemplateArgs_turn {r : Reader} (hend : r.cursor.atEnd = false) (hclose : r.cursor.sees '>' = false) :
    (takeTemplateArgs r).2 = (takeTemplateArgs r.argTurn.2).2 := by
  rw [takeTemplateArgs_eq, if_neg (Bool.eq_false_iff.mp hend), if_neg (Bool.eq_false_iff.mp hclose)]

/-- What is done in a turn of the body of a type is followed by the rest of the body. -/
theorem reads_takeBody_of_turn {options : ScanOptions} {owner : TypeId} {depth : Nat} {visibility : Visibility}
    {r r' : Reader} (hend : r.cursor.atEnd = false) (hitem : bodyItem r.cursor ≠ .close)
    (h : r'.Reads (bodyTurn options owner depth visibility r).2) : r'.Reads (takeBody options owner depth visibility r) := by
  rw [takeBody_turn hend (Bool.eq_false_iff.mpr fun hclose => hitem ((bodyItem_close_iff _).mpr hclose))]
  exact h.trans ((adds_takeReflected_and_takeBody options).2 _ _ _ _ (Nat.zero_le _)).reads

/-- What is done in a turn of a header is followed by the rest of the header. -/
theorem reads_takeHeader_of_turn {options : ScanOptions} {r r' : Reader} (hend : r.cursor.atEnd = false)
    (h : r'.Reads (r.headerTurn options)) : r'.Reads (takeHeader options r) := by
  rw [takeHeader_turn hend]
  exact h.trans (adds_takeHeader options _).reads

/-- Behind the type of a member the rest of the member follows. -/
theorem reads_takeMember_of_type {options : ScanOptions} {scope : Scope} {r : Reader}
    (hhidden : r.cursor.seesMarker .hidden = false) :
    ((r.beforeMemberType options).takeType scope.enclosing).2.Reads (takeMember options scope r) := by
  rcases takeMember_cases options scope r with ⟨-, h⟩ | ⟨event, h⟩ | ⟨-, location, isAnnotated, head, h⟩
  · exact absurd h (Bool.eq_false_iff.mp hhidden)
  · rw [h]
    exact ((Reads.refl _).noted event).skipStatement
  · rw [h]
    exact (adds_takeNamedMember options scope.beyond_zero _ location isAnnotated head).reads

/-- Behind a described property only the property is recorded. -/
theorem reads_takeDescribed_of_property (r : Reader) (owner : TypeId) (isVirtual : Bool) :
    ((r.moveTo r.cursor.takeTraits.2).describedProperty r.cursor.takeTraits.1 isVirtual).2.Reads
      (r.takeDescribed owner isVirtual) := by
  unfold takeDescribed
  dsimp only
  split
  · refine Reads.pass ?_ _
    exact Reads.edit (.refl _) _ _ (fun _ => rfl) (fun _ => rfl) (fun _ => rfl)
  · exact (Reads.refl _).pass _

/-- Behind the type of a described property the rest of the property follows. -/
theorem reads_takeDescribed_of_type {owner : TypeId} {isVirtual : Bool} {r : Reader} {text : String}
    (htext : r.cursor.takeTraits.1.filled? "type" = some text) :
    ((r.moveTo (Cursor.ofText text)).takeType none).2.Reads (r.takeDescribed owner isVirtual) := by
  refine Reads.trans ?_ (reads_takeDescribed_of_property r owner isVirtual)
  rw [describedProperty, htext]
  dsimp only
  split
  · exact ((Reads.refl _).moveTo _).noted _
  · exact ((Reads.refl _).moveTo _).trans (adds_use _ _ _).reads

/-- Behind the type that an enum is stored as nothing is recorded but its placeholder. -/
theorem reads_takeUnderlying_of_type {r : Reader} (hcolon : r.cursor.sees ':' = true) :
    (takeType none r.advance).2.Reads r.takeUnderlying.2 := by
  rw [takeUnderlying, if_pos hcolon]
  dsimp only
  split
  · exact .refl _
  · exact (adds_use _ _ _).reads

/-- An argument goes on reading behind its type. -/
theorem reads_argTurn_of_type {r : Reader} (hitem : r.cursor.peek.kind.argItem = .word) :
    (takeType none r).2.Reads r.argTurn.2 := by
  rw [argTurn, hitem]
  dsimp only
  split
  · exact .of_eq (catalog_resume _ _)
  · exact (adds_use _ _ _).reads

/-- A parameter goes on reading behind its type. -/
theorem reads_parameterTurn_of_type {r : Reader}
    (hvoid : (r.cursor.seesWord "void" && (r.cursor.ahead 1).isMark ')') = false) :
    (takeType none r).2.Reads r.parameterTurn.2 := by
  have hparameter : (takeType none r).2.Reads r.takeParameter.2 := by
    unfold takeParameter
    dsimp only
    split
    · exact .refl _
    · exact (((Reads.refl _).moveTo _).trans (adds_use _ _ _).reads).moveTo _
  rw [parameterTurn, if_neg (Bool.eq_false_iff.mp hvoid)]
  exact (hparameter.moveTo _).trans (.of_eq (catalog_resume _ _))

/-- Behind a part the catalog only grows until the whole has been read. -/
theorem Part.rest {options : ScanOptions} {j j' : Job} {r r' : Reader} (h : Part options j r j' r') :
    (j'.run options r').Reads (j.run options r) := by
  cases h with
  | header_turn hend =>
    rw [Job.run, Job.run, ← takeHeader_turn hend]
    exact .refl _
  | header_reflected hend hmarker =>
    refine reads_takeHeader_of_turn hend ?_
    rw [headerTurn, if_pos hmarker]
    exact .refl _
  | header_member hend hmarker =>
    refine reads_takeHeader_of_turn hend ?_
    have hreflected : r.cursor.seesMarker .reflected = false := by
      rcases Bool.or_eq_true_iff.mp hmarker with h | h
      · exact seesMarker_unique h (by decide)
      · exact seesMarker_unique h (by decide)
    rw [headerTurn, hreflected, if_neg Bool.false_ne_true, if_pos hmarker]
    exact .refl _
  | header_fake hend hmarker hname hid =>
    refine reads_takeHeader_of_turn hend ?_
    subst hid
    have hreflected : r.cursor.seesMarker .reflected = false := seesMarker_unique hmarker (by decide)
    have hcommand : r.cursor.seesMarker .command = false := seesMarker_unique hmarker (by decide)
    have hglobal : r.cursor.seesMarker .global = false := seesMarker_unique hmarker (by decide)
    rw [headerTurn, hreflected, hcommand, hglobal, Bool.or_false, if_neg Bool.false_ne_true, if_neg Bool.false_ne_true,
      if_pos hmarker, takeFake]
    dsimp only [advance, moveTo]
    rw [hname]
    exact .refl _
  | reflected_bases hword hhead hbody =>
    rw [Job.run, Job.run, ← takeTypeHeader_of_name hhead hbody]
    exact reads_takeReflected_of_head _ _ hword
  | reflected_body hword hhead =>
    rw [Job.run, Job.run, takeReflected_eq, if_pos hword]
    dsimp only
    rw [hhead]
    exact ((Reads.refl _).pass _).trans (adds_addTraits _ (Nat.zero_le _) _).reads
  | reflected_underlying hword henum hname =>
    exact (reads_takeEnum_of_underlying hname).trans (reads_takeReflected_of_enum _ _ hword henum)
  | underlying_type hcolon => exact reads_takeUnderlying_of_type hcolon
  | body_turn hend hclose =>
    rw [Job.run, Job.run, ← takeBody_turn hend hclose]
    exact .refl _
  | body_reflected hend hitem =>
    refine reads_takeBody_of_turn hend (by simp [hitem]) ?_
    rw [bodyTurn, hitem]
    dsimp only
    split
    · exact (adds_nest _ (Nat.zero_le _) (Nat.zero_le _)).reads
    · exact .refl _
  | body_described hend hitem =>
    refine reads_takeBody_of_turn hend (by simp [hitem]) ?_
    rw [bodyTurn, hitem]
    exact .refl _
  | body_member hend hitem hvisible =>
    refine reads_takeBody_of_turn hend (by simp [hitem]) ?_
    rw [bodyTurn, hitem]
    dsimp only
    rw [takeVisible, if_pos hvisible]
    exact .refl _
  | fake_turn hend hmarker =>
    rw [Job.run, Job.run, ← takeFakeBody_turn hend hmarker]
    exact .refl _
  | fake_described hend hmarker =>
    rw [Job.run, Job.run, takeFakeBody_turn hend hmarker]
    exact (adds_takeFakeBody (Nat.zero_le _) _).reads
  | described_type htext => exact reads_takeDescribed_of_type htext
  | member_type hhidden => exact reads_takeMember_of_type hhidden
  | member_parameters hbody hcall hannotated =>
    rw [Job.run, Job.run, takeMember_of_body hbody, takeMemberBody, if_pos hcall, if_pos hannotated]
    exact ((Reads.refl _).moveTo _).trans (adds_addMethod (Scope.beyond_zero _) _ _).reads
  | parameters_turn hend hclose =>
    rw [Job.run, Job.run, ← takeParameters_turn hend hclose]
    exact .refl _
  | parameters_type hend hclose hvoid =>
    rw [Job.run, Job.run, takeParameters_turn hend hclose]
    exact (reads_parameterTurn_of_type hvoid).trans (adds_takeParameters _).reads
  | type_templateArgs hword hspecial hopen =>
    rw [Job.run, Job.run, takeType_of_some hword, if_neg (Bool.eq_false_iff.mp hspecial), if_pos hopen]
    exact (Reads.refl _).moveTo _
  | templateArgs_turn hend hclose =>
    rw [Job.run, Job.run, ← takeTemplateArgs_turn hend hclose]
    exact .refl _
  | templateArgs_type hend hitem =>
    have hclose : r.cursor.sees '>' = false := by
      rw [Bool.eq_false_iff, Ne, ← argItem_close_iff, hitem]
      simp
    rw [Job.run, Job.run, takeTemplateArgs_turn hend hclose]
    exact (reads_argTurn_of_type hitem).trans (adds_takeType_and_takeTemplateArgs.2 _).reads

/-! ## The names in what is read -/

/-- A piece of reading names a type itself, not in one of its parts. -/
inductive Names (options : ScanOptions) : Job → Reader → Mention → Prop where
  | base {name : String} {isClass : Bool} {apiWord : Option String} {r : Reader} {before after : List String} {base : String}
    (hsplit : (r.declaredHead (headRecord name isClass apiWord)).2.baseNames.1 = before ++ base :: after) :
    Names options (.bases name isClass apiWord) r
      ⟨base, true, (r.basedOn (headRecord name isClass apiWord) before).catalog,
        ((r.basedOn (headRecord name isClass apiWord) before).refer base).1⟩
  | bits {scope : Scope} {r : Reader} {name : String} {handle : TypeId} (hhidden : r.cursor.seesMarker .hidden = false)
    (hname : r.bitName? = some name) (hread : r.memberBits.1 = some handle) :
    Names options (.member scope) r ⟨name, true, r.catalog, handle⟩
  | member {scope : Scope} {r r' : Reader} {head : MemberHead} {name : String} {handle : TypeId}
    (hname : (r.beforeMemberType options).typeName? scope.enclosing = some name)
    (hbody : r.memberBody? options scope = some (head, r')) (huse : MemberUse scope r.isAnnotated head r' handle) :
    Names options (.member scope) r ⟨name, false, (r.beforeMemberType options).catalog, handle⟩
  | underlying {r : Reader} {name : String} {handle : TypeId} (hname : r.advance.typeName? none = some name)
    (hread : r.takeUnderlying.1 = some handle) :
    Names options .underlying r ⟨name, false, r.catalog, handle⟩
  | described {owner : TypeId} {isVirtual : Bool} {r : Reader} {text name : String} {p : Property}
    (htext : r.cursor.takeTraits.1.filled? "type" = some text)
    (hname : (r.moveTo (Cursor.ofText text)).typeName? none = some name)
    (hread : ((r.moveTo r.cursor.takeTraits.2).describedProperty r.cursor.takeTraits.1 isVirtual).1 = some p) :
    Names options (.described owner isVirtual) r ⟨name, false, r.catalog, p.type⟩
  | parameter {r : Reader} {name : String} {p : Parameter} (hend : (r.cursor.atEnd || r.cursor.sees ';') = false)
    (hclose : r.cursor.sees ')' = false) (hname : r.typeName? none = some name) (hread : r.parameterTurn.1 = some p) :
    Names options .parameters r ⟨name, false, r.catalog, p.property.type⟩
  | templateArg {r : Reader} {name : String} {p : Property} (hend : r.cursor.atEnd = false) (hclose : r.cursor.sees '>' = false)
    (hname : r.typeName? none = some name) (hread : r.argTurn.1 = some (.type p)) :
    Names options .templateArgs r ⟨name, false, r.catalog, p.type⟩

/-- The name stands in what a piece of reading reads. -/
inductive Writes (options : ScanOptions) : Job → Reader → Mention → Prop where
  | here {j : Job} {r : Reader} {m : Mention} (h : Names options j r m) : Writes options j r m
  | part {j j' : Job} {r r' : Reader} {m : Mention} (h : Part options j r j' r') (hw : Writes options j' r' m) :
    Writes options j r m

/-! ### Every name is bound -/

/-- An enum stores a use of its underlying type. -/
theorem uses_underlying {r : Reader} {handle : TypeId} (h : r.takeUnderlying.1 = some handle) :
    Uses (takeType none r.advance).1 (takeType none r.advance).2 r.takeUnderlying.2 handle := by
  unfold takeUnderlying at h ⊢
  dsimp only at h ⊢
  split at h
  · rename_i hcolon
    split at h
    · cases h
    · rename_i hempty
      obtain rfl := Option.some.inj h
      rw [if_pos hcolon, if_neg hempty]
      exact .now "" (.refl _)
  · cases h

/-- A described property is a use of the type in its trait. -/
theorem uses_described {r : Reader} {traits : Traits} {isVirtual : Bool} {text : String} {p : Property}
    (htext : traits.filled? "type" = some text) (h : (r.describedProperty traits isVirtual).1 = some p) :
    Uses ((r.moveTo (Cursor.ofText text)).takeType none).1 ((r.moveTo (Cursor.ofText text)).takeType none).2
      (r.describedProperty traits isVirtual).2 p.type := by
  unfold describedProperty at h ⊢
  dsimp only at h ⊢
  rw [htext] at h ⊢
  dsimp only at h ⊢
  split at h
  · cases h
  · rename_i hempty
    obtain rfl := Option.some.inj h
    rw [if_neg hempty]
    exact ⟨_, _, _, rfl, rfl, (Reads.refl _).moveTo r.cursor, rfl, .refl _⟩

/-- A parameter is a use of its type. -/
theorem uses_takeParameter {r : Reader} {p : Parameter} (h : r.takeParameter.1 = some p) :
    Uses (takeType none r).1 (takeType none r).2 r.takeParameter.2 p.property.type := by
  unfold takeParameter at h ⊢
  dsimp only at h ⊢
  split at h
  · cases h
  · rename_i hempty
    obtain rfl := Option.some.inj h
    rw [if_neg hempty]
    refine ⟨_, _, _, rfl, rfl, (Reads.refl _).moveTo _, ?_, (Reads.refl _).moveTo _⟩
    -- an array is read as a pointer to the same type
    dsimp only
    split <;> rfl

/-- The parameter that a turn of the loop reads is a use of its type. -/
theorem uses_parameter {r : Reader} {p : Parameter} (h : r.parameterTurn.1 = some p) :
    Uses (takeType none r).1 (takeType none r).2 r.parameterTurn.2 p.property.type := by
  unfold parameterTurn at h ⊢
  split at h
  · cases h
  · rename_i hvoid
    rw [if_neg hvoid]
    exact (uses_takeParameter h).of_reads (.refl _) (((Reads.refl _).moveTo _).trans (.of_eq (catalog_resume _ _)))

/-- A type argument is a use of its type. -/
theorem uses_templateArg {r : Reader} {p : Property} (h : r.argTurn.1 = some (.type p)) :
    Uses (takeType none r).1 (takeType none r).2 r.argTurn.2 p.type := by
  unfold argTurn at h ⊢
  cases hitem : r.cursor.peek.kind.argItem with
  | close | int | other =>
    rw [hitem] at h
    cases h
  | minus =>
    simp only [hitem] at h
    split at h <;> cases h
  | word =>
    simp only [hitem] at h ⊢
    split at h
    · cases h
    · rename_i hempty
      obtain ⟨rfl⟩ := TemplateArg.type.inj (Option.some.inj h)
      rw [if_neg hempty]
      exact .now "" (.refl _)

/-- The enum that names the bits of a member is looked up before anything else is. -/
theorem memberBits_of_some {r : Reader} {name : String} {handle : TypeId} (hname : r.bitName? = some name)
    (hread : r.memberBits.1 = some handle) :
    handle = (r.catalog.reference name).1 ∧ r.memberBits.2.catalog = (r.catalog.reference name).2 := by
  unfold bitName? at hname
  unfold memberBits takeBitSource at hread ⊢
  dsimp only at hname hread ⊢
  generalize takeMemberTraits r.cursor = traits at hname hread ⊢
  split at hread
  · rename_i hmarker
    rw [if_pos hmarker]
    split at hread
    · rename_i hopen
      rw [if_pos hopen]
      split at hread
      · rename_i word hword
        obtain rfl : word = name := Option.some.inj (hword.symm.trans hname)
        obtain rfl := Option.some.inj hread
        exact ⟨refer_fst _ _, catalog_refer _ _⟩
      · cases hread
    · cases hread
  · cases hread

/-- A name is bound when the piece of reading that has it is done. -/
theorem Names.bound {options : ScanOptions} {j : Job} {r : Reader} {m : Mention} (h : Names options j r m)
    (hplain : r.cursor.Plain) (hc : r.catalog.Inv) : (j.run options r).catalog.Bound m := by
  cases h with
  | @base name isClass apiWord r before after base hsplit =>
    have hinv := hc.grows (reads_basedOn r name isClass apiWord before)
    have hbound := hinv.bound_reference base
    rw [← refer_fst, ← catalog_refer] at hbound
    have hrest := (reads_basedOn_of_refer r (headRecord name isClass apiWord) before base after).trans
      (hsplit ▸ reads_takeTypeBases_of_based r (headRecord name isClass apiWord))
    exact hbound.grows (hinv.grows (adds_refer _ base).reads) hrest
  | @bits scope r name handle hhidden hname hread =>
    obtain ⟨rfl, hcatalog⟩ := memberBits_of_some hname hread
    have hbound := hc.bound_reference name
    rw [← hcatalog] at hbound
    have hmember : r.memberBits.2.Reads (takeMember options scope r) :=
      ((Reads.refl _).moveTo _).trans ((adds_takeType scope.enclosing (r.beforeMemberType options)).reads.trans
        (reads_takeMember_of_type hhidden))
    refine hbound.grows ?_ hmember
    rw [hcatalog]
    exact hc.grows (Grows.reference name (.placeholder name))
  | member hname hbody huse =>
    refine Uses.bound (hplain.onward (r.onward_beforeMemberType options)) (hc.grows (reads_beforeMemberType options r)) hname ?_
    rw [Job.run, takeMember_of_body hbody, ← (memberBody_spec hbody).1]
    exact huse.uses.of_reads (reads_memberBody hbody) (.refl _)
  | underlying hname hread =>
    exact Uses.bound (r := r.advance) (hplain.onward (Cursor.onward_advance _)) hc hname (uses_underlying hread)
  | @described owner isVirtual r text name p htext hname hread =>
    have huses := uses_described htext hread
    refine Uses.bound (r := r.moveTo (Cursor.ofText text)) (Cursor.plain_ofText text) hc hname
      (huses.of_reads (.refl _) (reads_takeDescribed_of_property r owner isVirtual))
  | parameter hend hclose hname hread =>
    rw [Job.run, takeParameters_turn hend hclose]
    exact Uses.bound hplain hc hname ((uses_parameter hread).of_reads (.refl _) (adds_takeParameters _).reads)
  | templateArg hend hclose hname hread =>
    rw [Job.run, takeTemplateArgs_turn hend hclose]
    exact Uses.bound hplain hc hname
      ((uses_templateArg hread).of_reads (.refl _) (adds_takeType_and_takeTemplateArgs.2 _).reads)

/-- A name that stands in what is read is bound, and stays so until all is read. -/
theorem Writes.bound {options : ScanOptions} {j : Job} {r : Reader} {m : Mention} (h : Writes options j r m)
    (hplain : r.cursor.Plain) (hc : r.catalog.Inv) : (j.run options r).catalog.Bound m := by
  -- along the parts: each is begun with a catalog that has only grown, and followed by one that only grows
  induction h with
  | here h => exact h.bound hplain hc
  | @part j j' r r' m h _ ih =>
    have hc' := hc.grows h.reads
    have hbound := ih (h.plain hplain) hc'
    exact hbound.grows (hc'.grows (j'.reads_run options r')) h.rest

end Reader

end HeaderAtlas
