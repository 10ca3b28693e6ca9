import HeaderAtlas.Proofs.Declaration.Stepwise
import HeaderAtlas.Proofs.Session
import HeaderAtlas.Proofs.TypeText.Reading

/-!
# Reading a type back

The use of a type that was read is spelled by `typeText`, in any settled catalog that the one it was read into has become. Read
back, the spelling gives the same use of the same type exactly if no pointer that does not change is used through a reference
(`takeUse_typeText`): such a pointer is spelled `T*& const`, of which `const` is not read as part of the type.
-/

namespace HeaderAtlas

/-- The second catalog comes from the first by changes and settlements. -/
inductive Catalog.Becomes (c : Catalog) : Catalog → Prop where
  | refl : c.Becomes c
  | change {c' : Catalog} (x : Change) : c.Becomes c' → c.Becomes (x.apply c')
  | settle {c' : Catalog} : c.Becomes c' → c.Becomes c'.settle.2

namespace Catalog

variable {c c' : Catalog}

/-- What a catalog becomes keeps the invariant. -/
theorem Becomes.inv (h : c.Becomes c') (hc : c.Inv) : c'.Inv := by
  induction h with
  | refl => exact hc
  | change x _ ih => exact ih.change x
  | settle _ ih => exact ih.settle

/-- What a catalog becomes has its records. -/
theorem Becomes.has (h : c.Becomes c') (hc : c.Inv) {id : TypeId} (hid : c.Has id) : c'.Has id := by
  induction h with
  | refl => exact hid
  | change x _ ih => exact (extends_change _ x).has ih
  | settle hbecomes ih => exact (hbecomes.inv hc).has_settle ih

/-- Every session has become what it is from the empty catalog. -/
theorem becomes_session (o : Origin) (calls : List Call) : empty.Becomes (session o calls).catalog :=
  session_keeps .refl (fun _ x h => h.change x) (fun _ h => h.settle) o calls

/-! ## Agreement -/

mutual

/-- Two template arguments agree in what a spelling shows: equal integers, or uses of the same type that are both constant or both
not and have the same shape and arguments that agree. -/
def agree (c : Catalog) : TemplateArg → TemplateArg → Bool
  | .int x, .int y => x == y
  | .type { type := s, modifiers := m, templateArgs := as, .. }, .type { type := t, modifiers := n, templateArgs := bs, .. } =>
    m.qualifiers.isConst == n.qualifiers.isConst && m.shape == n.shape && c.same s t && c.agreeArgs as bs
  | _, _ => false

/-- Two lists of template arguments agree in what their spellings show, one by one. -/
def agreeArgs (c : Catalog) : List TemplateArg → List TemplateArg → Bool
  | [], [] => true
  | a :: as, b :: bs => c.agree a b && c.agreeArgs as bs
  | _, _ => false

end

/-- Two uses agree in `const`, shape, type and arguments. -/
theorem agree_type (c : Catalog) (p q : Property) :
    c.agree (.type p) (.type q) =
      (p.modifiers.qualifiers.isConst == q.modifiers.qualifiers.isConst && p.modifiers.shape == q.modifiers.shape &&
        c.same p.type q.type && c.agreeArgs p.templateArgs q.templateArgs) := by
  cases p
  cases q
  rw [agree]

end Catalog

/-- Somewhere in the argument a pointer that does not change is used through a reference. -/
def TemplateArg.mixes (a : TemplateArg) : Bool :=
  a.uses.any fun p => p.modifiers.shape.isReference && p.modifiers.shape.isConstPointer

/-- A shape is read as it is, unless it is a reference to a constant pointer. -/
theorem Shape.read_eq_iff (s : Shape) : s = s.read ↔ (s.isReference && s.isConstPointer) = false := by
  obtain ⟨depth, isReference, isConstPointer⟩ := s
  cases isReference <;> cases isConstPointer <;> simp [Shape.read]

/-- An argument agrees with what is read from its spelling exactly if it does not mix. -/
theorem Catalog.Inv.agree_reread {c : Catalog} (hc : c.Inv) (a : TemplateArg) : c.agree a (c.reread a) = !a.mixes := by
  induction a using TemplateArg.induction with
  | hint value =>
    rw [reread, agree, TemplateArg.mixes, TemplateArg.uses]
    simp
  | htype p ih =>
    have hargs : ∀ args : List TemplateArg, (∀ a ∈ args, c.agree a (c.reread a) = !a.mixes) →
        c.agreeArgs args (args.map c.reread) =
          !(usesOfArgs args).any fun p => p.modifiers.shape.isReference && p.modifiers.shape.isConstPointer := by
      intro args hargs
      induction args with
      | nil => rw [List.map_nil, agreeArgs, usesOfArgs]; rfl
      | cons a args ih =>
        obtain ⟨ha, hargs⟩ := List.forall_mem_cons.mp hargs
        rw [List.map_cons, agreeArgs, ha, ih hargs, usesOfArgs, List.any_append, Bool.not_or, TemplateArg.mixes]
    have htype : c.same p.type (c.canonical p.type) = true := by
      rw [same, hc.canonical_canonical, beq_self_eq_true]
    have hshape : (p.modifiers.shape == p.modifiers.shape.read) = !(p.modifiers.shape.isReference && p.modifiers.shape.isConstPointer) := by
      rw [Bool.eq_iff_iff, beq_iff_eq, Shape.read_eq_iff, Bool.not_eq_true']
    rw [reread_type, agree_type, rereadUse]
    dsimp only [Modifiers.read]
    rw [hargs _ ih, htype, hshape, TemplateArg.mixes, TemplateArg.uses_type, List.any_cons, Bool.not_or, Bool.and_true,
      beq_self_eq_true, Bool.true_and]

/-! ## Uses that were read -/

/-- Every use of a type in an argument has its type among the handles of the argument. -/
theorem TemplateArg.type_mem_handles (a : TemplateArg) : ∀ p ∈ a.uses, p.type ∈ a.handles := by
  induction a using TemplateArg.induction with
  | hint value =>
    intro p hp
    rw [TemplateArg.uses] at hp
    exact absurd hp List.not_mem_nil
  | htype p ih =>
    have hargs : ∀ args : List TemplateArg, (∀ a ∈ args, ∀ p ∈ a.uses, p.type ∈ a.handles) →
        ∀ p ∈ usesOfArgs args, p.type ∈ handlesOfArgs args := by
      intro args hargs q hq
      induction args with
      | nil =>
        rw [usesOfArgs] at hq
        exact absurd hq List.not_mem_nil
      | cons a args ih =>
        obtain ⟨ha, hargs⟩ := List.forall_mem_cons.mp hargs
        rw [usesOfArgs, List.mem_append] at hq
        rw [handlesOfArgs, List.mem_append]
        exact hq.imp (ha q) (ih hargs)
    intro q hq
    rw [TemplateArg.uses_type, List.mem_cons] at hq
    rw [TemplateArg.handles_type, Property.handles]
    rcases hq with rfl | hq
    · exact List.mem_cons_self
    · exact List.mem_cons_of_mem _ (List.mem_append_right _ (hargs _ ih q hq))

/-- A pointer that does not change is a pointer. -/
def Shape.Upright (s : Shape) : Prop := s.isConstPointer = true → 0 < s.pointerDepth

namespace Cursor

/-- What is read behind a type is upright: a pointer is constant only where there is one. -/
theorem upright_takeTypeTail {m : Modifiers} (hm : m.shape = {}) (c : Cursor) : (c.takeTypeTail m).1.shape.Upright := by
  rw [takeTypeTail, hm]
  intro h
  simp only [Bool.false_or, Bool.and_eq_true, decide_eq_true_eq] at h
  exact h.1

end Cursor

/-- In a type expression that was read, pointers that do not change are pointers. -/
def TypeExpr.Upright (e : TypeExpr) : Prop := e.modifiers.shape.Upright ∧ ∀ a ∈ e.templateArgs, a.Upright

namespace Reader

/-- A type expression that was read and used under a name. -/
def takeUse (context : Option TypeId) (name : String) (r : Reader) : Property × Reader :=
  let e := takeType context r
  e.2.use e.1 name

/-- The use of a type has the modifiers and the arguments of its type expression. -/
theorem modifiers_use (r : Reader) (e : TypeExpr) (name : String) :
    (r.use e name).1.modifiers = e.modifiers ∧ (r.use e name).1.templateArgs = e.templateArgs := by
  unfold use
  split <;> exact ⟨rfl, rfl⟩

/-- The use of an upright type is upright. -/
theorem upright_use {e : TypeExpr} (h : e.Upright) (r : Reader) (name : String) : (TemplateArg.type (r.use e name).1).Upright := by
  obtain ⟨hmodifiers, htemplateArgs⟩ := modifiers_use r e name
  have hargs : ∀ args : List TemplateArg, (∀ a ∈ args, a.Upright) → ∀ p ∈ usesOfArgs args, p.modifiers.shape.Upright := by
    intro args hargs p hp
    induction args with
    | nil =>
      rw [usesOfArgs] at hp
      exact absurd hp List.not_mem_nil
    | cons a args ih =>
      obtain ⟨ha, hargs⟩ := List.forall_mem_cons.mp hargs
      rw [usesOfArgs, List.mem_append] at hp
      rcases hp with hp | hp
      · exact ha p hp
      · exact ih hargs hp
  intro p hp
  rw [TemplateArg.uses_type, List.mem_cons] at hp
  rcases hp with rfl | hp
  · rw [hmodifiers]
    exact h.1
  · rw [htemplateArgs] at hp
    exact hargs _ h.2 p hp

/-- An argument is upright if type expressions are. -/
theorem upright_argTurn {r : Reader} (htype : (takeType none r).1.Upright) : ∀ a ∈ r.argTurn.1, a.Upright := by
  have hint : ∀ value, (TemplateArg.int value).Upright := by
    intro value p hp
    rw [TemplateArg.uses] at hp
    exact absurd hp List.not_mem_nil
  intro a ha
  unfold argTurn at ha
  split at ha
  · cases ha
  · obtain rfl := Option.mem_some.mp ha
    exact hint _
  · split at ha
    · obtain rfl := Option.mem_some.mp ha
      exact hint _
    · cases ha
  · dsimp only at ha
    split at ha
    · cases ha
    · obtain rfl := Option.mem_some.mp ha
      exact upright_use htype _ ""
  · cases ha

/-- Type expressions are read with pointers that do not change only where there are pointers. -/
theorem upright_takeType (context : Option TypeId) (r : Reader) : (takeType context r).1.Upright := by
  have hhead : ∀ c : Cursor, c.takeTypeHead.1.modifiers.shape.Upright := by
    intro c h
    rw [c.shape_takeTypeHead] at h
    cases h
  have hall := takeType_induction (P := fun _ _ out => out.1.Upright) (Q := fun _ out => ∀ a ∈ out.1, a.Upright)
    ?_ ?_ ?_ ?_ ?_ ?_ ?_
  · exact hall.1 context r
  · exact fun _ r _ => ⟨hhead r.cursor, fun a ha => absurd ha List.not_mem_nil⟩
  · exact fun _ r _ _ _ => ⟨hhead r.cursor, fun a ha => absurd ha List.not_mem_nil⟩
  · exact fun _ r _ _ _ _ hargs => ⟨Cursor.upright_takeTypeTail r.cursor.shape_takeTypeHead _, hargs⟩
  · exact fun _ r _ _ _ _ =>
      ⟨Cursor.upright_takeTypeTail r.cursor.shape_takeTypeHead _, fun a ha => absurd ha List.not_mem_nil⟩
  · exact fun _ _ a ha => absurd ha List.not_mem_nil
  · exact fun _ _ _ a ha => absurd ha List.not_mem_nil
  · intro r _ _ htype hrest a ha
    rcases List.mem_append.mp ha with ha | ha
    · exact upright_argTurn htype a (Option.mem_toList.mp ha)
    · exact hrest a ha

/-- A use that is read holds handles with records. -/
theorem yields_takeUse {r : Reader} (hr : r.catalog.Inv) (context : Option TypeId) (name : String) :
    r.Yields {} (r.takeUse context name).2 (r.takeUse context name).1.handles := by
  have htype := yields_takeType {} hr context
  have huse := yields_use {} (htype.steps.inv hr) htype.has name
  exact ⟨htype.steps.trans huse.steps, huse.has⟩

/-- The use of a type that was read can be read back wherever it can be spelled. -/
theorem readable_takeUse {r : Reader} {context : Option TypeId} {name : String} {c : Catalog} (hr : r.catalog.Inv)
    (hc : (r.takeUse context name).2.catalog.Becomes c) (hp : c.Spellable (.type (r.takeUse context name).1)) :
    c.Inv ∧ Readable c (.type (r.takeUse context name).1) := by
  have huse := yields_takeUse hr context name
  have hinv := huse.steps.inv hr
  refine ⟨hc.inv hinv, hp, upright_use (upright_takeType context r) _ name, ?_⟩
  intro p hmem
  have hhandle := TemplateArg.type_mem_handles _ p hmem
  rw [TemplateArg.handles_type] at hhandle
  exact hc.has hinv (huse.has p.type hhandle)

end Reader

/-- The spelling of an argument stands in front of a cursor over it. -/
theorem Catalog.faces_argText {c : Catalog} {a : TemplateArg} (hspell : c.Spellable a) (hup : a.Upright) :
    (Cursor.ofText (c.argText true a)).Faces (c.argKinds a) [] := by
  obtain ⟨ts, hkinds, hcut⟩ := c.cuts_argText a hspell [] rfl .start
  rw [List.append_nil, tokensFrom_nil, List.append_nil] at hcut
  refine ⟨ts, hkinds, ?_⟩
  have hunfolded : Unfolded (ts.map Token.kind) none := by
    rw [hkinds]
    exact c.unfolded_argKinds a hspell hup
  have hfold : foldCompounds (ts ++ []) = ts ++ foldCompounds [] := foldCompounds_of_unfolded ts hunfolded
  rw [List.append_nil, foldCompounds] at hfold
  change foldCompounds (tokensFrom .start (c.argText true a).toList) = _
  rw [hcut, hfold]

/-- A type that was read reads back from its spelling, up to the end of the text and as the same use of the same type, exactly if it
nowhere uses a pointer that does not change through a reference. Nothing is recorded either way. -/
theorem takeUse_typeText {r : Reader} {context : Option TypeId} {name : String} {later : Recorder}
    (hr : Catalog.empty.Becomes r.catalog) (hlater : (r.takeUse context name).2.catalog.Becomes later.catalog)
    (hsettled : later.catalog.Settled) (hp : later.catalog.Spellable (.type (r.takeUse context name).1)) (name' : String) :
    let p := (r.takeUse context name).1
    let back := ({ later with cursor := .ofText (later.catalog.typeText true p) } : Reader).takeUse none name'
    back.2.catalog = later.catalog ∧
      (back.2.cursor.atEnd = true ∧ later.catalog.agree (.type p) (.type back.1) = true ↔ (TemplateArg.type p).mixes = false) := by
  obtain ⟨hc, hread⟩ := Reader.readable_takeUse (hr.inv Catalog.inv_empty) hlater hp
  intro p back
  have hmem : p ∈ (TemplateArg.type p).uses := by rw [TemplateArg.uses_type]; exact List.mem_cons_self
  let start : Reader := { later with cursor := .ofText (later.catalog.typeText true p) }
  have hfaces : start.cursor.Faces (later.catalog.argKinds (.type p)) [] := Catalog.faces_argText hread.spellable hread.upright
  have hargs := Reader.readsArgs_of_readable hc hsettled (.type p) hread p rfl
  have heof : Token.Kind.eof.EndsType := by decide
  obtain ⟨hexpr, ts, hleaves, hleft⟩ :=
    Reader.takeType_faces rfl (hread.spellable.1 p hmem) (hread.upright p hmem) hargs hfaces heof
  obtain ⟨huse, hused⟩ := Reader.use_rereadExpr hc hsettled hleaves.catalog_eq (hread.has p hmem) name'
  have hback : back = (Reader.takeType none start).2.use (later.catalog.rereadExpr p) name' :=
    congrArg (fun e => (Reader.takeType none start).2.use e name') hexpr
  have hall := hleaves.trans hused
  have hagree : later.catalog.agree (.type p) (.type back.1) = !(TemplateArg.type p).mixes := by
    rw [← hc.agree_reread, Catalog.reread_type, hback, huse, Catalog.agree_type, Catalog.agree_type]
    rfl
  have hend : back.2.cursor.atEnd = p.modifiers.shape.unreadKinds.isEmpty := by
    obtain ⟨us, hkinds, hunread⟩ := hleft
    rw [hback, hall.cursor_eq, hleaves.cursor_eq, ← hkinds, List.isEmpty_map]
    rw [List.append_nil] at hunread
    exact congrArg List.isEmpty hunread
  refine ⟨by rw [hback]; exact hall.catalog_eq, ?_⟩
  rw [hagree, Bool.not_eq_true', hend, and_iff_right_iff_imp]
  intro hmixes
  -- what is left unread of the whole is left at its outermost level
  rw [TemplateArg.mixes, List.any_eq_false] at hmixes
  rw [Shape.unreadKinds, if_neg (hmixes p hmem)]
  rfl

/-- A reader in front of a type with arguments in arguments: a pointer that does not change, a negative integer and types that are
not declared are among them. -/
def nestedType : Reader :=
  { session .empty [.scan {} "REFLECTED() struct Foo { };"] with
    cursor := .ofText "const std::map<Foo* const, std::array<const Bar&, -3>>*" }

theorem takeUse_typeText_nestedType :
    let p := (nestedType.takeUse none "x").1
    let later : Recorder := { catalog := (nestedType.takeUse none "x").2.catalog.settle.2 }
    let back := ({ later with cursor := .ofText (later.catalog.typeText true p) } : Reader).takeUse none "y"
    later.catalog.Spellable (.type p) ∧ back.2.cursor.atEnd = true ∧ later.catalog.agree (.type p) (.type back.1) = true := by
  intro p later back
  have hr : Catalog.empty.Becomes nestedType.catalog := Catalog.becomes_session .empty _
  have hsettled : later.catalog.Settled :=
    ((Reader.yields_takeUse (hr.inv Catalog.inv_empty) none "x").steps.inv (hr.inv Catalog.inv_empty)).settled_settle
  have hnames : ∀ name ∈ ["std::map", "Foo", "std::array", "Bar"], IsTypeName name := by
    simp only [List.forall_mem_cons]
    exact ⟨⟨"std", ["map"], by decide, by decide, by decide⟩, ⟨"Foo", [], by decide, by decide, by decide⟩,
      ⟨"std", ["array"], by decide, by decide, by decide⟩, ⟨"Bar", [], by decide, by decide, by decide⟩,
      fun _ h => absurd h List.not_mem_nil⟩
  have hspell : (nestedType.takeUse none "x").2.catalog.settle.2.Spellable (.type (nestedType.takeUse none "x").1) :=
    .of_names (by decide +kernel) hnames (by decide +kernel)
  have hback := takeUse_typeText hr (.settle .refl) hsettled hspell "y"
  exact ⟨hspell, hback.2.mpr (by decide +kernel)⟩

/-- A reader in front of a reference to a pointer that does not change. -/
def pointerReference : Reader := { session .empty [] with cursor := .ofText "int* const&" }

/-- A reference to a pointer that does not change is not spelled as it is written, and does not read back: `const` is left. -/
theorem typeText_pointerReference :
    let p := (pointerReference.takeUse none "x").1
    let later : Recorder := { catalog := (pointerReference.takeUse none "x").2.catalog.settle.2 }
    let back := ({ later with cursor := .ofText (later.catalog.typeText true p) } : Reader).takeUse none "y"
    later.catalog.Spellable (.type p) ∧ later.catalog.typeText true p = "int*& const" ∧ back.2.cursor.seesWord "const" = true ∧
      p.modifiers.shape = ⟨1, true, true⟩ ∧ back.1.modifiers.shape = ⟨1, true, false⟩ := by
  have hnames : ∀ name ∈ ["int"], IsTypeName name := by
    simp only [List.forall_mem_cons]
    exact ⟨⟨"int", [], by decide, by decide, by decide⟩, fun _ h => absurd h List.not_mem_nil⟩
  have hspell : (pointerReference.takeUse none "x").2.catalog.settle.2.Spellable (.type (pointerReference.takeUse none "x").1) :=
    .of_names (by decide +kernel) hnames (by decide +kernel)
  exact ⟨hspell, by decide +kernel⟩

end HeaderAtlas
