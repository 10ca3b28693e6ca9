import HeaderAtlas.Proofs.Catalog.Settlement
import HeaderAtlas.Proofs.Declaration.Mention
import HeaderAtlas.Proofs.Member.Reading
import HeaderAtlas.Proofs.TypeText.Grammar

/-!
# Reading a spelled type

In a settled catalog the spelling of a type is read with the types it was spelled for, in their canonical form (`takeType_faces`,
`takeTemplateArgs_faces`). The `const` of a pointer is spelled behind `&`, where it is not read: it is left in front of the reader,
or among template arguments passed over as a type expression without a name (`Shape.read`, `Shape.unreadKinds`).
-/

namespace HeaderAtlas

/-! ## What is read -/

/-- A shape as it is read from its spelling. -/
def Shape.read (s : Shape) : Shape := { s with isConstPointer := s.isConstPointer && !s.isReference }

/-- The tokens of a spelled shape that are not read. -/
def Shape.unreadKinds (s : Shape) : List Token.Kind := if s.isReference && s.isConstPointer then [.word "const"] else []

/-- Modifiers as they are read from their spelling. -/
def Modifiers.read (m : Modifiers) : Modifiers where
  qualifiers := { isConst := m.qualifiers.isConst }
  shape := m.shape.read

namespace Catalog

mutual

/-- A template argument as it is read from its spelling. -/
def reread (c : Catalog) : TemplateArg → TemplateArg
  | .int value => .int value
  | .type { type, modifiers, templateArgs, .. } =>
    .type { name := "", type := c.canonical type, modifiers := modifiers.read, templateArgs := c.rereadArgs templateArgs }

/-- Template arguments as they are read from their spellings. -/
def rereadArgs (c : Catalog) : List TemplateArg → List TemplateArg
  | [] => []
  | a :: rest => c.reread a :: c.rereadArgs rest

end

/-- The use of a type as it is read from its spelling and put under a name. -/
def rereadUse (c : Catalog) (p : Property) (name : String) : Property where
  name := name
  type := c.canonical p.type
  modifiers := p.modifiers.read
  templateArgs := p.templateArgs.map c.reread

/-- The type expression in the spelling of a type. -/
def rereadExpr (c : Catalog) (p : Property) : TypeExpr where
  type := c.lookupWritten (c.name p.type)
  name := c.name p.type
  modifiers := p.modifiers.read
  templateArgs := p.templateArgs.map c.reread

theorem reread_type (c : Catalog) (p : Property) : c.reread (.type p) = .type (c.rereadUse p "") := by
  have hmap : ∀ args, c.rereadArgs args = args.map c.reread := by
    intro args
    induction args with
    | nil => rw [rereadArgs, List.map_nil]
    | cons a args ih => rw [rereadArgs, List.map_cons, ih]
  cases p
  rw [reread, hmap, rereadUse]

/-- In a settled catalog, the name of a type means the record that stands for it, or is the name of its placeholder. -/
theorem Settled.lookupWritten_name {c : Catalog} (hs : c.Settled) (hc : c.Inv) {id : TypeId} (h : c.Has id) :
    c.lookupWritten (c.name id) = some (c.canonical id) ∨
      c.lookupWritten (c.name id) = none ∧ c.placeholders.get? (c.name id) = some (c.canonical id) := by
  by_cases hp : c.IsPlaceholder (c.canonical id)
  · obtain ⟨name, hname⟩ := hp
    have heq : c.name id = name := (hc.placeholder hname).2.1
    rw [heq]
    exact Or.inr ⟨(hs.canonical_placeholder_iff hc hname).mp (hc.canonical_canonical id), hname⟩
  · have hl := hs.lookup_of_declared hc ⟨hc.has_canonical h, rfl, hp⟩
    rw [hc.canonical_canonical] at hl
    exact Or.inl (lookupWritten_of_some hl)

end Catalog

namespace Cursor

variable {c : Cursor} {kinds : List Token.Kind} {rest : List Token}

/-- Tokens behind tokens. -/
theorem Faces.join {kinds' : List Token.Kind} {rest' : List Token} (h : c.Faces kinds rest') (h' : (c.before rest').Faces kinds' rest) :
    c.Faces (kinds ++ kinds') rest := by
  obtain ⟨ts, rfl, hunread⟩ := h
  obtain ⟨us, rfl, hunread'⟩ := h'
  refine ⟨ts ++ us, List.map_append, ?_⟩
  rw [hunread, List.append_assoc, ← hunread']
  rfl

theorem Faces.unread_eq (h : c.Faces [] rest) : c.unread = rest := congrArg Cursor.unread h.eq_before

/-! ## Around the name -/

theorem takeStars_faces (n : Nat) :
    ∀ {c : Cursor}, c.Faces (List.replicate n (.mark '*')) rest → (c.before rest).sees '*' = false →
      c.takeStars = (n, c.before rest) := by
  induction n with
  | zero =>
    intro c h hrest
    rw [← h.eq_before] at hrest ⊢
    rw [takeStars, dif_neg (Bool.eq_false_iff.mp hrest)]
  | succ n ih =>
    intro c h hrest
    obtain ⟨-, -, hnext⟩ := Faces.cons h
    have hsees : c.sees '*' = true := Faces.sees h '*'
    rw [takeStars, dif_pos hsees, ih hnext hrest]
    rfl

/-- The head of a spelled type: `const` or nothing, and the first word of its name. -/
theorem takeTypeHead_faces (m : Modifiers) {first : String} (hfirst : first ∉ typeKeywords)
    (h : c.Faces (leadKinds m ++ .word first :: kinds) rest) :
    ∃ ts, c.takeTypeHead = (⟨{ qualifiers := { isConst := m.qualifiers.isConst } }, false, some first⟩, c.before ts) ∧
      (c.before ts).Faces kinds rest := by
  simp only [typeKeywords, List.mem_append, not_or] at hfirst
  obtain ⟨⟨hqualifier, hkey⟩, htype⟩ := hfirst
  have hvirtual : first ≠ "virtual" := fun h => hqualifier (h ▸ by decide)
  unfold leadKinds at h
  cases hconst : m.qualifiers.isConst with
  | true =>
    rw [hconst] at h
    obtain ⟨-, hlead, hname⟩ := Faces.cons h
    obtain ⟨-, hword, hkinds⟩ := Faces.cons hname
    have hq := (takeQualifiers_const hlead {}).trans (takeQualifiers_of_word hword hqualifier _)
    have hhead := takeTypeHead_of_word hlead (by decide) (by decide) hq (typeWord?_of_kind hword htype)
    exact ⟨_, hhead, hkinds⟩
  | false =>
    rw [hconst] at h
    obtain ⟨-, hword, hkinds⟩ := Faces.cons h
    have hq := takeQualifiers_of_word hword hqualifier {}
    exact ⟨_, takeTypeHead_of_word hword hkey hvirtual hq (typeWord?_of_kind hword htype), hkinds⟩

/-- The first token of a spelled shape is no `const`, and neither begins a part of a name nor arguments. -/
theorem tailKinds_first {s : Shape} (hs : s.isConstPointer = true → 0 < s.pointerDepth) (h : c.Faces (tailKinds s) rest)
    (hend : (c.before rest).peek.kind.EndsType) :
    c.peek.kind ≠ .word "const" ∧ c.peek.kind ≠ .mark ':' ∧ c.peek.kind ≠ .mark '<' := by
  obtain ⟨depth, isReference, isConstPointer⟩ := s
  cases depth with
  | succ n =>
    obtain ⟨-, hkind, -⟩ := Faces.cons h
    rw [hkind]
    decide
  | zero =>
    obtain rfl : isConstPointer = false := Bool.eq_false_iff.mpr fun hp => absurd (hs hp) (Nat.lt_irrefl 0)
    cases isReference with
    | true =>
      obtain ⟨-, hkind, -⟩ := Faces.cons h
      rw [hkind]
      decide
    | false =>
      have heq : c = c.before rest := Faces.eq_before h
      rw [← heq] at hend
      exact ⟨hend.ne (by decide), hend.ne (by decide), hend.ne (by decide)⟩

/-- What stands behind the name of a spelled type and its arguments. -/
theorem takeTypeTail_faces {s : Shape} (isConst : Bool) (hs : s.isConstPointer = true → 0 < s.pointerDepth)
    (h : c.Faces (tailKinds s) rest) (hend : (c.before rest).peek.kind.EndsType) :
    ∃ ts, c.takeTypeTail { qualifiers := { isConst } } = ({ qualifiers := { isConst }, shape := s.read }, c.before ts) ∧
      (c.before ts).Faces s.unreadKinds rest := by
  have hfirst : c.seesWord "const" = false := by
    rw [seesWord_of_kind rfl]
    exact beq_false_of_ne (tailKinds_first hs h hend).1
  have hreference : (c.before rest).sees '&' = false := by
    rw [sees_of_kind rfl]
    exact beq_false_of_ne (hend.ne (by decide))
  obtain ⟨depth, isReference, isConstPointer⟩ := s
  unfold tailKinds at h
  rw [List.append_assoc] at h
  obtain ⟨ts, hstars, hback⟩ := h.append
  have hstars' : (c.before ts).sees '*' = false → c.takeStars = (depth, c.before ts) := takeStars_faces depth hstars
  cases isReference with
  | true =>
    obtain ⟨-, hmark, hafter⟩ := Faces.cons hback
    have hpointer : (decide (0 < depth) && (c.before ts).seesWord "const") = false := by
      rw [seesWord_of_kind hmark, Bool.and_eq_false_iff]
      exact Or.inr rfl
    have hsees : (c.before ts).sees '&' = true := sees_of_kind hmark '&'
    have hpass : (c.before ts).advance.sees '&' = false := by
      cases isConstPointer with
      | true => exact Faces.sees hafter '&'
      | false =>
        have heq : (c.before ts).advance = c.before rest := Faces.eq_before hafter
        rw [heq]
        exact hreference
    refine ⟨(c.before ts).advance.unread, ?_, ?_⟩
    · rw [takeTypeTail_of_stars hfirst (hstars' (sees_of_kind hmark '*')) hpointer hsees, if_neg Bool.false_ne_true, if_pos rfl, pass,
        hpass, if_neg Bool.false_ne_true, Shape.read, Bool.not_true, Bool.and_false]
      rfl
    · exact hafter
  | false =>
    cases isConstPointer with
    | true =>
      obtain ⟨-, hword, hafter⟩ := Faces.cons hback
      have heq : (c.before ts).advance = c.before rest := Faces.eq_before hafter
      have hpointer : (decide (0 < depth) && (c.before ts).seesWord "const") = true := by
        rw [seesWord_of_kind hword, decide_eq_true (hs rfl)]
        rfl
      have hsees : (if true then (c.before ts).advance else c.before ts).sees '&' = false := by
        rw [if_pos rfl, heq, hreference]
      refine ⟨rest, ?_, [], rfl, rfl⟩
      rw [takeTypeTail_of_stars hfirst (hstars' (sees_of_kind hword '*')) hpointer hsees, if_neg Bool.false_ne_true, if_pos rfl, heq,
        Shape.read]
      rfl
    | false =>
      have heq : c.before ts = c.before rest := Faces.eq_before hback
      have hstar : (c.before ts).sees '*' = false := by
        rw [heq, sees_of_kind rfl]
        exact beq_false_of_ne (hend.ne (by decide))
      have hpointer : (decide (0 < depth) && (c.before ts).seesWord "const") = false := by
        rw [heq, seesWord_of_kind rfl, beq_false_of_ne (hend.ne (by decide)), Bool.and_false]
      have hsees : (if false then (c.before ts).advance else c.before ts).sees '&' = false := by
        rw [if_neg Bool.false_ne_true, heq, hreference]
      refine ⟨rest, ?_, [], rfl, rfl⟩
      rw [takeTypeTail_of_stars hfirst (hstars' hstar) hpointer hsees, if_neg Bool.false_ne_true, if_neg Bool.false_ne_true, heq,
        Shape.read]
      rfl

end Cursor

namespace Reader

variable {c : Catalog} {r : Reader} {kinds : List Token.Kind} {rest : List Token}

/-! ## The type -/

/-- The type expression of a spelled type is used for the record that stands for the type, and nothing is recorded. -/
theorem use_rereadExpr (hc : c.Inv) (hs : c.Settled) (hr : r.catalog = c) {p : Property} (hp : c.Has p.type) (name : String) :
    (r.use (c.rereadExpr p) name).1 = c.rereadUse p name ∧ r.Leaves r.cursor.unread (r.use (c.rereadExpr p) name).2 := by
  unfold use Catalog.rereadExpr
  rcases hs.lookupWritten_name hc hp with hfound | ⟨hnone, hplaceholder⟩
  · rw [hfound]
    exact ⟨rfl, rfl, rfl⟩
  · rw [hnone]
    have hsame : r.catalog.placeholder (c.name p.type) = (c.canonical p.type, r.catalog) := by
      rw [hr]
      exact Catalog.placeholder_of_some hplaceholder
    have htype : (r.placeholderFor (c.name p.type)).1 = c.canonical p.type := congrArg Prod.fst hsame
    have hcatalog : (r.placeholderFor (c.name p.type)).2.catalog = r.catalog :=
      (Recorder.catalog_placeholder r.toRecorder _).trans (congrArg Prod.snd hsame)
    refine ⟨?_, hcatalog, rfl⟩
    dsimp only
    rw [htype]
    rfl

theorem isPlain_of_isIdentifier {name : String} (h : isIdentifier name = true) : IsPlain name := by
  unfold isIdentifier at h
  unfold IsPlain
  split at h
  · cases h
  · rename_i hcs
    obtain ⟨hstart, hall⟩ := Bool.and_eq_true_iff.mp h
    rw [hcs]
    exact List.forall_mem_cons.mpr ⟨isWordChar_of_isWordStart hstart, List.all_eq_true.mp hall⟩

/-- Arguments that are spelled between angle brackets read as `reread` has it. -/
def ReadsArgs (c : Catalog) (args : List TemplateArg) : Prop :=
  ∀ (r : Reader) (rest : List Token), r.catalog = c →
    r.cursor.Faces ([Token.Kind.mark ','].intercalate (args.map c.argKinds) ++ [.mark '>']) rest →
      (takeTemplateArgs r).1 = args.map c.reread ∧ r.Leaves rest (takeTemplateArgs r).2

/-- A name without `~` that is no constructor's, with the arguments and the shape behind it. -/
theorem takeType_of_parts {m : Modifiers} {first : String} {parts : List String} {named behind : Cursor}
    (hhead : r.cursor.takeTypeHead = (⟨m, false, some first⟩, named)) (hparts : named.takeParts = (parts, behind))
    (hplain : ∀ word ∈ first :: parts, IsPlain word) :
    let name := qualifiedName first parts
    let type := r.catalog.lookupWritten name
    takeType none r =
      if behind.sees '<' then
        let args := takeTemplateArgs (r.moveTo behind.advance)
        let tail := args.2.cursor.takeTypeTail m
        ({ type, name, modifiers := tail.1, templateArgs := args.1 }, args.2.moveTo tail.2)
      else
        let tail := behind.takeTypeTail m
        ({ type, name, modifiers := tail.1 }, r.moveTo tail.2) := by
  intro name type
  obtain ⟨hfirst, hplain⟩ := List.forall_mem_cons.mp hplain
  have hnamed : TypeHead.named ⟨m, false, some first⟩ r.catalog first parts = { type, name, modifiers := m } := by
    rw [TypeHead.named, if_neg Bool.false_ne_true, foldl_addPart, foldl_addPart_snd _ hfirst hplain]
  have hword : r.cursor.takeTypeHead.1.word = some first := by rw [hhead]
  rw [takeType_of_some hword, hhead]
  dsimp only
  rw [hparts, hnamed]
  rfl

/-- A spelled type is read up to the token that ends it, but for a `const` behind a reference. -/
theorem takeType_faces {p : Property} (hr : r.catalog = c) (hname : IsTypeName (c.name p.type))
    (hpointer : p.modifiers.shape.isConstPointer = true → 0 < p.modifiers.shape.pointerDepth) (hargs : ReadsArgs c p.templateArgs)
    (h : r.cursor.Faces (c.argKinds (.type p)) rest) (hend : (r.cursor.before rest).peek.kind.EndsType) :
    (takeType none r).1 = c.rereadExpr p ∧
      ∃ ts, r.Leaves ts (takeType none r).2 ∧ (r.cursor.before ts).Faces p.modifiers.shape.unreadKinds rest := by
  obtain ⟨first, parts, hqualified, hfirst, hwords⟩ := hname
  have hplain : ∀ word ∈ first :: parts, IsPlain word := fun word hmem => isPlain_of_isIdentifier (hwords word hmem).identifier
  rw [Catalog.argKinds_type, hqualified, nameKinds_qualifiedName hwords] at h
  simp only [List.append_assoc, List.cons_append] at h
  obtain ⟨ts, hhead, hback⟩ := Cursor.takeTypeHead_faces p.modifiers hfirst h
  obtain ⟨ts', hparts, hback⟩ := hback.append
  have hbehind := Cursor.takeParts_faces parts _ hparts
  unfold bracketKinds at hback
  cases hempty : p.templateArgs with
  | nil =>
    rw [hempty] at hback
    obtain ⟨-, hcolon, hopen⟩ := Cursor.tailKinds_first hpointer hback hend
    have hangle : ((r.cursor.before ts).before ts').sees '<' = false := beq_false_of_ne hopen
    obtain ⟨us, htail, hleft⟩ := Cursor.takeTypeTail_faces p.modifiers.qualifiers.isConst hpointer hback hend
    rw [takeType_of_parts hhead (hbehind (beq_false_of_ne hcolon)) hplain, if_neg (ne_true_of_eq_false hangle)]
    dsimp only
    rw [htail, Catalog.rereadExpr, hempty, hr, hqualified]
    exact ⟨rfl, us, ⟨rfl, rfl⟩, hleft⟩
  | cons a args =>
    rw [hempty] at hback hargs
    obtain ⟨-, hopen, hback⟩ := Cursor.Faces.cons hback
    obtain ⟨us, hinner, hback⟩ := Cursor.Faces.append hback
    have hcolon : ((r.cursor.before ts).before ts').sees ':' = false := Cursor.sees_of_kind hopen ':'
    have hangle : ((r.cursor.before ts).before ts').sees '<' = true := Cursor.sees_of_kind hopen '<'
    obtain ⟨vs, htail, hleft⟩ := Cursor.takeTypeTail_faces p.modifiers.qualifiers.isConst hpointer hback hend
    obtain ⟨hread, hleaves⟩ := hargs (r.moveTo ((r.cursor.before ts).before ts').advance) us hr hinner
    rw [takeType_of_parts hhead (hbehind hcolon) hplain, if_pos hangle]
    dsimp only
    have hcursor : (takeTemplateArgs (r.moveTo ((r.cursor.before ts).before ts').advance)).2.cursor = r.cursor.before us :=
      hleaves.cursor_eq
    have htail' : (r.cursor.before us).takeTypeTail { qualifiers := { isConst := p.modifiers.qualifiers.isConst } } = _ := htail
    rw [hcursor, htail', hread, Catalog.rereadExpr, hempty, hr, hqualified]
    exact ⟨rfl, vs, ⟨hleaves.catalog_eq, rfl⟩, hleft⟩

/-! ## Arguments -/

/-- The argument can be spelled, the pointers in it are pointers and the types in it have records. -/
structure Readable (c : Catalog) (a : TemplateArg) : Prop where
  spellable : c.Spellable a
  upright : a.Upright
  has : ∀ p ∈ a.uses, c.Has p.type

theorem Readable.arg {p : Property} (h : Readable c (.type p)) {a : TemplateArg} (ha : a ∈ p.templateArgs) : Readable c a where
  spellable := h.spellable.arg ha
  upright := h.upright.arg ha
  has q hq := h.has q (by rw [TemplateArg.uses_type]; exact List.mem_cons_of_mem _ (mem_usesOfArgs ha hq))

/-- A `const` in front of a mark is passed over as an argument without a name. -/
theorem takeTemplateArgs_const {symbol : Char} (h : r.cursor.Faces (.word "const" :: .mark symbol :: kinds) rest) :
    ∃ r', takeTemplateArgs r = takeTemplateArgs r' ∧ r.Leaves r.cursor.advance.unread r' := by
  obtain ⟨hend, hconst, hnext⟩ := h.cons
  obtain ⟨-, hmark, -⟩ := hnext.cons
  have hnone : r.cursor.advance.peek.word? = none := by
    rw [Token.word?, hmark]
    rfl
  have hq : r.cursor.takeQualifiers {} = ({ qualifiers := { isConst := true } }, r.cursor.advance) := by
    rw [Cursor.takeQualifiers_const hconst, Cursor.takeQualifiers]
    split
    · rfl
    · rename_i hsome
      rw [hnone] at hsome
      cases hsome
  have hkeyed : r.cursor.seesWordOf ["class", "struct", "typename"] = false := seesWordOf_of_kind hconst _
  have hvirtual : r.cursor.seesWord "virtual" = false := h.seesWord "virtual"
  have htilde : r.cursor.sees '~' = false := h.sees '~'
  have hhead : r.cursor.takeTypeHead = (⟨{ qualifiers := { isConst := true } }, false, none⟩, r.cursor.advance) := by
    rw [Cursor.takeTypeHead, hkeyed]
    simp only [Bool.false_eq_true, if_false, hvirtual, Cursor.passWord, htilde, Cursor.pass, hq, Cursor.typeWord?, hnone,
      Option.filter_none]
  have htype : takeType none r = ({ modifiers := { qualifiers := { isConst := true } } }, r.advance) := by
    rw [takeType_of_none (by rw [hhead]), hhead]
    rfl
  have hturn : r.argTurn = (none, r.resume r.advance) := by
    rw [argTurn, hconst]
    dsimp only [Token.Kind.argItem]
    rw [htype]
    rfl
  refine ⟨r.advance, ?_, rfl, rfl⟩
  rw [takeTemplateArgs_eq, hend, h.sees, hturn, resume_eq (remaining_advance_lt hend)]
  rfl

/-- One turn over the digits of an integer, with or without a minus. -/
theorem takeTemplateArgs_int (value : Int64) (h : r.cursor.Faces (intKinds value ++ kinds) rest) :
    ∃ ts, (r.cursor.before ts).Faces kinds rest ∧
      takeTemplateArgs r =
        (.int value :: (takeTemplateArgs (r.moveTo (r.cursor.before ts))).1, (takeTemplateArgs (r.moveTo (r.cursor.before ts))).2) := by
  unfold intKinds at h
  cases hvalue : value.toInt with
  | ofNat n =>
    have heq : Int64.ofNat n = value := by
      rw [← Int64.ofInt_toInt value, hvalue]
      rfl
    rw [hvalue] at h
    obtain ⟨hend, hint, hnext⟩ := Cursor.Faces.cons h
    rw [heq] at hint
    refine ⟨r.cursor.advance.unread, hnext, ?_⟩
    rw [takeTemplateArgs_eq, hend, Cursor.sees_of_kind hint, argTurn, hint]
    rfl
  | negSucc n =>
    have heq : -Int64.ofNat (n + 1) = value := by
      rw [← Int64.ofInt_toInt value, hvalue, Int.negSucc_eq, Int64.ofInt_neg]
      rfl
    rw [hvalue] at h
    obtain ⟨hend, hminus, hdigits⟩ := Cursor.Faces.cons h
    obtain ⟨-, hint, hnext⟩ := Cursor.Faces.cons hdigits
    have hvalue? : r.advance.cursor.peek.kind.int? = some (.ofNat (n + 1)) := by
      rw [advance, moveTo, hint]
      rfl
    have hitem : r.cursor.peek.kind.argItem = .minus := by
      rw [hminus]
      rfl
    have hturn : r.argTurn = (some (.int value), r.advance.advance) := by
      rw [argTurn, hitem]
      dsimp only
      rw [hvalue?, ← heq]
    refine ⟨r.cursor.advance.advance.unread, hnext, ?_⟩
    rw [takeTemplateArgs_eq, hend, Cursor.sees_of_kind hminus, hturn]
    rfl

/-- One turn over a spelled type, and a second one over the `const` that the first has left. -/
theorem takeTemplateArgs_type (hc : c.Inv) (hs : c.Settled) (hr : r.catalog = c) {p : Property} (hp : Readable c (.type p))
    (hargs : ReadsArgs c p.templateArgs) {symbol : Char} (hsymbol : (Token.Kind.mark symbol).EndsType)
    (h : r.cursor.Faces (c.argKinds (.type p) ++ .mark symbol :: kinds) rest) :
    ∃ ts r', (r.cursor.before ts).Faces (.mark symbol :: kinds) rest ∧ r.Leaves ts r' ∧
      takeTemplateArgs r = (c.reread (.type p) :: (takeTemplateArgs r').1, (takeTemplateArgs r').2) := by
  have hmem : p ∈ (TemplateArg.type p).uses := by rw [TemplateArg.uses_type]; exact List.mem_cons_self
  obtain ⟨ts, hfaces, hbehind⟩ := h.append
  have hends : (r.cursor.before ts).peek.kind.EndsType := by
    rw [hbehind.cons.2.1]
    exact hsymbol
  obtain ⟨hexpr, us, hleaves, hleft⟩ := takeType_faces hr (hp.spellable.1 p hmem) (hp.upright p hmem) hargs hfaces hends
  obtain ⟨huse, hused⟩ := use_rereadExpr hc hs (hleaves.catalog_eq.trans hr) (hp.has p hmem) ""
  -- the turn begins with a word and reads a name
  obtain ⟨first, kinds', hkinds⟩ : ∃ first kinds', c.argKinds (.type p) = .word first :: kinds' := by
    obtain ⟨first, parts, hname, -, hwords⟩ := hp.spellable.1 p hmem
    rw [Catalog.argKinds_type, hname, nameKinds_qualifiedName hwords, leadKinds]
    split
    · exact ⟨_, _, rfl⟩
    · exact ⟨_, _, rfl⟩
  have hword : r.cursor.peek.kind = .word first := by
    rw [hkinds] at hfaces
    exact hfaces.cons.2.1
  have hend : r.cursor.atEnd = false := by
    rw [hkinds] at hfaces
    exact hfaces.cons.1
  have hnamed : (takeType none r).1.isEmpty = false := by
    obtain ⟨d, ds, hname, -⟩ := (hp.spellable.1 p hmem).head
    have hne : c.name p.type ≠ "" := by
      intro hempty
      rw [hempty] at hname
      cases hname
    rw [hexpr, TypeExpr.isEmpty, Catalog.rereadExpr, beq_false_of_ne hne, Bool.false_and]
  have hturn : r.argTurn = (some (c.reread (.type p)), ((takeType none r).2.use (c.rereadExpr p) "").2) := by
    rw [argTurn, hword]
    change (if (takeType none r).1.isEmpty = true then _ else _) = _
    rw [if_neg (ne_true_of_eq_false hnamed), hexpr]
    dsimp only
    rw [huse, Catalog.reread_type]
  have hclose : r.cursor.sees '>' = false := Cursor.sees_of_kind hword '>'
  have hread : r.Leaves us ((takeType none r).2.use (c.rereadExpr p) "").2 := by
    have htrans := hleaves.trans hused
    rw [hleaves.cursor_eq] at htrans
    exact htrans
  rw [takeTemplateArgs_eq, if_neg (ne_true_of_eq_false hend), if_neg (ne_true_of_eq_false hclose), hturn]
  unfold Shape.unreadKinds at hleft
  split at hleft
  · have hconst := hread.faces (hleft.join hbehind)
    obtain ⟨r', heq, hpassed⟩ := takeTemplateArgs_const hconst
    refine ⟨ts, r', hbehind, ?_, ?_⟩
    · have htrans := hread.trans hpassed
      rw [hread.cursor_eq, hleft.cons.2.2.eq_before] at htrans
      exact htrans
    · dsimp only
      rw [heq]
      rfl
  · obtain rfl : us = ts := hleft.unread_eq
    exact ⟨us, _, hbehind, hread, rfl⟩

theorem takeTemplateArgs_close (h : r.cursor.Faces [.mark '>'] rest) : takeTemplateArgs r = ([], r.moveTo (r.cursor.before rest)) := by
  obtain ⟨hend, -, hnext⟩ := h.cons
  rw [takeTemplateArgs_eq, hend, h.sees, advance, hnext.eq_before]
  rfl

/-- A comma between arguments is passed over. -/
theorem takeTemplateArgs_comma (h : r.cursor.Faces (.mark ',' :: kinds) rest) :
    ∃ r', takeTemplateArgs r = takeTemplateArgs r' ∧ r.Leaves r.cursor.advance.unread r' := by
  obtain ⟨hend, hkind, -⟩ := h.cons
  refine ⟨r.advance.noted (.ignoredTemplateArg (.mark ',')), ?_, rfl, rfl⟩
  rw [takeTemplateArgs_eq, hend, h.sees, argTurn, hkind]
  rfl

/-- One turn over a spelled argument. -/
theorem takeTemplateArgs_arg (hc : c.Inv) (hs : c.Settled) (hr : r.catalog = c) {a : TemplateArg} (ha : Readable c a)
    (hargs : ∀ p, a = .type p → ReadsArgs c p.templateArgs) {symbol : Char} (hsymbol : (Token.Kind.mark symbol).EndsType)
    (h : r.cursor.Faces (c.argKinds a ++ .mark symbol :: kinds) rest) :
    ∃ ts r', (r.cursor.before ts).Faces (.mark symbol :: kinds) rest ∧ r.Leaves ts r' ∧
      takeTemplateArgs r = (c.reread a :: (takeTemplateArgs r').1, (takeTemplateArgs r').2) := by
  cases a with
  | int value =>
    rw [Catalog.argKinds] at h
    obtain ⟨ts, hbehind, heq⟩ := takeTemplateArgs_int value h
    rw [Catalog.reread]
    exact ⟨ts, r.moveTo (r.cursor.before ts), hbehind, ⟨rfl, rfl⟩, heq⟩
  | type p => exact takeTemplateArgs_type hc hs hr ha (hargs p rfl) hsymbol h

/-- Spelled arguments are read with the bracket that closes them. -/
theorem readsArgs (hc : c.Inv) (hs : c.Settled) (args : List TemplateArg) (hread : ∀ a ∈ args, Readable c a)
    (hargs : ∀ p, .type p ∈ args → ReadsArgs c p.templateArgs) : ReadsArgs c args := by
  induction args with
  | nil =>
    intro r rest _ h
    have hclose : r.cursor.Faces [.mark '>'] rest := h
    rw [takeTemplateArgs_close hclose]
    exact ⟨rfl, rfl, rfl⟩
  | cons a args ih =>
    intro r rest hr h
    obtain ⟨ha, hread⟩ := List.forall_mem_cons.mp hread
    have htype : ∀ p, a = .type p → ReadsArgs c p.templateArgs := fun p hp => hargs p (hp ▸ List.mem_cons_self)
    have hrest := ih hread fun p hp => hargs p (List.mem_cons_of_mem _ hp)
    cases args with
    | nil =>
      rw [List.map_singleton, List.intercalate_singleton] at h
      obtain ⟨ts, r', hclose, hleaves, hturn⟩ := takeTemplateArgs_arg hc hs hr ha htype (by decide) h
      rw [hturn, takeTemplateArgs_close (hleaves.faces hclose)]
      exact ⟨rfl, hleaves.trans ⟨rfl, rfl⟩⟩
    | cons b args =>
      rw [List.map_cons, List.map_cons, List.intercalate_cons_cons, List.append_assoc, List.append_assoc] at h
      obtain ⟨ts, r', hcomma, hleaves, hturn⟩ := takeTemplateArgs_arg hc hs hr ha htype (by decide) h
      have hcomma' := hleaves.faces hcomma
      obtain ⟨r'', hpassed, hleaves'⟩ := takeTemplateArgs_comma hcomma'
      have hnext : r''.cursor.Faces _ rest := hleaves'.faces hcomma'.cons.2.2
      obtain ⟨hothers, hlast⟩ := hrest r'' rest ((hleaves.trans hleaves').catalog_eq.trans hr) hnext
      rw [hturn, hpassed, hothers]
      exact ⟨rfl, (hleaves.trans hleaves').trans hlast⟩

theorem readsArgs_of_readable (hc : c.Inv) (hs : c.Settled) (a : TemplateArg) :
    Readable c a → ∀ p, a = .type p → ReadsArgs c p.templateArgs := by
  induction a using TemplateArg.induction with
  | hint value => exact fun _ p hp => absurd hp (by rintro ⟨⟩)
  | htype p ih =>
    rintro h _ ⟨⟩
    exact readsArgs hc hs p.templateArgs (fun a ha => h.arg ha) fun q hq => ih _ hq (h.arg hq) q rfl

end Reader

end HeaderAtlas
