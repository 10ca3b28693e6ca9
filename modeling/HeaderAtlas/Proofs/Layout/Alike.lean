import HeaderAtlas.Proofs.Layout.Relabel

/-!
# Readers over two texts

A catalog is plain when every default text in it has one blank between each two of its tokens (`Catalog.plain`). What a catalog is
asked and what is entered in it commute with making it plain, as no answer depends on a default text. Two readers are alike if the
second one has the plain catalog of the first and its cursor relabeled (`Reader.Alike`); their logs may differ. Reading a type
looks at no text, so readers that are alike read the same type and stay alike (`Reader.Alike.takeType`).
-/

namespace HeaderAtlas

/-! ## Plain catalogs -/

/-- A property with one blank between each two tokens of its default. -/
def Property.plain (p : Property) : Property := { p with defaultText := p.defaultText.map spacedText }

/-- A method with one blank between each two tokens of the defaults of its parameters. -/
def Method.plain (m : Method) : Method :=
  { m with params := m.params.map Property.plain, defaults := m.defaults.map (Option.map spacedText) }

/-- A type with one blank between each two tokens of the default texts of its properties and methods. -/
def TypeDef.plain (d : TypeDef) : TypeDef :=
  { d with properties := d.properties.map Property.plain, methods := d.methods.map Method.plain }

/-- A catalog with one blank between each two tokens of every default text. -/
def Catalog.plain (c : Catalog) : Catalog :=
  { c with
    records := c.records.map TypeDef.plain
    functions := c.functions.map Method.plain
    globals := c.globals.map Property.plain }

namespace Catalog

variable (c : Catalog)

/-- Names mean the same in the plain catalog. -/
theorem lookup_plain (name : String) : c.plain.lookup name = c.lookup name := rfl

/-- The entries of enums mean the same in the plain catalog. -/
theorem literal?_plain (name : String) : c.plain.literal? name = c.literal? name := rfl

/-- A record without a text that is not plain is the same in both. -/
theorem alloc_plain {d : TypeDef} (hd : d.plain = d) : c.plain.alloc d = ((c.alloc d).1, (c.alloc d).2.plain) := by
  have hlength : c.plain.records.length = c.records.length := List.length_map _
  have hrecords : (c.records ++ [d]).map TypeDef.plain = c.plain.records ++ [d] := by
    rw [List.map_append, List.map_singleton, hd]
    rfl
  simp only [alloc, hlength]
  exact congrArg (fun records => (_, ({ c.plain with records, redirect := _ } : Catalog))) hrecords.symm

/-- Declaring a plain type commutes with making the catalog plain. -/
theorem register_plain {d : TypeDef} (hd : d.plain = d) : c.plain.register d = ((c.register d).1, (c.register d).2.plain) := by
  simp only [register, lookup_plain, c.alloc_plain hd]
  cases c.lookup d.name <;> rfl

/-- Making a placeholder commutes with making the catalog plain. -/
theorem placeholder_plain (name : String) : c.plain.placeholder name = ((c.placeholder name).1, (c.placeholder name).2.plain) := by
  have hplaceholders : c.plain.placeholders = c.placeholders := rfl
  simp only [placeholder, hplaceholders, c.alloc_plain (d := .placeholder name) rfl]
  cases c.placeholders.get? name <;> rfl

/-- Redirects are the same in the plain catalog. -/
theorem canonical_plain (id : TypeId) : c.plain.canonical id = c.canonical id := by
  have hfollow : ∀ n id, c.plain.follow n id = c.follow n id := by
    intro n
    induction n with
    | zero => exact fun _ => rfl
    | succ n ih =>
      intro id
      rw [follow, follow, ih]
      rfl
  exact hfollow _ id

/-- An edit commutes with making the catalog plain if it does so on records. -/
theorem edit_plain (id : TypeId) {f f' : TypeDef → TypeDef} (hf : ∀ d, f' d.plain = (f d).plain) :
    c.plain.edit id f' = (c.edit id f).plain := by
  have hmodify : ∀ (l : List TypeDef) (i : Nat), (l.map TypeDef.plain).modify i f' = (l.modify i f).map TypeDef.plain := by
    intro l
    induction l with
    | nil => exact fun i => by cases i <;> rfl
    | cons d l ih =>
      intro i
      cases i with
      | zero => exact congrArg (· :: l.map TypeDef.plain) (hf d)
      | succ i => exact congrArg (d.plain :: ·) (ih i)
  rw [edit, edit, setRecord, setRecord, canonical_plain]
  exact congrArg (fun records => ({ c.plain with records } : Catalog)) (hmodify c.records _)

end Catalog

/-! ## Readers that are alike -/

namespace Reader

/-- The second reader has the plain catalog of the first one and its cursor, relabeled. -/
structure Alike (ρ : Relabeling) (r r' : Reader) : Prop where
  catalog : r'.catalog = r.catalog.plain
  cursor : r'.cursor = ρ.cursor r.cursor

/-- The same was read, and the readers behind it are alike. -/
def ReadAlike {α : Type} (ρ : Relabeling) (x x' : α × Reader) : Prop := x'.1 = x.1 ∧ Alike ρ x.2 x'.2

namespace Alike

variable {ρ : Relabeling} {r r' s s' : Reader}

/-- Readers that are alike stay so at any place of both texts. -/
theorem moveTo (h : Alike ρ r r') (c : Cursor) : Alike ρ (r.moveTo c) (r'.moveTo (ρ.cursor c)) := ⟨h.catalog, rfl⟩

/-- Readers that are alike stay so one token on. -/
theorem advance (h : Alike ρ r r') : Alike ρ r.advance r'.advance := by
  rw [Reader.advance, Reader.advance, h.cursor, ρ.advance_cursor]
  exact h.moveTo _

/-- A mark is passed in both or in neither. -/
theorem pass (h : Alike ρ r r') (symbol : Char) : Alike ρ (r.pass symbol) (r'.pass symbol) := by
  rw [Reader.pass, Reader.pass, h.cursor, ρ.pass_cursor]
  exact h.moveTo _

/-- A statement is passed over in both. -/
theorem skipStatement (h : Alike ρ r r') : Alike ρ r.skipStatement r'.skipStatement := by
  rw [Reader.skipStatement, Reader.skipStatement, h.cursor, ρ.skipStatement_cursor]
  exact h.moveTo _

/-- What is noted does not matter. -/
theorem noted (h : Alike ρ r r') (e e' : Event) : Alike ρ (r.noted e) (r'.noted e') := ⟨h.catalog, h.cursor⟩

/-- There are as many tokens left in both. -/
theorem remaining (h : Alike ρ r r') : r'.remaining = r.remaining := by
  rw [Reader.remaining, Reader.remaining, h.cursor, ρ.remaining_cursor]

/-- The loops of both go on alike. -/
theorem resume (h : Alike ρ r r') (hs : Alike ρ s s') : Alike ρ (r.resume s) (r'.resume s') := by
  rw [Reader.resume, Reader.resume, h.remaining, hs.remaining, h.cursor, ρ.advance_cursor]
  split
  · exact hs
  · exact hs.moveTo _

/-- A plain type is declared in both under one handle. -/
theorem declare (h : Alike ρ r r') {d : TypeDef} (hd : d.plain = d) : ReadAlike ρ (r.declare d) (r'.declare d) := by
  have hregister := r.catalog.register_plain hd
  rw [← h.catalog] at hregister
  have hid := congrArg Prod.fst hregister
  have hcatalog := congrArg Prod.snd hregister
  exact ⟨hid, hcatalog, h.cursor⟩

/-- The placeholder of a name has one handle in both. -/
theorem placeholderFor (h : Alike ρ r r') (name : String) : ReadAlike ρ (r.placeholderFor name) (r'.placeholderFor name) := by
  have hplaceholder := r.catalog.placeholder_plain name
  rw [← h.catalog] at hplaceholder
  have hid := congrArg Prod.fst hplaceholder
  have hcatalog := congrArg Prod.snd hplaceholder
  exact ⟨hid, hcatalog, h.cursor⟩

/-- A name refers to one handle in both. -/
theorem refer (h : Alike ρ r r') (name : String) : ReadAlike ρ (r.refer name) (r'.refer name) := by
  have hlookup : r'.catalog.lookup name = r.catalog.lookup name := by rw [h.catalog, Catalog.lookup_plain]
  simp only [Reader.refer, Recorder.reference, hlookup]
  cases r.catalog.lookup name with
  | some id => exact ⟨rfl, h⟩
  | none => exact h.placeholderFor name

/-- Records are edited alike in both. -/
theorem edit (h : Alike ρ r r') (id : TypeId) {f f' : TypeDef → TypeDef} (hf : ∀ d, f' d.plain = (f d).plain) :
    Alike ρ (r.edit id f) (r'.edit id f') := by
  refine ⟨?_, h.cursor⟩
  have hedit := r.catalog.edit_plain id hf
  rw [← h.catalog] at hedit
  exact hedit

/-! ## Types -/

/-- A type expression is used alike in both. -/
theorem use (h : Alike ρ r r') (e : TypeExpr) (name : String) : ReadAlike ρ (r.use e name) (r'.use e name) := by
  rw [Reader.use, Reader.use]
  split
  · exact ⟨rfl, h⟩
  · obtain ⟨hid, halike⟩ := h.placeholderFor e.name
    exact ⟨congrArg (e.property · name) hid, halike⟩

/-- A constructor or destructor is the same expression in both. -/
theorem special (h : Alike ρ r r') (head : TypeHead) (word : String) :
    ReadAlike ρ (r.special head word) (r'.special head word) := by
  obtain ⟨hid, halike⟩ := h.refer "void"
  refine ⟨?_, halike⟩
  simp only [Reader.special, voidType, hid]

/-- Whether a constructor or destructor stands in front is seen from names and kinds. -/
theorem atSpecial (h : Alike ρ r r') (context : Option TypeId) (word : String) (c : Cursor) :
    r'.atSpecial context word (ρ.cursor c) = r.atSpecial context word c := by
  rw [Reader.atSpecial, Reader.atSpecial, h.catalog, Catalog.lookup_plain, ρ.sees_cursor]

/-- What is declared under a name is the same in both. -/
theorem named (h : Alike ρ r r') (head : TypeHead) (word : String) (parts : List String) :
    head.named r'.catalog word parts = head.named r.catalog word parts := by
  have hadd : addPart r.catalog.plain = addPart r.catalog := rfl
  rw [TypeHead.named, TypeHead.named, h.catalog, hadd, Catalog.lookup_plain]

/-- An argument is the same in both if type expressions are. -/
theorem argTurn (h : Alike ρ r r') (htype : ReadAlike ρ (Reader.takeType none r) (Reader.takeType none r')) :
    ReadAlike ρ r.argTurn r'.argTurn := by
  obtain ⟨htype, htaken⟩ := htype
  have hpeek : r'.cursor.peek.kind = r.cursor.peek.kind := by rw [h.cursor, ρ.kind_peek_cursor]
  have hnext : r'.advance.cursor.peek.kind = r.advance.cursor.peek.kind := by rw [h.advance.cursor, ρ.kind_peek_cursor]
  rw [Reader.argTurn, Reader.argTurn, hpeek]
  cases r.cursor.peek.kind.argItem with
  | close => exact ⟨rfl, h.advance⟩
  | int value => exact ⟨rfl, h.advance⟩
  | minus =>
    dsimp only
    rw [hnext]
    cases r.advance.cursor.peek.kind.int? with
    | none => exact ⟨rfl, h.advance⟩
    | some value => exact ⟨rfl, h.advance.advance⟩
  | word =>
    dsimp only
    rw [htype]
    split
    · exact ⟨rfl, h.resume htaken⟩
    · obtain ⟨hproperty, halike⟩ := htaken.use (Reader.takeType none r).1 ""
      exact ⟨congrArg (fun p => some (TemplateArg.type p)) hproperty, halike⟩
  | other kind => exact ⟨rfl, h.advance.noted _ _⟩

/-- Readers that are alike read the same type expressions and template arguments. -/
theorem takeType_and_takeTemplateArgs (ρ : Relabeling) :
    (∀ (context : Option TypeId) (r r' : Reader), Alike ρ r r' →
        ReadAlike ρ (Reader.takeType context r) (Reader.takeType context r')) ∧
      ∀ r r' : Reader, Alike ρ r r' → ReadAlike ρ (takeTemplateArgs r) (takeTemplateArgs r') := by
  refine takeType_induction (P := fun context r x => ∀ r', Alike ρ r r' → ReadAlike ρ x (Reader.takeType context r'))
    (Q := fun r x => ∀ r', Alike ρ r r' → ReadAlike ρ x (takeTemplateArgs r')) ?_ ?_ ?_ ?_ ?_ ?_ ?_
  · intro context r hword r' h
    have hhead : r'.cursor.takeTypeHead = ρ.after r.cursor.takeTypeHead := by rw [h.cursor, ρ.takeTypeHead_cursor]
    have hnone : r'.cursor.takeTypeHead.1.word = none := by rw [hhead, ρ.fst_after, hword]
    rw [takeType_of_none hnone, hhead]
    exact ⟨rfl, h.moveTo _⟩
  · intro context r word hword hspecial r' h
    have hhead : r'.cursor.takeTypeHead = ρ.after r.cursor.takeTypeHead := by rw [h.cursor, ρ.takeTypeHead_cursor]
    have hsome : r'.cursor.takeTypeHead.1.word = some word := by rw [hhead, ρ.fst_after, hword]
    rw [takeType_of_some hsome, hhead]
    dsimp only
    rw [ρ.snd_after, h.atSpecial, if_pos hspecial]
    exact (h.moveTo _).special _ word
  · intro context r word hword head parts e args tail hspecial hangle hargs r' h
    have hhead : r'.cursor.takeTypeHead = ρ.after head := by rw [h.cursor, ρ.takeTypeHead_cursor]
    have hparts : (ρ.cursor head.2).takeParts = ρ.after parts := ρ.takeParts_cursor _
    obtain ⟨hread, halike⟩ := hargs _ (h.moveTo parts.2.advance)
    have hsome : r'.cursor.takeTypeHead.1.word = some word := by rw [hhead, ρ.fst_after, hword]
    rw [takeType_of_some hsome, hhead]
    dsimp only
    rw [ρ.snd_after, ρ.fst_after, h.atSpecial, hspecial, if_neg Bool.false_ne_true, hparts, ρ.snd_after, ρ.fst_after, ρ.sees_cursor,
      if_pos hangle, ρ.advance_cursor, h.named, hread, halike.cursor, ρ.takeTypeTail_cursor]
    exact ⟨rfl, halike.moveTo _⟩
  · intro context r word hword head parts e tail hspecial hangle r' h
    have hhead : r'.cursor.takeTypeHead = ρ.after head := by rw [h.cursor, ρ.takeTypeHead_cursor]
    have hparts : (ρ.cursor head.2).takeParts = ρ.after parts := ρ.takeParts_cursor _
    have hsome : r'.cursor.takeTypeHead.1.word = some word := by rw [hhead, ρ.fst_after, hword]
    rw [takeType_of_some hsome, hhead]
    dsimp only
    rw [ρ.snd_after, ρ.fst_after, h.atSpecial, hspecial, if_neg Bool.false_ne_true, hparts, ρ.snd_after, ρ.fst_after, ρ.sees_cursor,
      hangle, if_neg Bool.false_ne_true, h.named, ρ.takeTypeTail_cursor]
    exact ⟨rfl, h.moveTo _⟩
  · intro r hend r' h
    rw [takeTemplateArgs_eq, h.cursor, ρ.atEnd_cursor, if_pos hend]
    exact ⟨rfl, h⟩
  · intro r hend hclose r' h
    rw [takeTemplateArgs_eq, h.cursor, ρ.atEnd_cursor, ρ.sees_cursor, hend, if_neg Bool.false_ne_true, if_pos hclose]
    exact ⟨rfl, h.advance⟩
  · intro r hend hclose htype hrest r' h
    obtain ⟨harg, halike⟩ := h.argTurn (htype r' h)
    obtain ⟨hargs, hafter⟩ := hrest _ halike
    rw [takeTemplateArgs_eq r', h.cursor, ρ.atEnd_cursor, ρ.sees_cursor, hend, if_neg Bool.false_ne_true, hclose,
      if_neg Bool.false_ne_true]
    exact ⟨by dsimp only; rw [harg, hargs], hafter⟩

/-- Type expressions are the same in both, by induction along their arguments. -/
theorem takeType (h : Alike ρ r r') (context : Option TypeId) :
    ReadAlike ρ (Reader.takeType context r) (Reader.takeType context r') :=
  (takeType_and_takeTemplateArgs ρ).1 context r r' h

end Alike

end Reader

end HeaderAtlas
