import HeaderAtlas.Proofs.Member.Reading

/-!
# Reading a struct

A struct is read in turns: one turn of the header loop reads all of it, and one turn of the body loop reads each field. Every field
is recorded on its own, by an edit of the struct's record; together the edits make the record that the struct declares
(`edit_fields`). So a text that spells a struct adds one record to the catalog, with the properties that are written.
-/

namespace HeaderAtlas

namespace Catalog

/-- A record that has just been declared may as well be declared with what is added to it at once. -/
theorem edit_register {c : Catalog} (hc : c.redirect.length = c.records.length) (d : TypeDef) {f : TypeDef → TypeDef}
    (hname : (f d).name = d.name) (hvalues : (f d).enumValues = d.enumValues) :
    (c.register d).2.edit ⟨c.records.length⟩ f = (c.register (f d)).2 := by
  have hnext : (c.register d).2.next ⟨c.records.length⟩ = ⟨c.records.length⟩ := by
    rw [next, redirect_register, ← hc, List.getElem?_concat_length, Option.getD_some]
  have hcanonical : (c.register d).2.canonical ⟨c.records.length⟩ = ⟨c.records.length⟩ := by
    rw [canonical]
    cases (c.register d).2.redirect.length with
    | zero => rfl
    | succ n => rw [follow, if_pos hnext]
  have hrecords : (c.records ++ [d]).modify c.records.length f = c.records ++ [f d] := by
    rw [List.modify_eq_take_drop, List.take_left, List.drop_left]
    rfl
  rw [edit, hcanonical, setRecord, records_register, hrecords]
  unfold register
  rw [hname]
  cases c.lookup d.name with
  | none => simp only [alloc, hvalues]
  | some old => simp only [alloc, supersede, hvalues]

end Catalog

namespace Reader

variable {options : ScanOptions} {r : Reader} {items : List Item} {rest : List Token}

/-- A word that means nothing of its own in the body of a type begins a member. -/
theorem bodyItem_of_word {c : Cursor} {name : String} (h : c.peek.kind = .word name)
    (hname : name = "const" ∨ name ∉ reservedWords) : bodyItem c = .member := by
  have hne : ∀ word ∈ ["REFLECTED", "VIRTUAL_PROPERTY", "friend", "using", "typedef", "static_assert", "template", "public",
      "protected", "private"], name ≠ word := by
    rcases hname with rfl | hname
    · decide
    · rintro word hword rfl
      exact hname ((by decide : ∀ word ∈ ["REFLECTED", "VIRTUAL_PROPERTY", "friend", "using", "typedef", "static_assert",
        "template", "public", "protected", "private"], word ∈ reservedWords) name hword)
  simp only [List.forall_mem_cons] at hne
  obtain ⟨h₁, h₂, h₃, h₄, h₅, h₆, h₇, h₈, h₉, h₁₀, -⟩ := hne
  have hvisibility : Visibility.ofWord? name = none := by
    unfold Visibility.ofWord?
    split <;> simp_all
  simp only [bodyItem, h, Marker.word, h₁, h₂, h₇, if_false, hvisibility]
  simp [h₃, h₄, h₅, h₆]

/-- One field in the body of a type is one turn of reading it. -/
theorem bodyTurn_field (f : FieldDeclaration options) (owner : TypeId) (depth : Nat) {id : TypeId} (hc : r.cursor.Lined)
    (hconst : "const" ∉ options.apiWords) (hid : r.catalog.lookup f.type.name = some id)
    (h : r.cursor.Shows (f.items ++ items) rest) :
    r.cursor.atEnd = false ∧ r.cursor.sees '}' = false ∧
      ∃ r' ts, bodyTurn options owner depth .publicAccess r = (.publicAccess, r') ∧
        r'.catalog = r.catalog.edit owner (addField f id) ∧ r'.cursor = r.cursor.before ts ∧
        (r.cursor.before ts).Shows items rest := by
  obtain ⟨r', ts, hmember, hread⟩ := takeMember_field f owner depth hc hconst hid h
  rw [FieldDeclaration.items, List.append_assoc] at h
  obtain ⟨first, items', hitems, hfirst⟩ := f.type.items_first (.word f.name :: f.ending.items ++ items)
  rw [hitems] at h
  obtain ⟨hend, hkind, -⟩ := h.token
  have hitem : bodyItem r.cursor = .member := by
    refine bodyItem_of_word hkind ?_
    rcases hfirst with rfl | rfl
    · exact Or.inl rfl
    · exact Or.inr f.type.ordinary.not_reserved
  refine ⟨hend, Cursor.sees_of_kind hkind _, r', ts, ?_, hread⟩
  rw [bodyTurn, hitem]
  dsimp only
  rw [takeVisible, if_pos (Or.inl rfl), hmember]

/-- The fields of a type are recorded from the first to the last, and reading goes on behind the `}` that closes its body. -/
theorem takeBody_fields (handle : String → TypeId) (owner : TypeId) (depth : Nat) (hconst : "const" ∉ options.apiWords)
    (fields : List (FieldDeclaration options)) :
    ∀ {r : Reader}, r.cursor.Lined → (∀ f ∈ fields, r.catalog.lookup f.type.name = some (handle f.type.name)) →
      r.cursor.Shows (fields.flatMap FieldDeclaration.items ++ .mark '}' :: items) rest →
      ∃ r' ts, takeBody options owner depth .publicAccess r = r' ∧
        r'.catalog = fields.foldl (fun c f => c.edit owner (addField f (handle f.type.name))) r.catalog ∧
        r'.cursor = r.cursor.before ts ∧ (r.cursor.before ts).Shows items rest := by
  induction fields with
  | nil =>
    intro r _ _ h
    obtain ⟨hend, hkind, hitems⟩ := Cursor.Shows.token h
    refine ⟨r.advance, _, ?_, rfl, rfl, hitems⟩
    rw [takeBody_eq, hend, if_neg Bool.false_ne_true, Cursor.sees_of_kind hkind]
    rfl
  | cons f fields ih =>
    intro r hc hlookup h
    rw [List.flatMap_cons, List.append_assoc] at h
    obtain ⟨hend, hclose, r₁, ts, hturn, hcatalog, hcursor, hshows⟩ :=
      bodyTurn_field f owner depth hc hconst (hlookup f List.mem_cons_self) h
    have honward := onward_bodyTurn options owner depth .publicAccess r
    rw [hturn] at honward
    obtain ⟨r', ts', hbody, hcatalog', hcursor', hitems⟩ := ih (r := r₁) (hc.onward honward)
      (by rw [hcatalog]; exact fun g hg => hlookup g (List.mem_cons_of_mem _ hg)) (by rw [hcursor]; exact hshows)
    refine ⟨r', ts', ?_, ?_, ?_, ?_⟩
    · rw [takeBody_eq, hend, if_neg Bool.false_ne_true, hclose, if_neg Bool.false_ne_true, hturn]
      exact hbody
    · rw [hcatalog', hcatalog]
      rfl
    · rw [hcursor', hcursor]
      rfl
    · rw [hcursor] at hitems
      exact hitems

/-- A type of which the name has been read, and of which the body follows at once, is declared. -/
theorem takeTypeBases_open {d : TypeDef} (h : r.cursor.peek.kind = .mark '{') :
    ∃ r', r.takeTypeBases d = (.follows ⟨r.catalog.records.length⟩, r') ∧ r'.catalog = (r.catalog.register d).2 ∧
      r'.cursor = r.cursor.advance := by
  have hspecifiers : r.cursor.takeTypeSpecifiers d.flags = (d.flags, r.cursor) := by
    rw [Cursor.takeTypeSpecifiers, Cursor.seesWord_of_kind h, Cursor.seesWord_of_kind h]
    split <;> rfl
  have hcolon : r.cursor.sees ':' = false := Cursor.sees_of_kind h _
  have hopen : r.cursor.sees '{' = true := Cursor.sees_of_kind h _
  refine ⟨(r.declare d).2.advance, ?_, rfl, rfl⟩
  unfold takeTypeBases
  simp only [hspecifiers]
  have hcursor : ((r.moveTo r.cursor).declare d).2.cursor = r.cursor := rfl
  rw [hcursor, hcolon, if_neg Bool.false_ne_true, List.foldl_nil]
  exact if_pos hopen

/-- The head of a struct without bases. -/
theorem takeTypeHeader_shows {name : String} (hname : name ∉ options.apiWords)
    (h : r.cursor.Shows (.word "struct" :: .word name :: .mark '{' :: items) rest) :
    ∃ r' ts, r.takeTypeHeader options false = (.follows ⟨r.catalog.records.length⟩, r') ∧
      r'.catalog = (r.catalog.register { name }).2 ∧ r'.cursor = r.cursor.before ts ∧ (r.cursor.before ts).Shows items rest := by
  obtain ⟨-, -, hword⟩ := h.token
  obtain ⟨-, hkind, hopen⟩ := hword.token
  obtain ⟨-, hbrace, hitems⟩ := hopen.token
  have hapi : r.cursor.advance.takeApiWord options = (none, r.cursor.advance) := by
    rw [Cursor.takeApiWord, seesWordOf_of_kind hkind, if_neg]
    rw [List.contains_iff_mem]
    exact hname
  have hsemicolon : r.cursor.advance.advance.sees ';' = false := Cursor.sees_of_kind hbrace _
  obtain ⟨r', hbases, hcatalog, hcursor⟩ :=
    takeTypeBases_open (r := r.moveTo r.cursor.advance.advance) (d := { name }) hbrace
  refine ⟨r', _, ?_, hcatalog, hcursor, hitems⟩
  rw [takeTypeHeader, hapi]
  dsimp only
  rw [Cursor.takeWord_of_kind hkind]
  dsimp only
  rw [hsemicolon, if_neg Bool.false_ne_true]
  exact hbases

/-- Fields recorded one after the other make the type that the struct declares. -/
theorem edit_fields {c : Catalog} (hc : c.redirect.length = c.records.length) (handle : String → TypeId) (name : String)
    (fields : List (FieldDeclaration options)) :
    ∀ before : List Property,
      fields.foldl (fun c' f => c'.edit ⟨c.records.length⟩ (addField f (handle f.type.name)))
          (c.register { name, properties := before }).2 =
        (c.register { name, properties := before ++ fields.map fun f => f.property (handle f.type.name) }).2 := by
  induction fields with
  | nil =>
    intro before
    rw [List.map_nil, List.append_nil]
    rfl
  | cons f fields ih =>
    intro before
    rw [List.foldl_cons, Catalog.edit_register hc _ rfl rfl, List.map_cons, List.append_cons]
    exact ih _

/-- A struct is read from that word up to its end, and declared with its fields. -/
theorem takeReflected_struct (d : StructDeclaration options) (handle : String → TypeId) (depth : Nat) (hc : r.cursor.Lined)
    (hconst : "const" ∉ options.apiWords) (hlength : r.catalog.redirect.length = r.catalog.records.length)
    (hlookup : ∀ f ∈ d.fields, r.catalog.lookup f.type.name = some (handle f.type.name))
    (h : r.cursor.Shows (.word "struct" :: .word d.name :: .mark '{' ::
      (d.fields.flatMap FieldDeclaration.items ++ [.mark '}', .mark ';'])) rest) :
    ∃ id r', takeReflected options depth [] r = (id, r') ∧ r'.catalog = (r.catalog.register (d.type handle)).2 ∧
      r'.cursor = r.cursor.before rest := by
  obtain ⟨r₁, ts, hheader, hcatalog, hcursor, hfields⟩ := takeTypeHeader_shows d.ordinary.not_api h
  have honward : r.Onward r₁ := by
    have honward := onward_takeTypeHeader options false r
    rwa [hheader] at honward
  have hlookup₁ : ∀ f ∈ d.fields, r₁.catalog.lookup f.type.name = some (handle f.type.name) := by
    intro f hf
    rw [hcatalog, Catalog.lookup_register, if_neg (d.type_ne f hf)]
    exact hlookup f hf
  rw [← hcursor] at hfields
  obtain ⟨r₂, ts₂, hbody, hcatalog₂, hcursor₂, hsemicolon⟩ :=
    takeBody_fields handle ⟨r.catalog.records.length⟩ (depth + 1) hconst d.fields (hc.onward honward) hlookup₁ hfields
  obtain ⟨-, hstruct, -⟩ := h.token
  have hword : r.cursor.seesWordOf ["struct", "class"] = true := seesWordOf_of_kind hstruct _
  have hclass : r.cursor.seesWord "class" = false := Cursor.seesWord_of_kind hstruct _
  rw [← hcursor₂] at hsemicolon
  obtain ⟨-, hkind, hend⟩ := hsemicolon.token
  refine ⟨some ⟨r.catalog.records.length⟩, r₂.advance, ?_, ?_, ?_⟩
  · rw [takeReflected_eq, if_pos hword]
    dsimp only
    rw [hclass, hheader]
    dsimp only
    rw [if_neg Bool.false_ne_true, hbody, addTraits_nil, pass, Cursor.pass, Cursor.sees_of_kind hkind]
    rfl
  · rw [show r₂.advance.catalog = r₂.catalog from rfl, hcatalog₂, hcatalog]
    exact edit_fields hlength handle d.name d.fields []
  · rw [show r₂.advance.cursor = r₂.cursor.advance from rfl, hend.eq_before, hcursor₂, hcursor]
    rfl

/-- A struct is one turn of reading a header. -/
theorem declares_struct (d : StructDeclaration options) (handle : String → TypeId) (hc : r.cursor.Lined)
    (hconst : "const" ∉ options.apiWords) (hlength : r.catalog.redirect.length = r.catalog.records.length)
    (hlookup : ∀ f ∈ d.fields, r.catalog.lookup f.type.name = some (handle f.type.name)) (h : r.cursor.Shows d.items rest) :
    r.Declares options (d.type handle) rest := by
  obtain ⟨hstart, hmarker, h₁⟩ := h.token
  obtain ⟨-, hopen, h₂⟩ := h₁.token
  obtain ⟨hend, hclose, h₃⟩ := h₂.token
  have htraits : r.cursor.advance.takeTraits = ([], r.cursor.advance.advance.advance) := by
    rw [Cursor.takeTraits, Cursor.sees_of_kind hopen, Cursor.takeTraitEntries, hend, Cursor.sees_of_kind hclose]
    rfl
  have hadvance : r.cursor.Onward r.cursor.advance.advance.advance :=
    .of_suffix ((List.tail_suffix _).trans ((List.tail_suffix _).trans (List.tail_suffix _)))
  obtain ⟨id, r', htake, hread⟩ :=
    takeReflected_struct (r := r.moveTo r.cursor.advance.advance.advance) d handle 0 (hc.onward hadvance) hconst hlength
      hlookup h₃
  have hturn : r.headerTurn options = r' := by
    have hsees : r.cursor.seesMarker .reflected = true := Cursor.seesWord_of_kind hmarker _
    rw [headerTurn, if_pos hsees, htraits]
    dsimp only
    rw [htake]
  rw [← hturn] at hread
  exact .of_turn hstart hread.1 hread.2

end Reader

/-- A text that spells a struct, in whatever layout, adds one type to the catalog it is read into: the struct with its fields. -/
theorem scan_of_shows {options : ScanOptions} (d : StructDeclaration options) (r : Recorder) (handle : String → TypeId)
    (hconst : "const" ∉ options.apiWords) (hlength : r.catalog.redirect.length = r.catalog.records.length)
    (hlookup : ∀ f ∈ d.fields, r.catalog.lookup f.type.name = some (handle f.type.name)) {source : String}
    (h : (Cursor.ofText source).Shows d.items []) :
    (r.scan options source).catalog = (r.catalog.register (d.type handle)).2 := by
  have hdeclares := Reader.declares_struct (r := { r with cursor := .ofText source }) d handle (Cursor.lined_ofText source) hconst
    hlength hlookup h
  exact (hdeclares.whole rfl).1

/-! ## The text of a struct -/

section Text

variable {options : ScanOptions} {items : List Item}

theorem FieldEnd.legible (ending : FieldEnd) (h : Legible items) : Legible (ending.items ++ items) := by
  have hsemicolon : Legible (.mark ';' :: items) := h.mark (.of_lexeme rfl rfl)
  cases ending with
  | plain => exact hsemicolon
  | array length hlength => exact ((hsemicolon.mark (.of_lexeme rfl rfl)).int hlength).mark (.of_lexeme rfl rfl)
  | value text hvalue => exact (hsemicolon.value hvalue).mark (.of_lexeme rfl rfl)

theorem FieldDeclaration.legible (f : FieldDeclaration options) (h : Legible items) : Legible (f.items ++ items) := by
  rw [FieldDeclaration.items, List.append_assoc]
  exact f.type.legible ((f.ending.legible h).word f.ordinary.identifier f.ordinary.not_folded)

/-- What is written for a struct can be read back. -/
theorem StructDeclaration.legible (d : StructDeclaration options) : Legible d.items := by
  have hend : Legible [.mark '}', .mark ';'] := (Legible.nil.mark (.of_lexeme rfl rfl)).mark (.of_lexeme rfl rfl)
  have hfields : Legible (d.fields.flatMap FieldDeclaration.items ++ [.mark '}', .mark ';']) := by
    induction d.fields with
    | nil => exact hend
    | cons f fields ih =>
      rw [List.flatMap_cons, List.append_assoc]
      exact f.legible ih
  have hname := (hfields.mark (.of_lexeme rfl rfl) : Legible (.mark '{' :: _)).word d.ordinary.identifier d.ordinary.not_folded
  exact (((hname.word rfl (by decide) : Legible (.word "struct" :: _)).mark (.of_lexeme rfl rfl)).mark (.of_lexeme rfl rfl)).word rfl (by decide)

/-- The text of a struct, with a blank behind every item. -/
def StructDeclaration.text (d : StructDeclaration options) : String := .ofList (charsOf d.items)

end Text

/-- A struct is recovered from its text, in whatever layout: the text adds one record, under the name of the struct, with the fields
as public properties in the order in which they are written, and without methods. The text with a blank behind every item is one
such text. -/
theorem scan_struct {options : ScanOptions} (d : StructDeclaration options) (r : Recorder) (handle : String → TypeId)
    (hconst : "const" ∉ options.apiWords) (hlength : r.catalog.redirect.length = r.catalog.records.length)
    (hlookup : ∀ f ∈ d.fields, r.catalog.lookup f.type.name = some (handle f.type.name)) :
    (Cursor.ofText d.text).Shows d.items [] ∧
      ∀ source, (Cursor.ofText source).Shows d.items [] →
        let after := (r.scan options source).catalog
        after = (r.catalog.register (d.type handle)).2 ∧ after.records = r.catalog.records ++ [d.type handle] ∧
          after.lookup d.name = some ⟨r.catalog.records.length⟩ ∧ (d.type handle).methods = [] := by
  refine ⟨shows_text d.legible, ?_⟩
  intro source h after
  have hafter : after = (r.catalog.register (d.type handle)).2 := scan_of_shows d r handle hconst hlength hlookup h
  refine ⟨hafter, ?_, ?_, rfl⟩
  · rw [hafter, Catalog.records_register]
  · rw [hafter, Catalog.lookup_register, if_pos (show d.name = (d.type handle).name from rfl)]

/-- A struct with a field of each kind. -/
def exampleStruct : StructDeclaration {} where
  name := "Mesh"
  ordinary := by decide +kernel
  fields :=
    [{ type := { name := "Vertex", isConst := true, stars := 3, isConstPointer := true, isReference := true
                 ordinary := by decide +kernel, stars_of_isConstPointer := by decide }
       name := "first", ordinary := by decide +kernel, ending := .plain },
     { type := .pointer "Index" (by decide +kernel) 0
       name := "order", ordinary := by decide +kernel, ending := .array 12 (by decide) },
     { type := .pointer "Index" (by decide +kernel) 1
       name := "last", ordinary := by decide +kernel
       ending := .value "pick(order, \"a;b\")[unsigned  int(3)]"
         ⟨by decide +kernel, by decide +kernel, by decide +kernel⟩ }]
  type_ne := by decide +kernel

theorem scan_struct_mesh :
    let before := session .empty [.scan {} "REFLECTED() struct Vertex { }; REFLECTED() struct Index { };"]
    let handle (name : String) : TypeId := if name = "Vertex" then ⟨0⟩ else ⟨1⟩
    (before.scan {} exampleStruct.text).catalog.records = before.catalog.records ++ [exampleStruct.type handle] := by
  intro before handle
  obtain ⟨hshows, hscan⟩ := scan_struct exampleStruct before handle (by decide) (by decide +kernel) (by decide +kernel)
  exact (hscan exampleStruct.text hshows).2.1

end HeaderAtlas
