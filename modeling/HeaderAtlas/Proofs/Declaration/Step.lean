import HeaderAtlas.Proofs.Catalog.Handles
import HeaderAtlas.Proofs.Declaration.Special

/-!
# Reading step by step

What reading a header does to a catalog, one step at a time (`ReadStep`): a type is declared, a placeholder is made, a base, traits or
members are added to a type, a function or a global is added. Every step says what it may rely on: the handles it stores have records,
a type that gets bases or members is a record that stands for itself and is no enum (`Catalog.Owner`), a member is one that the options
let in (`Shown`), and a method is as its declaration says (`Method.Formed`). Between the steps, types that were made on the way are
entered as declared in others (`Catalog.nest`). What a step may do to one record is said once (`ReadStep.record`). Reading
(`ReadSteps`) keeps the invariant of catalogs, that a type may have members, that stored handles have records, and where the types that
were there are declared.
-/

namespace HeaderAtlas

open Catalog (Grows)

/-- A member of this visibility is read. -/
def Shown (options : ScanOptions) (v : Visibility) : Prop := v = .publicAccess ∨ options.includePrivate = true

/-- What a header knows of a type when it declares it: its name, its flags and, if it is an enum, its entries. -/
structure TypeDef.Fresh (d : TypeDef) : Prop where
  complete : d.flags.isComplete = true
  links : d.links = d.enumUnderlying.toList
  properties : d.properties = []
  methods : d.methods = []
  not_class : d.enumValues ≠ [] → d.flags.isClass = false
  not_enum : d.enumValues = [] → d.flags.isScopedEnum = false ∧ d.enumUnderlying = none

/-- A type is declared without bases, derived types, a type around it and types in it. -/
theorem TypeDef.Fresh.unlinked {d : TypeDef} (h : d.Fresh) :
    d.bases = [] ∧ d.derived = [] ∧ d.containing = none ∧ d.subTypes = [] := by
  have hlength := congrArg List.length h.links
  simp only [TypeDef.links, List.length_append] at hlength
  refine ⟨List.length_eq_zero_iff.mp (by omega), List.length_eq_zero_iff.mp (by omega), ?_, List.length_eq_zero_iff.mp (by omega)⟩
  exact Option.toList_eq_nil_iff.mp (List.length_eq_zero_iff.mp (by omega))

namespace Catalog

variable {c : Catalog} {owner child id : TypeId}

/-- The handle has a record that stands for itself. -/
structure Stands (c : Catalog) (id : TypeId) : Prop where
  has : c.Has id
  next_eq : c.next id = id

/-- The handle is that of a type that may have bases and members. -/
structure Owner (c : Catalog) (id : TypeId) : Prop extends c.Stands id where
  not_enum : (c.record id).enumValues = []

/-- The handle is that of a type that is not declared in another. -/
structure Outer (c : Catalog) (id : TypeId) : Prop extends c.Stands id where
  containing : (c.record id).containing = none

/-- What stands for itself is what an edit hits. -/
theorem Stands.record_edit (h : c.Stands owner) (f : TypeDef → TypeDef) (id : TypeId) :
    (c.edit owner f).record id = if id = owner then f (c.record id) else c.record id := by
  rw [edit, canonical_of_next_eq h.next_eq, record_setRecord]
  by_cases hid : id = owner
  · subst hid
    rw [if_pos ⟨rfl, h.has⟩, if_pos rfl]
  · rw [if_neg (fun he => hid he.1), if_neg hid]

/-- A type that is declared stands for itself. -/
theorem Inv.stands_register (hc : c.Inv) (d : TypeDef) : (c.register d).2.Stands (c.register d).1 := by
  have hinv := hc.register d
  have hlookup : (c.register d).2.lookup d.name = some (c.register d).1 := by
    rw [lookup_register, if_pos rfl]
    rfl
  exact ⟨(hinv.lookup_declared hlookup).1, hinv.next_of_lookup hlookup⟩

/-- A declared type that is no enum may have members. -/
theorem Inv.owner_register (hc : c.Inv) {d : TypeDef} (hd : d.enumValues = []) : (c.register d).2.Owner (c.register d).1 :=
  ⟨hc.stands_register d, (congrArg TypeDef.enumValues (record_register_self d)).trans hd⟩

/-- A declared type is in no other type at first. -/
theorem Inv.outer_register (hc : c.Inv) {d : TypeDef} (hd : d.containing = none) : (c.register d).2.Outer (c.register d).1 :=
  ⟨hc.stands_register d, (congrArg TypeDef.containing (record_register_self d)).trans hd⟩

/-- The second type may be entered as declared in the first: it was made later, and is not declared in another. -/
structure Nests (c : Catalog) (owner child : TypeId) : Prop where
  later : owner.index < child.index
  owner : c.Owner owner
  child : c.Outer child

/-- A type entered as declared in another. -/
def nest (c : Catalog) (owner child : TypeId) : Catalog :=
  (c.edit child fun d => { d with containing := some owner }).edit owner fun d => { d with subTypes := d.subTypes ++ [child] }

namespace Nests

/-- No type is nested in itself, for a nested one is made later. -/
theorem ne (h : c.Nests owner child) : owner ≠ child := fun he => Nat.ne_of_lt h.later (congrArg TypeId.index he)

/-- Both types are entered with each other, and no other record is changed. -/
theorem record_nest (h : c.Nests owner child) (id : TypeId) :
    (c.nest owner child).record id =
      if id = child then { c.record id with containing := some owner }
      else if id = owner then { c.record id with subTypes := (c.record id).subTypes ++ [child] }
      else c.record id := by
  have howner : (c.edit child fun d => { d with containing := some owner }).Stands owner := by
    refine ⟨?_, h.owner.next_eq⟩
    rw [Has, edit, length_records_setRecord]
    exact h.owner.has
  rw [nest, howner.record_edit, h.child.record_edit]
  by_cases hchild : id = child
  · rw [if_pos hchild, if_pos hchild, if_neg (fun he => h.ne (he.symm.trans hchild))]
  · rw [if_neg hchild, if_neg hchild]

/-- Nesting is two edits of content. -/
theorem grows (_ : c.Nests owner child) : Grows ReadChange c (c.nest owner child) := by
  have hchild : Grows ReadChange c (c.edit child fun d => { d with containing := some owner }) :=
    Grows.edit (.refl c) _ _ (fun _ => rfl) (fun _ => rfl) (fun _ => rfl)
  exact Grows.edit hchild _ _ (fun _ => rfl) (fun _ => rfl) (fun _ => rfl)

/-- Only one type gets a type around it. -/
theorem containing_nest (h : c.Nests owner child) (id : TypeId) :
    ((c.nest owner child).record id).containing = if id = child then some owner else (c.record id).containing := by
  rw [h.record_nest]
  split
  · rfl
  · split <;> rfl

/-- Only one type gets a type in it. -/
theorem subTypes_nest (h : c.Nests owner child) (id : TypeId) :
    ((c.nest owner child).record id).subTypes =
      if id = owner then (c.record id).subTypes ++ [child] else (c.record id).subTypes := by
  rw [h.record_nest]
  by_cases hchild : id = child
  · rw [if_pos hchild, if_neg fun he => h.ne (he.symm.trans hchild)]
  · rw [if_neg hchild]
    split <;> rfl

/-- All else that is said of the types stays the same. -/
theorem keeps_nest (h : c.Nests owner child) (id : TypeId) : ∃ containing subTypes,
    (c.nest owner child).record id = { c.record id with containing, subTypes } := by
  rw [h.record_nest]
  split
  · exact ⟨some owner, (c.record id).subTypes, rfl⟩
  · split
    · exact ⟨(c.record id).containing, (c.record id).subTypes ++ [child], rfl⟩
    · exact ⟨(c.record id).containing, (c.record id).subTypes, rfl⟩

end Nests

end Catalog

/-- One step of reading a header. -/
inductive ReadStep (options : ScanOptions) (c : Catalog) : Catalog → Prop where
  | declare (d : TypeDef) (fresh : d.Fresh) (has : ∀ id, d.enumUnderlying = some id → c.Has id) :
    ReadStep options c (c.register d).2
  | placeholder (name : String) : ReadStep options c (c.placeholder name).2
  | base {id base : TypeId} (owner : c.Owner id) (has : c.Has base) :
    ReadStep options c (c.edit id fun d => { d with bases := d.bases ++ [base] })
  | traits {id : TypeId} (stands : c.Stands id) (traits : Traits) :
    ReadStep options c (c.edit id fun d => { d with traits := d.traits ++ traits })
  | properties {id : TypeId} {ps : List Property} (owner : c.Owner id) (shown : ∀ p ∈ ps, Shown options p.modifiers.visibility)
    (has : ∀ p ∈ ps, ∀ i ∈ p.handles, c.Has i) :
    ReadStep options c (c.edit id fun d => { d with properties := d.properties ++ ps })
  | method {id : TypeId} {m : Method} (owner : c.Owner id) (declaring : m.declaring = some id)
    (shown : Shown options m.modifiers.visibility) (formed : m.Formed c) (has : ∀ i ∈ m.handles, c.Has i) :
    ReadStep options c (c.edit id fun d => { d with methods := d.methods ++ [m] })
  | addGlobal {p : Property} (shown : Shown options p.modifiers.visibility) (has : ∀ i ∈ p.handles, c.Has i) :
    ReadStep options c (c.addGlobal p)
  | addFunction {m : Method} (declaring : m.declaring = none) (shown : Shown options m.modifiers.visibility)
    (formed : m.Formed c) (has : ∀ i ∈ m.handles, c.Has i) : ReadStep options c (c.addFunction m)

/-- What a step of reading may make of the record of one handle. -/
inductive RecordStep (options : ScanOptions) (c : Catalog) (id : TypeId) : TypeDef → Prop where
  | same : RecordStep options c id (c.record id)
  | declare (d : TypeDef) (fresh : d.Fresh) (new : ¬c.Has id) : RecordStep options c id d
  | placeholder (name : String) (new : ¬c.Has id) : RecordStep options c id (.placeholder name)
  | base (owner : c.Owner id) (base : TypeId) :
    RecordStep options c id { c.record id with bases := (c.record id).bases ++ [base] }
  | traits (traits : Traits) : RecordStep options c id { c.record id with traits := (c.record id).traits ++ traits }
  | properties {ps : List Property} (owner : c.Owner id) (shown : ∀ p ∈ ps, Shown options p.modifiers.visibility) :
    RecordStep options c id { c.record id with properties := (c.record id).properties ++ ps }
  | method {m : Method} (owner : c.Owner id) (declaring : m.declaring = some id)
    (shown : Shown options m.modifiers.visibility) (formed : m.Formed c) :
    RecordStep options c id { c.record id with methods := (c.record id).methods ++ [m] }

namespace ReadStep

variable {options : ScanOptions} {c c' : Catalog}

/-- A step of reading makes the changes that reading may make. -/
theorem grows (h : ReadStep options c c') : Grows ReadChange c c' := by
  cases h with
  | declare d fresh has => exact .single (.register d) (.declare d fresh.complete fresh.unlinked.2.1)
  | placeholder name => exact .single (.placeholder name) (.placeholder name)
  | base owner has => exact Grows.edit (.refl c) _ _ (fun _ => rfl) (fun _ => rfl) (fun _ => rfl)
  | traits stands traits => exact Grows.edit (.refl c) _ _ (fun _ => rfl) (fun _ => rfl) (fun _ => rfl)
  | properties owner shown has => exact Grows.edit (.refl c) _ _ (fun _ => rfl) (fun _ => rfl) (fun _ => rfl)
  | method owner declaring shown formed has => exact Grows.edit (.refl c) _ _ (fun _ => rfl) (fun _ => rfl) (fun _ => rfl)
  | @addGlobal p shown has => exact .single (.addGlobal p) (.addGlobal p)
  | @addFunction m declaring shown formed has => exact .single (.addFunction m) (.addFunction m)

/-- A step makes a record or changes one, and leaves the others. -/
theorem record (h : ReadStep options c c') (id : TypeId) : RecordStep options c id (c'.record id) := by
  have hmade : ∀ {c' : Catalog} {d : TypeDef}, c'.records = c.records ++ [d] → (¬c.Has id → RecordStep options c id d) →
      RecordStep options c id (c'.record id) := by
    intro c' d hrecords hd
    rw [Catalog.record_concat hrecords]
    split
    · rename_i hid
      exact hd (Nat.not_lt.mpr (Nat.le_of_eq hid.symm))
    · exact .same
  have hchanged : ∀ {i : TypeId} {f : TypeDef → TypeDef}, c.Stands i → (id = i → RecordStep options c id (f (c.record id))) →
      RecordStep options c id ((c.edit i f).record id) := by
    intro i f hi hf
    rw [hi.record_edit]
    split
    · rename_i hid
      exact hf hid
    · exact .same
  cases h with
  | declare d fresh has => exact hmade (Catalog.records_register c d) (.declare d fresh)
  | placeholder name =>
    rcases c.placeholder_snd name with hs | ⟨-, hs⟩
    · rw [hs]
      exact .same
    · rw [hs]
      exact hmade (Catalog.records_hold c name) (.placeholder name)
  | @base i base owner has =>
    refine hchanged owner.toStands ?_
    rintro rfl
    exact .base owner base
  | traits stands traits => exact hchanged stands fun _ => .traits traits
  | properties owner shown has =>
    refine hchanged owner.toStands ?_
    rintro rfl
    exact .properties owner shown
  | method owner declaring shown formed has =>
    refine hchanged owner.toStands ?_
    rintro rfl
    exact .method owner declaring shown formed
  | addGlobal shown has => exact .same
  | addFunction declaring shown formed has => exact .same

/-- A step may add one function. -/
theorem function_mem (h : ReadStep options c c') : ∀ m ∈ c'.functions,
    m ∈ c.functions ∨ m.declaring = none ∧ Shown options m.modifiers.visibility ∧ m.Formed c := by
  intro m hm
  cases h with
  | declare d fresh has =>
    rw [Catalog.functions_register] at hm
    exact Or.inl hm
  | placeholder name =>
    rcases c.placeholder_snd name with hs | ⟨-, hs⟩
    · rw [hs] at hm
      exact Or.inl hm
    · rw [hs] at hm
      exact Or.inl hm
  | addFunction declaring shown formed has =>
    rcases List.mem_append.mp hm with hold | hnew
    · exact Or.inl hold
    · obtain rfl := List.mem_singleton.mp hnew
      exact Or.inr ⟨declaring, shown, formed⟩
  | base | traits | properties | method | addGlobal => exact Or.inl hm

/-- A step may add one global. -/
theorem global_mem (h : ReadStep options c c') : ∀ p ∈ c'.globals, p ∈ c.globals ∨ Shown options p.modifiers.visibility := by
  intro p hp
  cases h with
  | declare d fresh has =>
    rw [Catalog.globals_register] at hp
    exact Or.inl hp
  | placeholder name =>
    rcases c.placeholder_snd name with hs | ⟨-, hs⟩
    · rw [hs] at hp
      exact Or.inl hp
    · rw [hs] at hp
      exact Or.inl hp
  | addGlobal shown has =>
    rcases List.mem_append.mp hp with hold | hnew
    · exact Or.inl hold
    · obtain rfl := List.mem_singleton.mp hnew
      exact Or.inr shown
  | base | traits | properties | method | addFunction => exact Or.inl hp

/-- A step stores handles that have records. -/
theorem closed (h : ReadStep options c c') (hc : c.Closed) : c'.Closed := by
  cases h with
  | declare d fresh has =>
    refine hc.register ?_
    intro id hid
    rw [TypeDef.handles, fresh.links, fresh.properties, fresh.methods, List.flatMap_nil, List.flatMap_nil, List.append_nil,
      List.append_nil, Option.mem_toList] at hid
    exact has id hid
  | placeholder name => exact hc.placeholder name
  | base owner has =>
    refine hc.setRecord _ fun d => TypeDef.handles_of_lists ?_
    intro id hid
    simp only [TypeDef.links, List.mem_append, List.mem_singleton] at hid ⊢
    grind
  | traits stands traits => exact hc.setRecord _ fun d id hid => Or.inl hid
  | properties owner shown has =>
    refine hc.setRecord _ fun d => TypeDef.handles_of_lists ?_
    intro id hid
    simp only [TypeDef.links, List.mem_append] at hid ⊢
    grind
  | method owner declaring shown formed has =>
    refine hc.setRecord _ fun d => TypeDef.handles_of_lists ?_
    intro id hid
    simp only [TypeDef.links, List.mem_append, List.mem_singleton] at hid ⊢
    grind
  | addGlobal shown has => exact hc.addGlobal has
  | addFunction declaring shown formed has => exact hc.addFunction has

end ReadStep

namespace RecordStep

variable {options : ScanOptions} {c : Catalog} {id : TypeId} {d : TypeDef}

/-- A step leaves the entries of enums alone. -/
theorem enumValues (h : RecordStep options c id d) (hid : c.Has id) : d.enumValues = (c.record id).enumValues := by
  cases h with
  | declare d fresh new => exact absurd hid new
  | placeholder name new => exact absurd hid new
  | same | base | traits | properties | method => rfl

/-- A step does not say where a type is declared: a type that it makes is declared in no other, and no other in it. -/
theorem nesting (h : RecordStep options c id d) :
    d.containing = (c.record id).containing ∧ d.subTypes = (c.record id).subTypes := by
  cases h with
  | declare d fresh new =>
    rw [Catalog.record_of_not_has new]
    exact fresh.unlinked.2.2
  | placeholder name new =>
    rw [Catalog.record_of_not_has new]
    exact ⟨rfl, rfl⟩
  | same | base | traits | properties | method => exact ⟨rfl, rfl⟩

/-- The properties that a step adds are some that the options let in. -/
theorem property_mem (h : RecordStep options c id d) : ∀ p ∈ d.properties,
    p ∈ (c.record id).properties ∨ Shown options p.modifiers.visibility := by
  intro p hp
  cases h with
  | declare d fresh new =>
    rw [fresh.properties] at hp
    exact absurd hp List.not_mem_nil
  | placeholder name new => exact absurd hp List.not_mem_nil
  | properties owner shown =>
    rcases List.mem_append.mp hp with hold | hnew
    · exact Or.inl hold
    · exact Or.inr (shown p hnew)
  | same | base | traits | method => exact Or.inl hp

/-- A method that a step adds is one of the type, and as its declaration says. -/
theorem method_mem (h : RecordStep options c id d) : ∀ m ∈ d.methods, m ∈ (c.record id).methods ∨
    c.Has id ∧ m.declaring = some id ∧ Shown options m.modifiers.visibility ∧ m.Formed c := by
  intro m hm
  cases h with
  | declare d fresh new =>
    rw [fresh.methods] at hm
    exact absurd hm List.not_mem_nil
  | placeholder name new => exact absurd hm List.not_mem_nil
  | method owner declaring shown formed =>
    rcases List.mem_append.mp hm with hold | hnew
    · exact Or.inl hold
    · obtain rfl := List.mem_singleton.mp hnew
      exact Or.inr ⟨owner.has, declaring, shown, formed⟩
  | same | base | traits | properties => exact Or.inl hm

end RecordStep

/-- A type entered as declared in another is a handle that has a record, and so is the other. -/
theorem Catalog.Nests.closed {c : Catalog} {owner child : TypeId} (h : c.Nests owner child) (hc : c.Closed) :
    (c.nest owner child).Closed := by
  have hchild : (c.edit child fun d => { d with containing := some owner }).Closed := by
    refine hc.setRecord _ fun d => TypeDef.handles_of_lists ?_
    intro i hi
    simp only [TypeDef.links, List.mem_append, Option.mem_toList] at hi ⊢
    grind [h.owner.has]
  have hhas : (c.edit child fun d => { d with containing := some owner }).Has child := by
    rw [Catalog.Has, Catalog.edit, Catalog.length_records_setRecord]
    exact h.child.has
  refine hchild.setRecord _ fun d => TypeDef.handles_of_lists ?_
  intro i hi
  simp only [TypeDef.links, List.mem_append, List.mem_singleton] at hi ⊢
  grind

/-- The second catalog comes from the first by steps of reading, and by entering types that were made on the way as declared in
others. -/
inductive ReadSteps (options : ScanOptions) (c : Catalog) : Catalog → Prop where
  | refl : ReadSteps options c c
  | step {c' c'' : Catalog} : ReadSteps options c c' → ReadStep options c' c'' → ReadSteps options c c''
  | nest {c' : Catalog} {owner child : TypeId} : ReadSteps options c c' → c'.Nests owner child → ¬c.Has child →
    ReadSteps options c (c'.nest owner child)

namespace ReadSteps

variable {options : ScanOptions} {c c' c'' : Catalog}

/-- What reading does, step by step, only grows a catalog. -/
theorem grows (h : ReadSteps options c c') : Grows ReadChange c c' := by
  induction h with
  | refl => exact .refl c
  | step _ hstep ih => exact ih.trans hstep.grows
  | nest _ hnest _ ih => exact ih.trans hnest.grows

/-- Reading keeps the invariant. -/
theorem inv (h : ReadSteps options c c') (hc : c.Inv) : c'.Inv := hc.grows h.grows

/-- Reading keeps records. -/
theorem has (h : ReadSteps options c c') {id : TypeId} (hid : c.Has id) : c'.Has id := (h.grows.keepsNames hid).1

theorem trans (h : ReadSteps options c c') (h' : ReadSteps options c' c'') : ReadSteps options c c'' := by
  induction h' with
  | refl => exact h
  | step _ hstep ih => exact ih.step hstep
  | nest _ hnest hnew ih => exact ih.nest hnest fun hchild => hnew (h.has hchild)

/-- A reference is a step, or none. -/
theorem reference (c : Catalog) (name : String) : ReadSteps options c (c.reference name).2 := by
  unfold Catalog.reference
  split
  · exact .refl
  · exact .step .refl (.placeholder name)

/-- Reading sets no redirect of a record that is there. -/
theorem next (h : ReadSteps options c c') (hc : c.Inv) (id : TypeId) : c'.next id = c.next id :=
  (h.grows.keeps (P := fun x => x.Inv ∧ x.next id = c.next id)
    (fun _ x _ hx => ⟨hx.1.change x, (hx.1.next_change x id).trans hx.2⟩) ⟨hc, rfl⟩).2

/-- The entries of an enum and the type around a type stay what they are. -/
theorem kept (h : ReadSteps options c c') {id : TypeId} (hid : c.Has id) :
    (c'.record id).enumValues = (c.record id).enumValues ∧ (c'.record id).containing = (c.record id).containing := by
  induction h with
  | refl => exact ⟨rfl, rfl⟩
  | step h hlast ih =>
    have hrecord := hlast.record id
    exact ⟨(hrecord.enumValues (h.has hid)).trans ih.1, hrecord.nesting.1.trans ih.2⟩
  | @nest c' owner child h hlast hnew ih =>
    have hne : id ≠ child := fun he => hnew (he ▸ hid)
    obtain ⟨_, _, hrecord⟩ := hlast.keeps_nest id
    refine ⟨?_, ?_⟩
    · rw [hrecord]
      exact ih.1
    · rw [hlast.containing_nest, if_neg hne]
      exact ih.2

/-- A record that stands for itself keeps doing so. -/
theorem stands (h : ReadSteps options c c') (hc : c.Inv) {id : TypeId} (hid : c.Stands id) : c'.Stands id :=
  ⟨h.has hid.has, (h.next hc id).trans hid.next_eq⟩

/-- A type that may have members may have them still. -/
theorem owner (h : ReadSteps options c c') (hc : c.Inv) {id : TypeId} (hid : c.Owner id) : c'.Owner id :=
  ⟨h.stands hc hid.toStands, (h.kept hid.has).1.trans hid.not_enum⟩

/-- A type that was there is nested by no step, for only types made on the way are. -/
theorem outer (h : ReadSteps options c c') (hc : c.Inv) {id : TypeId} (hid : c.Outer id) : c'.Outer id :=
  ⟨h.stands hc hid.toStands, (h.kept hid.has).2.trans hid.containing⟩

/-- Stored handles have records, before and after reading. -/
theorem closed (h : ReadSteps options c c') (hc : c.Closed) : c'.Closed := by
  induction h with
  | refl => exact hc
  | step _ hlast ih => exact hlast.closed ih
  | nest _ hlast _ ih => exact hlast.closed ih

end ReadSteps

/-- The handles in the use of a type. -/
def TypeExpr.handles (e : TypeExpr) : List TypeId := e.type.toList ++ handlesOfArgs e.templateArgs

/-- The handles in the head of a member. -/
def MemberHead.handles (head : MemberHead) : List TypeId := head.type.handles ++ head.bitSource.toList

/-- The type around the place, if there is one, may have bases and members. -/
def Scope.Within (scope : Scope) (c : Catalog) : Prop := ∀ owner, scope.enclosing = some owner → c.Owner owner

namespace Reader

variable {options : ScanOptions} {r r' r'' start after : Reader} {scope : Scope}

/-- The second reader comes from the first by steps of reading. -/
def Steps (options : ScanOptions) (r r' : Reader) : Prop := ReadSteps options r.catalog r'.catalog

namespace Steps

theorem refl (r : Reader) : r.Steps options r := ReadSteps.refl

/-- One step of the catalog is reading. -/
theorem single (h : ReadStep options r.catalog r'.catalog) : r.Steps options r' := ReadSteps.refl.step h

theorem trans (h : r.Steps options r') (h' : r'.Steps options r'') : r.Steps options r'' := ReadSteps.trans h h'

/-- What leaves the catalog takes no steps. -/
theorem of_eq (h : r'.catalog = r.catalog) : r.Steps options r' := by
  rw [Steps, h]
  exact ReadSteps.refl

theorem inv (h : r.Steps options r') (hc : r.catalog.Inv) : r'.catalog.Inv := ReadSteps.inv h hc

theorem has (h : r.Steps options r') {id : TypeId} (hid : r.catalog.Has id) : r'.catalog.Has id := ReadSteps.has h hid

theorem stands (h : r.Steps options r') (hc : r.catalog.Inv) {id : TypeId} (hid : r.catalog.Stands id) : r'.catalog.Stands id :=
  ReadSteps.stands h hc hid

theorem owner (h : r.Steps options r') (hc : r.catalog.Inv) {id : TypeId} (hid : r.catalog.Owner id) : r'.catalog.Owner id :=
  ReadSteps.owner h hc hid

theorem outer (h : r.Steps options r') (hc : r.catalog.Inv) {id : TypeId} (hid : r.catalog.Outer id) : r'.catalog.Outer id :=
  ReadSteps.outer h hc hid

/-- A scope stays within the catalog. -/
theorem within (h : r.Steps options r') (hc : r.catalog.Inv) (hs : scope.Within r.catalog) : scope.Within r'.catalog :=
  fun id hid => h.owner hc (hs id hid)

/-- A step of a loop takes the steps of its body. -/
theorem resume (h : start.Steps options after) : start.Steps options (start.resume after) :=
  h.trans (.of_eq (catalog_resume start after))

end Steps

/-- The second reader comes from the first by steps of reading, and then the handles have records. -/
structure Yields (options : ScanOptions) (r r' : Reader) (ids : List TypeId) : Prop where
  steps : r.Steps options r'
  has : ∀ id ∈ ids, r'.catalog.Has id

/-- Where the cursor was does not matter. -/
theorem Yields.of_moveTo {c : Cursor} {ids : List TypeId} (h : (r.moveTo c).Yields options r' ids) : r.Yields options r' ids :=
  ⟨h.steps, h.has⟩

end Reader

end HeaderAtlas
