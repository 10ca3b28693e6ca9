import HeaderAtlas.Proofs.Catalog.Linking
import HeaderAtlas.Proofs.Stored

/-!
# How the catalog of a session is made

The catalog of a session that brings in no records from outside is made from the empty one by steps of reading, by entering types as
declared in others, and by what leaves the content of every record alone: a settlement, or the mark that a type known from the start
is a vector (`session_made`). What a session keeps is then proved by induction on `Catalog.Made`, with one case for each.
-/

namespace HeaderAtlas

namespace Catalog

variable {c c' : Catalog} {φ : ScanOptions → Prop}

/-- The second catalog says of no type anything else than the first, apart from whether it is a vector and which types derive from
it; and it has the functions and globals of the first. -/
structure SameContent (c c' : Catalog) : Prop where
  inv : c'.Inv
  has : ∀ {id}, c.Has id → c'.Has id
  record : ∀ id, ∃ derived isVector,
    c'.record id = { c.record id with derived, flags := { (c.record id).flags with isVector } }
  functions_eq : c'.functions = c.functions
  globals_eq : c'.globals = c.globals

/-- Catalogs with the same content have the same names. -/
theorem SameContent.keepsNames (h : c.SameContent c') : c.KeepsNames c' := by
  intro id hid
  obtain ⟨_, _, hrecord⟩ := h.record id
  exact ⟨h.has hid, by rw [hrecord]⟩

/-- What adds no function and no global each time adds none in the end. -/
theorem lists_foldl {α : Type} {f : Catalog → α → Catalog}
    (hf : ∀ c a, (f c a).functions = c.functions ∧ (f c a).globals = c.globals) (l : List α) :
    ∀ c, (l.foldl f c).functions = c.functions ∧ (l.foldl f c).globals = c.globals := by
  induction l with
  | nil => exact fun c => ⟨rfl, rfl⟩
  | cons a l ih => exact fun c => ⟨(ih _).1.trans (hf c a).1, (ih _).2.trans (hf c a).2⟩

/-- Entering derived types leaves functions and globals alone. -/
theorem lists_settle (c : Catalog) : c.settle.2.functions = c.settleRedirects.1.functions ∧
    c.settle.2.globals = c.settleRedirects.1.globals := by
  rw [settle_snd]
  refine lists_foldl (fun c id => lists_foldl ?_ _ c) _ _
  intro c base
  unfold linkBase
  dsimp only
  split <;> exact ⟨rfl, rfl⟩

/-- A settlement sets redirects and enters derived types. -/
theorem Inv.sameContent_settle (hc : c.Inv) : c.SameContent c.settle.2 := by
  have hpointed := hc.pointed_settleRedirects.frame
  refine ⟨hc.settle, hc.has_settle, ?_, ?_, ?_⟩
  · intro id
    have hrecord : c.settleRedirects.1.record id = c.record id := by
      rw [hpointed]
      rfl
    rw [settle_snd, Inv.record_foldl_linkBases id _ hc.settleRedirects, hrecord]
    split
    · exact ⟨_, (c.record id).flags.isVector, rfl⟩
    · exact ⟨(c.record id).derived, (c.record id).flags.isVector, rfl⟩
  · rw [(lists_settle c).1, hpointed]
    rfl
  · rw [(lists_settle c).2, hpointed]
    rfl

/-- A type marked as a vector says nothing else. -/
theorem Inv.sameContent_vector (hc : c.Inv) {id : TypeId} (hid : c.Stands id) :
    c.SameContent (c.edit id fun d => { d with flags := { d.flags with isVector := true } }) := by
  have hframe : SameFrame c (c.edit id fun d => { d with flags := { d.flags with isVector := true } }) :=
    .setRecord c _ (fun _ => rfl) (fun _ => rfl)
  refine ⟨hframe.inv hc, (hframe.has_iff _).mpr, ?_, rfl, rfl⟩
  intro i
  rw [hid.record_edit]
  split
  · exact ⟨(c.record i).derived, true, rfl⟩
  · exact ⟨(c.record i).derived, (c.record i).flags.isVector, rfl⟩

/-- Two edits of a type are one. -/
theorem edit_edit (c : Catalog) (id : TypeId) (f g : TypeDef → TypeDef) :
    (c.edit id f).edit id g = c.edit id fun d => g (f d) := by
  have hcanonical : (c.edit id f).canonical id = c.canonical id := by
    apply canonical_congr
    rfl
  rw [edit, hcanonical, edit, edit, setRecord, setRecord, setRecord, List.modify_modify_eq]
  rfl

/-- The catalog is made by reading with options that satisfy `φ`, and by what leaves the content of records alone. -/
inductive Made (φ : ScanOptions → Prop) : Catalog → Prop where
  | empty : Made φ .empty
  | step {options : ScanOptions} {c c' : Catalog} : Made φ c → φ options → ReadStep options c c' → Made φ c'
  | nest {c : Catalog} {owner child : TypeId} : Made φ c → c.Nests owner child → Made φ (c.nest owner child)
  | same {c c' : Catalog} : Made φ c → c.SameContent c' → Made φ c'

namespace Made

/-- What is made by reading and settling keeps the invariant. -/
theorem inv (h : c.Made φ) : c.Inv := by
  induction h with
  | empty => exact inv_empty
  | step _ _ hstep ih => exact ih.grows hstep.grows
  | nest _ hnest ih => exact ih.grows hnest.grows
  | same _ hsame _ => exact hsame.inv

/-- What is made by reading and settling may be read into. -/
theorem steps {options : ScanOptions} (h : c.Made φ) (hφ : φ options) (hsteps : ReadSteps options c c') : c'.Made φ := by
  induction hsteps with
  | refl => exact h
  | step _ hstep ih => exact ih.step hφ hstep
  | nest _ hnest _ ih => exact ih.nest hnest

/-- What is made by reading and settling may be settled. -/
theorem settle (h : c.Made φ) : c.settle.2.Made φ := h.same h.inv.sameContent_settle

/-- A type known from the start is declared as one of a header is. -/
theorem registerInternal (h : c.Made φ) (hφ : φ {}) (name : String) (code : Option String) (isPrimitive isTemplate : Bool) :
    (c.register (internalType name code isPrimitive isTemplate)).2.Made φ :=
  h.step hφ (.declare _ ⟨rfl, rfl, rfl, rfl, fun hne => absurd rfl hne, fun _ => ⟨rfl, rfl⟩⟩ fun id hid => by cases hid)

/-- An aggregate of numbers is declared as a type of a header is. -/
theorem addAggregate (h : c.Made φ) (hφ : φ {}) (a : Aggregate) : (c.addAggregate a).Made φ := by
  have hregistered := h.registerInternal hφ a.name (some a.code) true false
  have howner := h.inv.owner_register (d := internalType a.name (some a.code) true false) rfl
  unfold Catalog.addAggregate
  dsimp only
  generalize c.register (internalType a.name (some a.code) true false) = made at hregistered howner ⊢
  have hreference : ReadSteps {} made.2 (made.2.reference a.component).2 := .reference made.2 a.component
  have hcomponent := (hregistered.inv.name_reference a.component).1
  have howner' := hreference.owner hregistered.inv howner
  have hreferred := hregistered.steps hφ hreference
  generalize made.2.reference a.component = component at hcomponent howner' hreferred ⊢
  -- the components are added as members are, and the mark comes last
  have hmembers : Made φ (component.2.edit made.1 fun d => { d with properties := d.properties ++ a.fields.map fun name =>
      { name, type := component.1, modifiers := { visibility := .publicAccess } } }) := by
    refine hreferred.step hφ (.properties howner' ?_ ?_)
    · intro p hp
      obtain ⟨name, -, rfl⟩ := List.mem_map.mp hp
      exact Or.inl rfl
    · intro p hp i hi
      obtain ⟨name, -, rfl⟩ := List.mem_map.mp hp
      rw [Property.handles, Option.toList_none, List.nil_append, handlesOfArgs, List.mem_singleton] at hi
      rw [hi]
      exact hcomponent
  have hvector := hmembers.same (hmembers.inv.sameContent_vector ⟨?_, howner'.next_eq⟩)
  · rw [edit_edit] at hvector
    exact hvector
  · rw [Has, edit, length_records_setRecord]
    exact howner'.has

/-- A session begins with what is made that way. -/
theorem origin (hφ : φ {}) (o : Origin) : o.catalog.Made φ := by
  cases o with
  | empty => exact .empty
  | builtin =>
    refine List.foldlRecOn (motive := Made φ) _ _ ?_ fun c hc t _ => hc.registerInternal hφ t.1 t.2 false true
    refine List.foldlRecOn (motive := Made φ) _ _ ?_ fun c hc name _ => hc.registerInternal hφ name none false false
    refine List.foldlRecOn (motive := Made φ) _ _ ?_ fun c hc a _ => hc.addAggregate hφ a
    exact List.foldlRecOn (motive := Made φ) _ _ .empty fun c hc p _ => hc.registerInternal hφ p.1 p.2 true false

end Made

end Catalog

/-- The catalog of a session that brings in no records from outside is made by reading. -/
theorem session_made {φ : ScanOptions → Prop} (hφ : φ {}) (o : Origin) (calls : List Call) (h : ∀ call ∈ calls, call.BringsNone)
    (hscan : ∀ options source, Call.scan options source ∈ calls → φ options) : (session o calls).catalog.Made φ := by
  refine Recorder.perform_keeps_of_mem calls ?_ _ (.origin hφ o)
  intro call hcall r hr
  cases call with
  | register d => exact (h _ hcall).elim
  | edit id e => exact (h _ hcall).elim
  | reference name =>
    rw [Call.run, Recorder.catalog_reference]
    exact hr.steps hφ (.reference r.catalog name)
  | placeholder name => exact hr.step hφ (.placeholder name)
  | scan options source => exact hr.steps (hscan options source hcall) (r.scan_steps options source hr.inv)
  | settle =>
    rw [Call.run, Recorder.catalog_settle]
    exact hr.settle

end HeaderAtlas
