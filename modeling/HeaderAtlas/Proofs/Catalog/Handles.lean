import HeaderAtlas.Proofs.Catalog.Linking
import HeaderAtlas.Proofs.WellFormed

/-!
# The handles in a catalog

Handles are stored in many places: in records, in the properties and methods of records, in template arguments at any depth, in free
functions and globals, and in the tables of the catalog itself. `Catalog.storedHandles` lists them all. That those in records, functions
and globals have records (`Catalog.Closed`) is kept by every operation that is given handles with records only, and by settlement,
which enters declared types with their bases; the tables have handles with records by the invariant of catalogs.
-/

namespace HeaderAtlas

mutual

/-- The handles in a template argument, at any depth. -/
def TemplateArg.handles : TemplateArg → List TypeId
  | .int _ => []
  | .type { type, templateArgs, bitSource, .. } => type :: (bitSource.toList ++ handlesOfArgs templateArgs)

/-- The handles in template arguments, at any depth. -/
def handlesOfArgs : List TemplateArg → List TypeId
  | [] => []
  | a :: rest => a.handles ++ handlesOfArgs rest

end

/-- The handles in a property: its type, the enum that names its bits, and those in its template arguments. -/
def Property.handles (p : Property) : List TypeId := p.type :: (p.bitSource.toList ++ handlesOfArgs p.templateArgs)

/-- The handles in a method: the type it is declared in, and those in its return value and its parameters. -/
def Method.handles (m : Method) : List TypeId := m.declaring.toList ++ m.returnValue.handles ++ m.params.flatMap Property.handles

/-- The handles that say how a type stands to other types. -/
def TypeDef.links (d : TypeDef) : List TypeId :=
  d.bases ++ d.derived ++ d.containing.toList ++ d.subTypes ++ d.templateElement.toList ++ d.enumUnderlying.toList

/-- The handles in a record. -/
def TypeDef.handles (d : TypeDef) : List TypeId :=
  d.links ++ d.properties.flatMap Property.handles ++ d.methods.flatMap Method.handles

/-- The handles in the tables of a catalog. -/
def Catalog.tableHandles (c : Catalog) : List TypeId :=
  c.redirect ++ c.names.map (·.2) ++ c.order ++ c.placeholders.map (·.2) ++ c.superseded.map (·.1) ++ c.superseded.map (·.2)

/-- All handles that are stored in a catalog. -/
def Catalog.storedHandles (c : Catalog) : List TypeId :=
  c.records.flatMap TypeDef.handles ++ c.functions.flatMap Method.handles ++ c.globals.flatMap Property.handles ++ c.tableHandles

/-- The handles of a type argument are those of its use. -/
theorem TemplateArg.handles_type (p : Property) : (TemplateArg.type p).handles = p.handles := by
  cases p
  rw [TemplateArg.handles, Property.handles]

/-- Where the handles of a changed record come from, list by list. -/
theorem TypeDef.handles_of_lists {d d' : TypeDef} {new : TypeId → Prop}
    (h : ∀ id, id ∈ d'.links ∨ (∃ p ∈ d'.properties, id ∈ p.handles) ∨ (∃ m ∈ d'.methods, id ∈ m.handles) →
      (id ∈ d.links ∨ (∃ p ∈ d.properties, id ∈ p.handles) ∨ ∃ m ∈ d.methods, id ∈ m.handles) ∨ new id) :
    ∀ id ∈ d'.handles, id ∈ d.handles ∨ new id := by
  intro id hid
  simp only [TypeDef.handles, List.mem_append, List.mem_flatMap, or_assoc] at hid ⊢
  simpa only [or_assoc] using h id hid

namespace Catalog

variable {c c' : Catalog}

/-- The handles in records, functions and globals have records. -/
structure Closed (c : Catalog) : Prop where
  record : ∀ b, ∀ id ∈ (c.record b).handles, c.Has id
  function : ∀ m ∈ c.functions, ∀ id ∈ m.handles, c.Has id
  global : ∀ p ∈ c.globals, ∀ id ∈ p.handles, c.Has id

/-- The empty catalog stores no handles. -/
theorem closed_empty : empty.Closed where
  record _ _ h := absurd h List.not_mem_nil
  function _ h := absurd h List.not_mem_nil
  global _ h := absurd h List.not_mem_nil

/-- A record more, of which the handles have records already. -/
theorem Closed.concat (h : c.Closed) {d : TypeDef} (hrecords : c'.records = c.records ++ [d])
    (hd : ∀ id ∈ d.handles, c.Has id) (hfunctions : c'.functions = c.functions) (hglobals : c'.globals = c.globals) :
    c'.Closed := by
  have hhas : ∀ {id}, c.Has id → c'.Has id := fun hid => (has_concat hrecords _).mpr (Or.inl hid)
  refine ⟨?_, ?_, ?_⟩
  · intro b id hid
    rw [record_concat hrecords] at hid
    split at hid
    · exact hhas (hd id hid)
    · exact hhas (h.record b id hid)
  · rw [hfunctions]
    exact fun m hm id hid => hhas (h.function m hm id hid)
  · rw [hglobals]
    exact fun p hp id hid => hhas (h.global p hp id hid)

/-- A type may be declared that holds handles with records. -/
theorem Closed.register (h : c.Closed) {d : TypeDef} (hd : ∀ id ∈ d.handles, c.Has id) : (c.register d).2.Closed :=
  h.concat (records_register c d) hd (functions_register c d) (globals_register c d)

/-- A placeholder holds no handles. -/
theorem Closed.placeholder (h : c.Closed) (name : String) : (c.placeholder name).2.Closed := by
  rcases c.placeholder_snd name with hs | ⟨-, hs⟩
  · rw [hs]
    exact h
  · rw [hs]
    exact h.concat (records_hold c name) (fun id hid => absurd hid List.not_mem_nil) rfl rfl

/-- An edit that brings in handles with records only. -/
theorem Closed.setRecord (h : c.Closed) (i : TypeId) {f : TypeDef → TypeDef}
    (hf : ∀ d, ∀ id ∈ (f d).handles, id ∈ d.handles ∨ c.Has id) : (c.setRecord i f).Closed := by
  have hhas : ∀ {id}, c.Has id → (c.setRecord i f).Has id := by
    intro id hid
    rw [Has, length_records_setRecord]
    exact hid
  refine ⟨?_, fun m hm id hid => hhas (h.function m hm id hid), fun p hp id hid => hhas (h.global p hp id hid)⟩
  intro b id hid
  rw [record_setRecord] at hid
  split at hid
  · rcases hf _ id hid with hold | hnew
    · exact hhas (h.record b id hold)
    · exact hhas hnew
  · exact hhas (h.record b id hid)

/-- A function may be added that holds handles with records. -/
theorem Closed.addFunction (h : c.Closed) {m : Method} (hm : ∀ id ∈ m.handles, c.Has id) : (c.addFunction m).Closed := by
  refine ⟨h.record, ?_, h.global⟩
  intro m' hm' id hid
  rcases List.mem_append.mp hm' with hold | hnew
  · exact h.function m' hold id hid
  · rw [List.mem_singleton.mp hnew] at hid
    exact hm id hid

/-- A global may be added that holds handles with records. -/
theorem Closed.addGlobal (h : c.Closed) {p : Property} (hp : ∀ id ∈ p.handles, c.Has id) : (c.addGlobal p).Closed := by
  refine ⟨h.record, h.function, ?_⟩
  intro p' hp' id hid
  rcases List.mem_append.mp hp' with hold | hnew
  · exact h.global p' hold id hid
  · rw [List.mem_singleton.mp hnew] at hid
    exact hp id hid

/-! ## Settlement -/

/-- A derived type is entered by a handle with a record. -/
theorem Closed.linkBase (h : c.Closed) {t : TypeId} (ht : c.Has t) (base : TypeId) : (linkBase t c base).Closed := by
  unfold Catalog.linkBase
  dsimp only
  split
  · exact h
  · refine h.setRecord _ ?_
    intro d id hid
    split at hid
    · exact Or.inl hid
    · simp only [TypeDef.handles, TypeDef.links, List.mem_append, List.mem_singleton] at hid ⊢
      grind

/-- A declared type is entered with all its bases. -/
theorem Closed.linkBases (h : c.Closed) {t : TypeId} (ht : c.Has t) : (c.linkBases t).Closed := by
  have hfold : ∀ (bases : List TypeId) (c : Catalog), c.Closed → c.Has t → (bases.foldl (Catalog.linkBase t) c).Closed := by
    intro bases
    induction bases with
    | nil => exact fun c hc _ => hc
    | cons base bases ih =>
      intro c hc ht
      exact ih _ (hc.linkBase ht base) (((sameFrame_linkBase t c base).has_iff t).mpr ht)
  exact hfold _ c h ht

/-- Settlement stores handles with records only. -/
theorem Closed.settle (h : c.Closed) (hc : c.Inv) : c.settle.2.Closed := by
  have hfold : ∀ (ts : List TypeId) (c : Catalog), c.Closed → (∀ t ∈ ts, c.Has t) → (ts.foldl Catalog.linkBases c).Closed := by
    intro ts
    induction ts with
    | nil => exact fun c hc _ => hc
    | cons t ts ih =>
      intro c hc hts
      obtain ⟨ht, hts⟩ := List.forall_mem_cons.mp hts
      exact ih _ (hc.linkBases ht) fun u hu => ((sameFrame_linkBases c t).has_iff u).mpr (hts u hu)
  have hredirects : c.settleRedirects.1.Closed := by
    rw [hc.pointed_settleRedirects.frame]
    exact ⟨h.record, h.function, h.global⟩
  exact hfold _ _ hredirects fun t ht => hc.settleRedirects.has_of_mem_order ht

/-! ## The tables -/

/-- The handles in the tables have records. -/
theorem Inv.has_of_mem_tableHandles (hc : c.Inv) (hu : c.Unambiguous) {id : TypeId} (h : id ∈ c.tableHandles) : c.Has id := by
  have hwell := hc.wellFormed hu
  simp only [tableHandles, List.mem_append, List.mem_map, Prod.exists] at h
  rcases h with ((((h | ⟨name, _, h, rfl⟩) | h) | ⟨name, _, h, rfl⟩) | ⟨_, b, h, rfl⟩) | ⟨a, _, h, rfl⟩
  · exact hc.has_of_mem_redirect h
  · exact (hwell.registered name _ h).1
  · exact hc.has_of_mem_order h
  · exact (hwell.placeholder name _ h).1
  · exact (hc.superseded h).1.source
  · exact (hc.superseded h).1.target.1

/-- All stored handles have records. -/
theorem Closed.has_of_mem_storedHandles (h : c.Closed) (hc : c.Inv) (hu : c.Unambiguous) {id : TypeId}
    (hid : id ∈ c.storedHandles) : c.Has id := by
  simp only [storedHandles, List.mem_append, List.mem_flatMap] at hid
  rcases hid with ((⟨d, hd, hid⟩ | ⟨m, hm, hid⟩) | ⟨p, hp, hid⟩) | hid
  · obtain ⟨i, hi, rfl⟩ := List.getElem_of_mem hd
    refine h.record ⟨i⟩ id ?_
    rw [Catalog.record, List.getElem?_eq_getElem hi, Option.getD_some]
    exact hid
  · exact h.function m hm id hid
  · exact h.global p hp id hid
  · exact hc.has_of_mem_tableHandles hu hid

end Catalog

end HeaderAtlas
