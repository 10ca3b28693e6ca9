import HeaderAtlas.Proofs.Made

/-!
# Classes and enums

No record is that of an enum and of a struct or class at once (`TypeDef.OfOneKind`): what has entries has no bases, members or types
in it, and what is marked as an enum has entries. A record gets its entries when it is declared and none later, and only a type
without entries gets anything else (`RecordStep.ofOneKind`, `Catalog.Nests.ofOneKind`); a name that is declared as an enum and as a
class has a record for each.
-/

namespace HeaderAtlas

/-- The record is not that of an enum and of a struct or class at once. -/
structure TypeDef.OfOneKind (d : TypeDef) : Prop where
  enum : d.enumValues ≠ [] →
    d.flags.isClass = false ∧ d.bases = [] ∧ d.properties = [] ∧ d.methods = [] ∧ d.subTypes = []
  marked : d.flags.isScopedEnum = true ∨ d.enumUnderlying ≠ none → d.enumValues ≠ []

/-- What has no entries and is not marked as an enum may have all else. -/
theorem TypeDef.ofOneKind_of_not_enum {d : TypeDef} (hvalues : d.enumValues = [])
    (hmarks : d.flags.isScopedEnum = false ∧ d.enumUnderlying = none) : d.OfOneKind := by
  refine ⟨absurd hvalues, ?_⟩
  rintro (hscoped | hunderlying)
  · exact absurd (hmarks.1.symm.trans hscoped) Bool.false_ne_true
  · exact absurd hmarks.2 hunderlying

variable {options : ScanOptions} {c : Catalog} {id owner child : TypeId} {d : TypeDef}

/-- A type that is declared is an enum or not; all that is added is added to what is none. -/
theorem RecordStep.ofOneKind (h : RecordStep options c id d) (hid : (c.record id).OfOneKind) : d.OfOneKind := by
  cases h with
  | same => exact hid
  | declare d fresh new =>
    by_cases hvalues : d.enumValues = []
    · exact TypeDef.ofOneKind_of_not_enum hvalues (fresh.not_enum hvalues)
    · obtain ⟨hbases, -, -, hsubTypes⟩ := fresh.unlinked
      exact ⟨fun _ => ⟨fresh.not_class hvalues, hbases, fresh.properties, fresh.methods, hsubTypes⟩, fun _ => hvalues⟩
  | placeholder name new => exact TypeDef.ofOneKind_of_not_enum rfl ⟨rfl, rfl⟩
  | base owner _ => exact ⟨absurd owner.not_enum, hid.marked⟩
  | traits _ => exact ⟨hid.enum, hid.marked⟩
  | properties owner _ => exact ⟨absurd owner.not_enum, hid.marked⟩
  | method owner _ _ _ => exact ⟨absurd owner.not_enum, hid.marked⟩

/-- A type is entered as declared in one that is no enum. -/
theorem Catalog.Nests.ofOneKind (h : c.Nests owner child) (hid : (c.record id).OfOneKind) :
    ((c.nest owner child).record id).OfOneKind := by
  rw [h.record_nest]
  split
  · exact ⟨hid.enum, hid.marked⟩
  · split
    · rename_i howner
      exact ⟨absurd (howner ▸ h.owner.not_enum), hid.marked⟩
    · exact hid

theorem Catalog.Made.ofOneKind {φ : ScanOptions → Prop} (h : c.Made φ) : ∀ id, (c.record id).OfOneKind := by
  induction h with
  | empty => exact fun id => TypeDef.ofOneKind_of_not_enum rfl ⟨rfl, rfl⟩
  | step _ _ hstep ih => exact fun id => (hstep.record id).ofOneKind (ih id)
  | nest _ hnest ih => exact fun id => hnest.ofOneKind (ih id)
  | same _ hsame ih =>
    intro id
    obtain ⟨_, _, hrecord⟩ := hsame.record id
    rw [hrecord]
    exact ⟨(ih id).enum, (ih id).marked⟩

/-- Whatever headers a session reads, a record with entries is that of no class and has no bases, members or types in it, and a record
that is marked as an enum has entries. -/
theorem session_enums (o : Origin) (calls : List Call) (h : ∀ call ∈ calls, call.BringsNone) (id : TypeId) :
    let d := (session o calls).catalog.record id
    (d.enumValues ≠ [] → d.flags.isClass = false ∧ d.bases = [] ∧ d.properties = [] ∧ d.methods = [] ∧ d.subTypes = []) ∧
      (d.flags.isScopedEnum = true ∨ d.enumUnderlying ≠ none → d.enumValues ≠ []) := by
  have hmade := session_made (φ := fun _ => True) trivial o calls h fun _ _ _ => trivial
  exact ⟨(hmade.ofOneKind id).enum, (hmade.ofOneKind id).marked⟩

/-- A name that is declared as an enum, as a class with an enum in it, and as an enum that is cut off. -/
theorem session_enums_of_redeclared :
    let calls : List Call := [.scan {} "REFLECTED() enum class E : B { A }; REFLECTED() class E : B { REFLECTED() enum In { X }; };",
      .settle, .scan {} "REFLECTED() enum E \x7b C"]
    let c := (session .empty calls).catalog
    (∀ call ∈ calls, call.BringsNone) ∧
      (c.records.map fun d => (d.name, d.flags.isClass, d.enumValues.length, d.subTypes.length)) =
        [("B", false, 0, 0), ("E", false, 1, 0), ("E", true, 0, 1), ("In", false, 1, 0), ("E", false, 1, 0)] ∧
      ((c.record ⟨1⟩).bases = [] ∧ (c.record ⟨1⟩).properties = []) ∧ (c.record ⟨2⟩).enumUnderlying = none := by
  intro calls c
  have hcalls : ∀ call ∈ calls, call.BringsNone := by simp [calls, Call.BringsNone]
  have hread : (c.records.map fun d => (d.name, d.flags.isClass, d.enumValues.length, d.subTypes.length)) =
        [("B", false, 0, 0), ("E", false, 1, 0), ("E", true, 0, 1), ("In", false, 1, 0), ("E", false, 1, 0)] ∧
      ((c.record ⟨1⟩).enumValues.length = 1 ∧ (c.record ⟨2⟩).enumValues.length = 0) := by decide +kernel
  obtain ⟨hrecords, hone, hnone⟩ := hread
  have hvalues : (c.record ⟨1⟩).enumValues ≠ [] := fun he => by simp [he] at hone
  obtain ⟨-, hbases, hproperties, -⟩ := (session_enums .empty calls hcalls ⟨1⟩).1 hvalues
  refine ⟨hcalls, hrecords, ⟨hbases, hproperties⟩, ?_⟩
  by_contra hunderlying
  exact (session_enums .empty calls hcalls ⟨2⟩).2 (Or.inr hunderlying) (List.length_eq_zero_iff.mp hnone)

end HeaderAtlas
