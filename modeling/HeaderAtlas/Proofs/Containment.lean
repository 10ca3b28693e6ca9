import HeaderAtlas.Proofs.Made

/-!
# Types declared in types

A type that is declared in another is entered with it, and the other with the type. The two entries are made together and never
changed (`Catalog.Linked`), so that they say the same of all records; and as a type is made before those declared in it, going from a
type to the one around it comes to an end (`session_nesting`).
-/

namespace HeaderAtlas

namespace Catalog

variable {c c' : Catalog} {owner child : TypeId}

/-- A type is declared in another exactly if the other lists it, which it does once; and the other was made before. -/
structure Linked (c : Catalog) : Prop where
  mem_subTypes_iff : ∀ {p i}, i ∈ (c.record p).subTypes ↔ (c.record i).containing = some p
  nodup : ∀ p, (c.record p).subTypes.Nodup
  later : ∀ {p i}, (c.record i).containing = some p → p.index < i.index

namespace Linked

theorem empty : Catalog.empty.Linked where
  mem_subTypes_iff := ⟨fun h => absurd h List.not_mem_nil, fun h => absurd h (Option.some_ne_none _).symm⟩
  nodup _ := .nil
  later h := absurd h (Option.some_ne_none _).symm

/-- What says the same of where types are declared is linked as well. -/
theorem congr (h : c.Linked)
    (hsame : ∀ id, (c'.record id).containing = (c.record id).containing ∧ (c'.record id).subTypes = (c.record id).subTypes) :
    c'.Linked := by
  refine ⟨?_, ?_, ?_⟩
  · intro p i
    rw [(hsame p).2, (hsame i).1]
    exact h.mem_subTypes_iff
  · intro p
    rw [(hsame p).2]
    exact h.nodup p
  · intro p i
    rw [(hsame i).1]
    exact h.later

/-- A type that is declared in no other yet is listed nowhere, so that its entry is the only one. -/
theorem nest (h : c.Linked) (hnest : c.Nests owner child) : (c.nest owner child).Linked := by
  have hnot : ∀ p, child ∉ (c.record p).subTypes := by
    intro p hp
    have hcontaining := h.mem_subTypes_iff.mp hp
    rw [hnest.child.containing] at hcontaining
    exact Option.some_ne_none p hcontaining.symm
  refine ⟨?_, ?_, ?_⟩
  · -- the two new entries meet in one case; in the mixed ones the type is listed nowhere, or the other stays as it was
    intro p i
    rw [hnest.subTypes_nest, hnest.containing_nest]
    by_cases hp : p = owner
    · subst hp
      by_cases hi : i = child
      · simp [hi]
      · simp [hi, h.mem_subTypes_iff]
    · by_cases hi : i = child
      · subst hi
        simp [hp, hnot p, Ne.symm hp]
      · simp [hp, hi, h.mem_subTypes_iff]
  · intro p
    rw [hnest.subTypes_nest]
    split
    · rw [← List.concat_eq_append]
      exact (h.nodup p).concat (hnot p)
    · exact h.nodup p
  · intro p i
    rw [hnest.containing_nest]
    split
    · rename_i hi
      intro hp
      rw [← Option.some.inj hp, hi]
      exact hnest.later
    · exact h.later

/-- Going from a type to the one around it comes to an end. -/
theorem wellFounded (h : c.Linked) : WellFounded fun p i => (c.record i).containing = some p :=
  Subrelation.wf (fun hp => h.later hp) (InvImage.wf TypeId.index Nat.lt_wfRel.wf)

end Linked

theorem Made.linked {φ : ScanOptions → Prop} (h : c.Made φ) : c.Linked := by
  induction h with
  | empty => exact .empty
  | step _ _ hstep ih => exact ih.congr fun id => (hstep.record id).nesting
  | nest _ hnest ih => exact ih.nest hnest
  | same _ hsame ih =>
    refine ih.congr fun id => ?_
    obtain ⟨_, _, hrecord⟩ := hsame.record id
    rw [hrecord]
    exact ⟨rfl, rfl⟩

end Catalog

/-- Whatever headers a session reads, and whenever it settles its catalog, a type lists another as declared in it exactly if the other
is entered as declared there; it lists it once, and was made before it; so types declared in types form a forest. -/
theorem session_nesting (o : Origin) (calls : List Call) (h : ∀ call ∈ calls, call.BringsNone) :
    let c := (session o calls).catalog
    (∀ p i : TypeId, (i ∈ (c.record p).subTypes ↔ (c.record i).containing = some p) ∧
      (i ∈ (c.record p).subTypes → p.index < i.index)) ∧
      (∀ p : TypeId, (c.record p).subTypes.Nodup) ∧ WellFounded fun p i : TypeId => (c.record i).containing = some p := by
  have hmade := session_made (φ := fun _ => True) trivial o calls h fun _ _ _ => trivial
  have hlinked := hmade.linked
  refine ⟨?_, hlinked.nodup, hlinked.wellFounded⟩
  exact fun p i => ⟨hlinked.mem_subTypes_iff, fun hi => hlinked.later (hlinked.mem_subTypes_iff.mp hi)⟩

/-- Types of one name in each other, one declared twice in the same type, and bodies that do not end. -/
theorem session_nesting_of_redeclared :
    let calls : List Call := [.scan {} "REFLECTED() class A { REFLECTED() struct B { REFLECTED() enum A { X }; };
        REFLECTED() struct B { }; };",
      .settle, .scan {} "REFLECTED() class A \x7b REFLECTED() struct B \x7b REFLECTED() struct B \x7b"]
    let c := (session .empty calls).catalog
    (∀ call ∈ calls, call.BringsNone) ∧
      (c.records.map fun d => (d.name, d.containing.map TypeId.index, d.subTypes.map TypeId.index)) =
        [("A", none, [1, 3]), ("B", some 0, [2]), ("A", some 1, []), ("B", some 0, []), ("A", none, [5]), ("B", some 4, [6]),
          ("B", some 5, [])] ∧
      (⟨3⟩ ∈ (c.record ⟨0⟩).subTypes ↔ (c.record ⟨3⟩).containing = some ⟨0⟩) ∧ (c.record ⟨0⟩).subTypes.Nodup ∧
      WellFounded fun p i : TypeId => (c.record i).containing = some p := by
  intro calls c
  have hcalls : ∀ call ∈ calls, call.BringsNone := by simp [calls, Call.BringsNone]
  have hread : (c.records.map fun d => (d.name, d.containing.map TypeId.index, d.subTypes.map TypeId.index)) =
      [("A", none, [1, 3]), ("B", some 0, [2]), ("A", some 1, []), ("B", some 0, []), ("A", none, [5]), ("B", some 4, [6]),
        ("B", some 5, [])] := by decide +kernel
  obtain ⟨hlinks, hnodup, hwf⟩ := session_nesting .empty calls hcalls
  exact ⟨hcalls, hread, (hlinks ⟨0⟩ ⟨3⟩).1, hnodup ⟨0⟩, hwf⟩

end HeaderAtlas
