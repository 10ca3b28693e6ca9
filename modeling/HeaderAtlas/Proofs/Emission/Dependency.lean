import HeaderAtlas.Emission.Dependency
import HeaderAtlas.Proofs.TypeText.Grammar

/-!
# What a type depends on

Which types a record names, said without the lists that `namedTypes` puts together: its bases, and each type used by a property, a
return value or a parameter, the template arguments of all these included, however deep they are (`TypeDef.Names`). A type depends
on the types that stand for those it names (`Catalog.DependsOn`), and `dependencies` lists exactly these.
-/

namespace HeaderAtlas

/-- A use of a type names the type, and what the template arguments of the use name. -/
inductive Property.Names : Property → TypeId → Prop where
  | type (p : Property) : p.Names p.type
  | argument {p q : Property} {id : TypeId} (hq : TemplateArg.type q ∈ p.templateArgs) (h : q.Names id) : p.Names id

/-- A record names its bases and what is named in its properties and in the signatures of its methods. -/
inductive TypeDef.Names (d : TypeDef) : TypeId → Prop where
  | base {id : TypeId} (h : id ∈ d.bases) : d.Names id
  | property {p : Property} {id : TypeId} (hp : p ∈ d.properties) (h : p.Names id) : d.Names id
  | result {m : Method} {id : TypeId} (hm : m ∈ d.methods) (h : m.returnValue.Names id) : d.Names id
  | parameter {m : Method} {p : Property} {id : TypeId} (hm : m ∈ d.methods) (hp : p ∈ m.params) (h : p.Names id) :
      d.Names id

/-- The types of a type argument are those of its use. -/
theorem TemplateArg.types_type (p : Property) : (TemplateArg.type p).types = p.types := by
  cases p
  rw [TemplateArg.types, Property.types, Property.templateTypes]

/-- The types of arguments are those of each. -/
theorem mem_typesOfArgs {args : List TemplateArg} {id : TypeId} : id ∈ typesOfArgs args ↔ ∃ a ∈ args, id ∈ a.types := by
  induction args with
  | nil => simp [typesOfArgs]
  | cons a args ih => simp [typesOfArgs, ih]

/-- What an argument lists is named by the use of a type that it is. -/
theorem TemplateArg.names_of_mem_types (a : TemplateArg) :
    ∀ {id}, id ∈ a.types → ∃ p, a = .type p ∧ p.Names id := by
  induction a using TemplateArg.induction with
  | hint value =>
    intro id h
    rw [TemplateArg.types] at h
    exact absurd h List.not_mem_nil
  | htype p ih =>
    intro id h
    rw [TemplateArg.types_type, Property.types, List.mem_cons] at h
    refine ⟨p, rfl, ?_⟩
    rcases h with rfl | h
    · exact .type p
    · obtain ⟨a, ha, hid⟩ := mem_typesOfArgs.mp h
      obtain ⟨q, rfl, hq⟩ := ih a ha hid
      exact .argument ha hq

/-- The listed types of a use are those that it names. -/
theorem Property.mem_types {p : Property} {id : TypeId} : id ∈ p.types ↔ p.Names id := by
  constructor
  · intro h
    rw [← TemplateArg.types_type] at h
    obtain ⟨q, hq, hid⟩ := TemplateArg.names_of_mem_types _ h
    cases hq
    exact hid
  · intro h
    induction h with
    | type p => exact List.mem_cons_self
    | argument hq _ ih =>
      refine List.mem_cons_of_mem _ (mem_typesOfArgs.mpr ⟨_, hq, ?_⟩)
      rw [TemplateArg.types_type]
      exact ih

/-- The listed types of a record are those that it names. -/
theorem TypeDef.mem_namedTypes {d : TypeDef} {id : TypeId} : id ∈ d.namedTypes ↔ d.Names id := by
  simp only [namedTypes, Method.signatureTypes, List.mem_append, List.mem_flatMap, Property.mem_types]
  constructor
  · rintro ((h | ⟨p, hp, h⟩) | ⟨m, hm, h | ⟨p, hp, h⟩⟩)
    · exact .base h
    · exact .property hp h
    · exact .result hm h
    · exact .parameter hm hp h
  · intro h
    cases h with
    | base h => exact Or.inl (Or.inl h)
    | property hp h => exact Or.inl (Or.inr ⟨_, hp, h⟩)
    | result hm h => exact Or.inr ⟨_, hm, Or.inl h⟩
    | parameter hm hp h => exact Or.inr ⟨_, hm, Or.inr ⟨_, hp, h⟩⟩

namespace Catalog

/-- The second is the type that stands for one that the record of the first names. -/
def DependsOn (c : Catalog) (a b : TypeId) : Prop := ∃ id, (c.get a).Names id ∧ c.canonical id = b

/-- The listed dependencies of a type are what it depends on. -/
theorem mem_dependencies {c : Catalog} {a b : TypeId} : b ∈ c.dependencies a ↔ c.DependsOn a b := by
  rw [dependencies, List.mem_eraseDups, List.mem_map, DependsOn]
  simp only [TypeDef.mem_namedTypes]

end Catalog

end HeaderAtlas
