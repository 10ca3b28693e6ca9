import Mathlib.Logic.Relation
import HeaderAtlas.Emission.Reach
import HeaderAtlas.Proofs.Catalog.Grounded
import HeaderAtlas.Proofs.Emission.Dependency

/-!
# Order by reach is topological

A type reaches another along one dependency or more (`Catalog.Reaches`); what the table lists is exactly that, also where
dependencies lead around a circle. That one type reaches another and is not reached by it is a strict order (`Catalog.Follows`),
although types that are not compared say nothing about each other. Placing a type before the first one that follows it therefore
leaves no type before one that it follows: what stands behind that first one cannot be followed by the new type, or the first one
would follow it too.
-/

namespace HeaderAtlas

open Relation (TransGen)

/-! ## Gathering -/

section Gather

variable {α : Type} [DecidableEq α] {next : α → List α}

/-- Nothing is gathered from outside of the domain. -/
theorem mem_domain_of_mem_gather {domain pending : List α} {x : α} (h : x ∈ gather next domain pending) : x ∈ domain := by
  fun_induction gather next domain pending with
  | case1 => exact absurd h List.not_mem_nil
  | case2 domain a rest ha ih =>
    rcases List.mem_cons.mp h with rfl | h
    · exact ha
    · exact List.mem_of_mem_erase (ih h)
  | case3 domain a rest _ ih => exact ih h

/-- What every pending node has, and every node hands on to the next ones, all that is gathered has. -/
theorem gather_keeps {P : α → Prop} (hnext : ∀ a, P a → ∀ b ∈ next a, P b) {domain pending : List α}
    (hpending : ∀ a ∈ pending, P a) : ∀ x ∈ gather next domain pending, P x := by
  fun_induction gather next domain pending with
  | case1 => exact fun x h => absurd h List.not_mem_nil
  | case2 domain a rest _ ih =>
    obtain ⟨ha, hrest⟩ := List.forall_mem_cons.mp hpending
    exact List.forall_mem_cons.mpr ⟨ha, ih (List.forall_mem_append.mpr ⟨hnext a ha, hrest⟩)⟩
  | case3 domain a rest _ ih => exact ih (List.forall_mem_cons.mp hpending).2

/-- A pending node of the domain is gathered. -/
theorem mem_gather_of_mem_pending {domain pending : List α} {x : α} (hx : x ∈ pending) (hd : x ∈ domain) :
    x ∈ gather next domain pending := by
  fun_induction gather next domain pending with
  | case1 => exact absurd hx List.not_mem_nil
  | case2 domain a rest _ ih =>
    by_cases hxa : x = a
    · exact hxa ▸ List.mem_cons_self
    · have hrest := List.mem_of_ne_of_mem hxa hx
      exact List.mem_cons_of_mem a (ih (List.mem_append_right _ hrest) ((List.mem_erase_of_ne hxa).mpr hd))
  | case3 domain a rest ha ih =>
    rcases List.mem_cons.mp hx with rfl | hx
    · exact absurd hd ha
    · exact ih hx hd

/-- What is gathered is closed: with a node, the next ones that lie in the domain are gathered. -/
theorem mem_gather_of_mem_next {domain pending : List α} {x y : α} (hx : x ∈ gather next domain pending) (hy : y ∈ next x)
    (hd : y ∈ domain) : y ∈ gather next domain pending := by
  fun_induction gather next domain pending with
  | case1 => exact absurd hx List.not_mem_nil
  | case2 domain a rest _ ih =>
    by_cases hya : y = a
    · exact hya ▸ List.mem_cons_self
    · have hd' := (List.mem_erase_of_ne hya).mpr hd
      rcases List.mem_cons.mp hx with rfl | hx
      · exact List.mem_cons_of_mem _ (mem_gather_of_mem_pending (List.mem_append_left _ hy) hd')
      · exact List.mem_cons_of_mem _ (ih hx hd')
  | case3 domain a rest _ ih => exact ih hx hd

end Gather

namespace Catalog

variable {c : Catalog}

/-! ## What a type reaches -/

/-- The first type depends on the second, directly or through others, listed or not. -/
def Reaches (c : Catalog) (a b : TypeId) : Prop := TransGen c.DependsOn (c.canonical a) (c.canonical b)

/-- The first type has to come behind the second: it reaches it and is not reached by it. -/
def Follows (c : Catalog) (a b : TypeId) : Prop := c.Reaches a b ∧ ¬c.Reaches b a

/-- What is reached by what a type reaches is reached by it. -/
theorem Reaches.trans {a b d : TypeId} (h : c.Reaches a b) (h' : c.Reaches b d) : c.Reaches a d := TransGen.trans h h'

/-- Types that reach each other follow the same types, so circles do not disturb the order. -/
theorem Follows.trans {a b d : TypeId} (h : c.Follows a b) (h' : c.Follows b d) : c.Follows a d :=
  ⟨h.1.trans h'.1, fun hda => h'.2 (hda.trans h.1)⟩

/-- No type follows itself. -/
theorem Follows.irrefl (a : TypeId) : ¬c.Follows a a := fun h => h.2 h.1

/-- A type follows what it depends on directly, if that depends on nothing. -/
theorem follows_of_dependencies {a b x y : TypeId} (ha : c.canonical a = x) (hb : c.canonical b = y)
    (hdirect : y ∈ c.dependencies x) (hnone : c.dependencies y = []) : c.Follows a b := by
  rw [Follows, Reaches, Reaches, ha, hb]
  refine ⟨.single (mem_dependencies.mp hdirect), fun h => ?_⟩
  obtain ⟨z, hz, -⟩ := TransGen.head'_iff.mp h
  rw [← mem_dependencies, hnone] at hz
  exact absurd hz List.not_mem_nil

/-- The handles of a catalog are those that have records. -/
theorem mem_handles {id : TypeId} : id ∈ c.handles ↔ c.Has id := by
  simp only [handles, List.mem_map, List.mem_range]
  constructor
  · rintro ⟨i, hi, rfl⟩
    exact hi
  · exact fun h => ⟨id.index, h, rfl⟩

/-- What depends on something has a record. -/
theorem Grounded.has_of_dependsOn (hc : c.Grounded) {a b : TypeId} (h : c.DependsOn a b) : c.Has a := by
  apply Classical.byContradiction
  intro ha
  obtain ⟨id, hid, -⟩ := h
  rw [get, hc.canonical_of_not_has ha, record_of_not_has ha] at hid
  exact absurd (TypeDef.mem_namedTypes.mpr hid) List.not_mem_nil

/-- The reachable types are the records on paths of dependencies. -/
theorem Grounded.mem_reachable_iff (hc : c.Grounded) {a x : TypeId} :
    x ∈ c.reachable a ↔ c.Has x ∧ TransGen c.DependsOn a x := by
  constructor
  · intro h
    refine ⟨mem_handles.mp (mem_domain_of_mem_gather h), ?_⟩
    apply gather_keeps (P := TransGen c.DependsOn a) _ _ x h
    · exact fun b hab d hd => hab.tail (mem_dependencies.mp hd)
    · exact fun b hb => .single (mem_dependencies.mp hb)
  · rintro ⟨hx, h⟩
    -- along the path every type but the last has a record, since it depends on the next one
    induction h with
    | single hab => exact mem_gather_of_mem_pending (mem_dependencies.mpr hab) (mem_handles.mpr hx)
    | tail _ hbd ih =>
      exact mem_gather_of_mem_next (ih (hc.has_of_dependsOn hbd)) (mem_dependencies.mpr hbd) (mem_handles.mpr hx)

/-- The table has an entry for what each listed handle stands for. -/
theorem lookup_reachTable {types : List TypeId} {a : TypeId} (ha : a ∈ types) :
    (c.reachTable types).lookup (c.canonical a) = some (c.reachable (c.canonical a)) := by
  induction types with
  | nil => exact absurd ha List.not_mem_nil
  | cons b types ih =>
    rw [reachTable, List.map_cons, List.lookup_cons]
    by_cases hab : c.canonical a = c.canonical b
    · rw [hab, beq_self_eq_true]
    · have hne : a ≠ b := fun h => hab (congrArg c.canonical h)
      rw [beq_false_of_ne hab]
      exact ih (List.mem_of_ne_of_mem hne ha)

/-- The table of listed types says of each what it reaches. -/
theorem Grounded.reaches_iff (hc : c.Grounded) {types : List TypeId} {a b : TypeId} (ha : a ∈ types) (hb : c.Has b) :
    c.reaches (c.reachTable types) a b = true ↔ c.Reaches a b := by
  rw [reaches, lookup_reachTable ha, List.contains_iff_mem, hc.mem_reachable_iff]
  exact and_iff_right (hc.has_canonical hb)

/-- A listed type goes behind another, by the table, if it follows it. -/
theorem Grounded.goesBehind_iff (hc : c.Grounded) {types : List TypeId} (htypes : ∀ id ∈ types, c.Has id) {a b : TypeId}
    (ha : a ∈ types) (hb : b ∈ types) : c.goesBehind (c.reachTable types) a b = true ↔ c.Follows a b := by
  have hab := hc.reaches_iff ha (htypes b hb)
  have hba := hc.reaches_iff hb (htypes a ha)
  rw [goesBehind, Bool.and_eq_true, Bool.not_eq_true', hab, ← Bool.not_eq_true, hba]
  rfl

end Catalog

/-! ## Placing -/

section Place

variable {behind : TypeId → TypeId → Bool}

/-- Placing a type adds it and drops none. -/
theorem perm_place (id : TypeId) (placed : List TypeId) : (place behind id placed).Perm (id :: placed) := by
  induction placed with
  | nil => exact .refl _
  | cons p rest ih =>
    rw [place]
    split
    · exact .refl _
    · exact (ih.cons p).trans (.swap id p rest)

/-- A type that nothing placed has to go behind comes last. -/
theorem place_eq_concat {id : TypeId} {placed : List TypeId} (h : ∀ p ∈ placed, behind p id = false) :
    place behind id placed = placed ++ [id] := by
  induction placed with
  | nil => rfl
  | cons p rest ih =>
    obtain ⟨hp, hrest⟩ := List.forall_mem_cons.mp h
    rw [place, hp, if_neg Bool.false_ne_true, ih hrest, List.cons_append]

/-- If going behind is a strict order, placing leaves nothing before what it has to go behind. -/
theorem pairwise_place {R : TypeId → TypeId → Prop} (htrans : ∀ {a b d}, R a b → R b d → R a d) (hirrefl : ∀ a, ¬R a a)
    {id : TypeId} {placed : List TypeId} (hbehind : ∀ p ∈ placed, behind p id = true ↔ R p id)
    (hplaced : placed.Pairwise fun a b => ¬R a b) : (place behind id placed).Pairwise fun a b => ¬R a b := by
  induction placed with
  | nil => exact List.pairwise_singleton _ _
  | cons p rest ih =>
    obtain ⟨hp, hrest⟩ := List.forall_mem_cons.mp hbehind
    obtain ⟨hfirst, hlater⟩ := List.pairwise_cons.mp hplaced
    rw [place]
    split
    · rename_i hb
      have hpid : R p id := hp.mp hb
      refine List.pairwise_cons.mpr ⟨?_, hplaced⟩
      -- what the new type follows, the first one that follows the new type would follow too
      refine List.forall_mem_cons.mpr ⟨fun h => hirrefl p (htrans hpid h), fun q hq h => ?_⟩
      exact hfirst q hq (htrans hpid h)
    · rename_i hb
      refine List.pairwise_cons.mpr ⟨fun q hq => ?_, ih hrest hlater⟩
      rcases List.mem_cons.mp ((perm_place id rest).mem_iff.mp hq) with rfl | hq
      · exact fun h => hb (hp.mpr h)
      · exact hfirst q hq

/-- Placing types one after the other lists them all. -/
theorem perm_foldl_place (types : List TypeId) :
    ∀ placed, (types.foldl (fun placed id => place behind id placed) placed).Perm (placed ++ types) := by
  induction types with
  | nil => exact fun placed => by rw [List.append_nil]; exact .refl _
  | cons id types ih =>
    intro placed
    exact (ih _).trans (((perm_place id placed).append_right types).trans List.perm_middle.symm)

end Place

namespace Catalog

variable {c : Catalog} {types : List TypeId}

/-! ## The order -/

/-- No type stands before one that it follows. -/
abbrev Topological (c : Catalog) (types : List TypeId) : Prop := types.Pairwise fun a b => ¬c.Follows a b

/-- The order lists the same types. -/
theorem perm_orderByReach (c : Catalog) (types : List TypeId) : (c.orderByReach types).Perm types :=
  perm_foldl_place types []

/-- In the order no type stands before one that it follows. -/
theorem Grounded.topological_orderByReach (hc : c.Grounded) (htypes : ∀ id ∈ types, c.Has id) :
    c.Topological (c.orderByReach types) := by
  -- what is placed so far is listed, and topological
  have hrun := List.foldlRecOn (motive := fun placed => placed ⊆ types ∧ c.Topological placed) types
    (fun placed id => place (c.goesBehind (c.reachTable types)) id placed) ⟨List.nil_subset types, List.Pairwise.nil⟩
  refine (hrun fun placed ⟨hsub, hplaced⟩ id hid => ⟨fun q hq => ?_, ?_⟩).2
  · rcases List.mem_cons.mp ((perm_place id placed).mem_iff.mp hq) with rfl | hq
    · exact hid
    · exact hsub hq
  · exact pairwise_place (R := c.Follows) Follows.trans Follows.irrefl
      (fun p hp => hc.goesBehind_iff htypes (hsub hp) hid) hplaced

/-- A list that is in order stays as it is. -/
theorem Grounded.orderByReach_of_topological (hc : c.Grounded) (htypes : ∀ id ∈ types, c.Has id)
    (htop : c.Topological types) : c.orderByReach types = types := by
  have hrun : ∀ rest placed, placed ++ rest = types →
      rest.foldl (fun placed id => place (c.goesBehind (c.reachTable types)) id placed) placed = placed ++ rest := by
    intro rest
    induction rest with
    | nil => exact fun placed _ => (List.append_nil placed).symm
    | cons id rest ih =>
      intro placed h
      have hnone : ∀ p ∈ placed, c.goesBehind (c.reachTable types) p id = false := by
        intro p hp
        rw [← Bool.not_eq_true, hc.goesBehind_iff htypes (h ▸ List.mem_append_left _ hp) (h ▸ by simp)]
        rw [← h] at htop
        exact (List.pairwise_append.mp htop).2.2 p hp id List.mem_cons_self
      rw [List.foldl_cons, place_eq_concat hnone, ih _ (by rw [List.append_assoc]; exact h), List.append_assoc]
      rfl
  exact hrun types [] rfl

/-- Ordering types of a catalog that calls have built, listed once or more, under any handle, puts no type before one that it reaches
without being reached by it, and leaves a list alone that is in such an order already, as its own result is. -/
theorem orderByReach_topological (hc : c.Built) (types : List TypeId) (htypes : ∀ id ∈ types, c.Has id) :
    (c.orderByReach types).Perm types ∧
      (c.orderByReach types).Pairwise (fun a b => ¬(c.Reaches a b ∧ ¬c.Reaches b a)) ∧
      (types.Pairwise (fun a b => ¬(c.Reaches a b ∧ ¬c.Reaches b a)) → c.orderByReach types = types) ∧
      c.orderByReach (c.orderByReach types) = c.orderByReach types := by
  have hg := hc.grounded
  have hperm := c.perm_orderByReach types
  have htop := hg.topological_orderByReach htypes
  refine ⟨hperm, htop, hg.orderByReach_of_topological htypes, ?_⟩
  exact hg.orderByReach_of_topological (fun id hid => htypes id (hperm.mem_iff.mp hid)) htop

/-- Two types in a circle, one of them through a template argument, that both use a third: this one is listed behind them, under its
own handle and under that of its placeholder, and one of the others is listed again behind it. -/
theorem orderByReach_topological_in_circle :
    let use (i : Nat) (args : List TemplateArg) : Property := { name := "use", type := ⟨i⟩, templateArgs := args }
    let a : TypeDef := { name := "A", bases := [⟨0⟩], properties := [use 2 []] }
    let b : TypeDef := { name := "B", methods := [⟨"f", some ⟨2⟩, use 0 [.type (use 1 [])], [], [], [], {}, [], none, none⟩] }
    let c := ((((empty.placeholder "C").2.register a).2.register b).2.register { name := "C" }).2.settle.2
    let types : List TypeId := [⟨1⟩, ⟨2⟩, ⟨0⟩, ⟨3⟩, ⟨1⟩]
    c.Built ∧ (∀ id ∈ types, c.Has id) ∧ c.Follows ⟨1⟩ ⟨0⟩ ∧ (c.orderByReach types).Perm types ∧
      (c.orderByReach types).Pairwise (fun a b => ¬(c.Reaches a b ∧ ¬c.Reaches b a)) ∧
      c.orderByReach (c.orderByReach types) = c.orderByReach types := by
  have hread :
      let use (i : Nat) (args : List TemplateArg) : Property := { name := "use", type := ⟨i⟩, templateArgs := args }
      let a : TypeDef := { name := "A", bases := [⟨0⟩], properties := [use 2 []] }
      let b : TypeDef := { name := "B", methods := [⟨"f", some ⟨2⟩, use 0 [.type (use 1 [])], [], [], [], {}, [], none, none⟩] }
      let c := ((((empty.placeholder "C").2.register a).2.register b).2.register { name := "C" }).2.settle.2
      let types : List TypeId := [⟨1⟩, ⟨2⟩, ⟨0⟩, ⟨3⟩, ⟨1⟩]
      (∀ id ∈ types, id.index < c.records.length) ∧ c.canonical ⟨1⟩ = ⟨1⟩ ∧ c.canonical ⟨0⟩ = ⟨3⟩ ∧
        ⟨3⟩ ∈ c.dependencies ⟨1⟩ ∧ c.dependencies ⟨3⟩ = [] := by
    decide +kernel
  obtain ⟨hhas, hself, hplaceholder, hdirect, hnone⟩ := hread
  have hbuilt := fun a b => (((((Built.origin .empty).placeholder "C").register a).register b).register { name := "C" }).settle
  obtain ⟨hperm, htop, -, hagain⟩ := orderByReach_topological (hbuilt _ _) _ hhas
  exact ⟨hbuilt _ _, hhas, follows_of_dependencies hself hplaceholder hdirect hnone, hperm, htop, hagain⟩

end Catalog

end HeaderAtlas
