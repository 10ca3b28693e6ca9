import HeaderAtlas.Emission.Order
import HeaderAtlas.Proofs.Emission.Level
import HeaderAtlas.Proofs.Lineage

/-!
# Order by inheritance

A primary chain that does not run into a circle ends at a type without bases (`Catalog.Tops`), so the chain of a type is its first
base and the chain of that. Depths and roots follow this step by step: a type is one deeper than its first base, and deeper than
every type on its chain. A stable sort by depth therefore leaves no type before one on its chain, whichever handles are listed for
them.
-/

namespace HeaderAtlas

open Relation (TransGen ReflTransGen)

namespace Catalog

variable {c : Catalog}

/-! ## Chains that end -/

/-- No circle can be reached from first base to first base. -/
def PrimaryEnds (c : Catalog) (id : TypeId) : Prop :=
  ∀ t, ReflTransGen c.HasPrimaryBase id t → ¬TransGen c.HasPrimaryBase t t

/-- A chain that ends does so from each of its types on. -/
theorem PrimaryEnds.above {id base : TypeId} (h : c.PrimaryEnds id) (hbase : c.HasPrimaryBase id base) : c.PrimaryEnds base :=
  fun t ht => h t (ht.head hbase)

/-- A chain from first base to first base up to a type that has none. -/
inductive Tops (c : Catalog) : TypeId → List TypeId → Prop where
  | top {id : TypeId} (h : (c.get id).bases = []) : Tops c id []
  | step {id base : TypeId} {chain : List TypeId} (h : c.HasPrimaryBase id base) (above : Tops c base chain) :
      Tops c id (base :: chain)

/-- A type has one chain. -/
theorem Tops.unique {id : TypeId} {chain : List TypeId} (h : c.Tops id chain) : ∀ {chain'}, c.Tops id chain' → chain = chain' := by
  induction h with
  | top hnone =>
    intro chain' h'
    cases h' with
    | top => rfl
    | step h => exact absurd hnone h.bases_ne_nil
  | @step id base chain h _ ih =>
    intro chain' h'
    cases h' with
    | top hnone => exact absurd hnone h.bases_ne_nil
    | step h' above =>
      obtain rfl := h.unique h'
      rw [ih above]

/-- A walk that meets nothing again ends at the top. -/
theorem Climb.tops {met chain : List TypeId} {id : TypeId} (h : c.Climb met id chain) :
    (∀ t ∈ met, ¬TransGen c.HasPrimaryBase id t) → c.PrimaryEnds id → c.Tops id chain := by
  induction h with
  | top hnone => exact fun _ _ => .top hnone
  | stop h hmet => exact fun hnot _ => absurd (.single h) (hnot _ hmet)
  | @step met id base chain h _ _ ih =>
    intro hnot hends
    refine .step h (ih (List.forall_mem_cons.mpr ⟨hends base (.single h), ?_⟩) (hends.above h))
    exact fun t ht hreach => hnot t ht (hreach.head h)

/-- The primary chain of a type goes up to one without bases, if it ends. -/
theorem Inv.tops_primaryChain (hc : c.Inv) {id : TypeId} (hends : c.PrimaryEnds id) : c.Tops id (c.primaryChain id) := by
  refine (hc.climb_primaryChain id).tops (List.forall_mem_singleton.mpr fun hreach => ?_) hends
  -- a chain that comes back to the type goes on from there as it does from the handle
  refine hends _ hreach.to_reflTransGen ?_
  obtain ⟨base, hbase, hrest⟩ := TransGen.head'_iff.mp hreach
  exact TransGen.head'_iff.mpr ⟨base, hc.hasPrimaryBase_canonical.mpr hbase, hrest⟩

/-- A type without bases has no chain. -/
theorem primaryChain_of_bases {id : TypeId} (h : (c.get id).bases = []) : c.primaryChain id = [] :=
  primaryChainFrom_of_bases h _ _

/-- The chain of a type is its primary base and the chain of that. -/
theorem Inv.primaryChain_eq_cons (hc : c.Inv) {id base : TypeId} (hends : c.PrimaryEnds id) (h : c.HasPrimaryBase id base) :
    c.primaryChain id = base :: c.primaryChain base :=
  (hc.tops_primaryChain hends).unique (.step h (hc.tops_primaryChain (hends.above h)))

/-! ## Depth and root -/

/-- A handle has the chain of the type that stands for it. -/
theorem Inv.baseDepth_canonical (hc : c.Inv) (id : TypeId) : c.baseDepth (c.canonical id) = c.baseDepth id := by
  have hchain : ∀ (n : Nat) (met : List TypeId), c.primaryChainFrom n met (c.canonical id) = c.primaryChainFrom n met id := by
    intro n met
    cases n with
    | zero => rfl
    | succ n => rw [primaryChainFrom, primaryChainFrom, hc.primaryBase?_canonical]
  rw [baseDepth, primaryChain, hc.canonical_canonical, hchain]
  rfl

/-- A type is one deeper than its primary base. -/
theorem Inv.baseDepth_eq_succ (hc : c.Inv) {id base : TypeId} (hends : c.PrimaryEnds id) (h : c.HasPrimaryBase id base) :
    c.baseDepth id = c.baseDepth base + 1 := by
  rw [baseDepth, hc.primaryChain_eq_cons hends h, List.length_cons]
  rfl

/-- A primary base stands for itself. -/
theorem Inv.canonical_of_hasPrimaryBase (hc : c.Inv) {id base : TypeId} (h : c.HasPrimaryBase id base) :
    c.canonical base = base := by
  obtain ⟨x, -, rfl⟩ := h.hasBase
  exact hc.canonical_canonical x

/-- A type has the root of its primary base. -/
theorem Inv.rootBase_eq (hc : c.Inv) {id base : TypeId} (hends : c.PrimaryEnds id) (h : c.HasPrimaryBase id base) :
    c.rootBase id = c.rootBase base := by
  rw [rootBase, rootBase, hc.primaryChain_eq_cons hends h, List.getLast?_cons, hc.canonical_of_hasPrimaryBase h]
  rfl

/-- A type is deeper than every type on its chain. -/
theorem Inv.baseDepth_lt (hc : c.Inv) {id t : TypeId} (hends : c.PrimaryEnds id) (h : TransGen c.HasPrimaryBase id t) :
    c.baseDepth t < c.baseDepth id := by
  induction h using TransGen.head_induction_on with
  | single h => exact hc.baseDepth_eq_succ hends h ▸ Nat.lt_succ_self _
  | head h _ ih => exact Nat.lt_trans (ih (hends.above h)) (hc.baseDepth_eq_succ hends h ▸ Nat.lt_succ_self _)

/-! ## The order -/

/-- The order is the sort of the types with their depths. -/
theorem orderByInheritance_eq (c : Catalog) (types : List TypeId) :
    c.orderByInheritance types = ((types.zip (types.map c.baseDepth)).mergeSort fun a b => a.2 ≤ b.2).map (·.1) := by
  have hdepth : ∀ e ∈ types.zip (types.map c.baseDepth), e.2 = c.baseDepth e.1 := by
    rw [← List.map_prod_left_eq_zip]
    intro e he
    obtain ⟨id, -, rfl⟩ := List.mem_map.mp he
    rfl
  rw [List.map_mergeSort (s := fun a b => c.baseDepth a ≤ c.baseDepth b), List.map_fst_zip (List.length_map ..).ge]
  · rfl
  · intro a ha b hb
    rw [hdepth a ha, hdepth b hb]

/-- The order is one of growing depth. -/
theorem pairwise_orderByInheritance (c : Catalog) (types : List TypeId) :
    (c.orderByInheritance types).Pairwise fun a b => c.baseDepth a ≤ c.baseDepth b := by
  have hsorted : (c.orderByInheritance types).Pairwise fun a b => decide (c.baseDepth a ≤ c.baseDepth b) = true := by
    refine List.pairwise_mergeSort ?_ ?_ types
    · simp only [decide_eq_true_eq]
      exact fun a b d => Nat.le_trans
    · simp [Nat.le_total]
  exact hsorted.imp of_decide_eq_true

end Catalog

/-- The order by inheritance at any point of a session, of which the edits may change anything but the name of a type and whether it
is declared. It is a stable sort by depth. Of a type whose primary chain has no circle the depth is zero and the root is the type
itself if it has no base; else it is one deeper than the type of its first base and has the same root. No such type is listed before
one on its chain, whichever of their handles are listed, and how often. -/
theorem session_orderByInheritance (o : Origin) (calls : List Call) (types : List TypeId) :
    let c := (session o calls).catalog
    let depths := types.map c.baseDepth
    (c.orderByInheritance types).Perm types ∧
      (∃ order : List Nat, order.Perm (List.range types.length) ∧
        (c.orderByInheritance types).map some = order.map (types[·]?) ∧
        order.Pairwise fun i j => depths.getD i 0 ≤ depths.getD j 0 ∧ (depths.getD i 0 = depths.getD j 0 → i < j)) ∧
      (∀ id, c.PrimaryEnds id →
        ((c.get id).bases = [] → c.baseDepth id = 0 ∧ c.rootBase id = c.canonical id) ∧
        ∀ first rest, (c.get id).bases = first :: rest →
          c.baseDepth id = c.baseDepth (c.canonical first) + 1 ∧ c.rootBase id = c.rootBase (c.canonical first)) ∧
      (c.orderByInheritance types).Pairwise fun a b => c.PrimaryEnds a → ¬TransGen c.HasPrimaryBase a (c.canonical b) := by
  intro c depths
  have hc : c.Inv := session_inv o calls
  refine ⟨List.mergeSort_perm _ _, ?_, fun id hends => ⟨fun hnone => ?_, fun first rest hbases => ?_⟩, ?_⟩
  · rw [c.orderByInheritance_eq]
    exact exists_order_mergeSort (List.length_map ..)
  · rw [Catalog.baseDepth, Catalog.rootBase, Catalog.primaryChain_of_bases hnone]
    exact ⟨rfl, rfl⟩
  · have hbase : c.HasPrimaryBase id (c.canonical first) := ⟨first, by rw [hbases, List.head?_cons], rfl⟩
    exact ⟨hc.baseDepth_eq_succ hends hbase, hc.rootBase_eq hends hbase⟩
  · refine (c.pairwise_orderByInheritance types).imp fun {a b} hle hends hchain => ?_
    have hlt := hc.baseDepth_lt hends hchain
    rw [hc.baseDepth_canonical] at hlt
    exact Nat.not_lt_of_le hle hlt

/-- A type is as deep as its first base makes it, and has the root of that one, however deep its last base is. -/
example :
    let c := (session .empty [.scan {} "REFLECTED() struct A { }; REFLECTED() struct B : A { }; REFLECTED() struct C { };
      REFLECTED() struct D : C, B { }; REFLECTED() struct E : B, C { };"]).catalog
    (c.get ⟨3⟩).bases = [⟨2⟩, ⟨1⟩] ∧ c.baseDepth ⟨3⟩ = 1 ∧ c.rootBase ⟨3⟩ = ⟨2⟩ ∧
      (c.get ⟨4⟩).bases = [⟨1⟩, ⟨2⟩] ∧ c.baseDepth ⟨4⟩ = 2 ∧ c.rootBase ⟨4⟩ = ⟨0⟩ := by
  decide +kernel

end HeaderAtlas
