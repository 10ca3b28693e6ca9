import Mathlib.Data.List.Chain
import HeaderAtlas.Catalog.Lineage
import HeaderAtlas.Proofs.Emission.Reach

/-!
# Ancestors

The types that stand for the bases of a type are its parents in a graph (`Catalog.HasBase`) that may have circles. A walk up that
graph is bounded in height only so that it is seen to end: it enters no record twice, so with as many steps as there are records the
bound is never met, and the walk is one without a bound (`Catalog.Ascent`, `Catalog.Climb`).

Of such a walk a few facts are kept at every step: what it has met is what is found and what is still open, once each; the
parents of what is found have been met; and where there are no circles, all parents of what is found stand before it. The ancestors
of a type are therefore exactly the types that can be reached along its bases, and the primary chain is a part of them.
-/

namespace HeaderAtlas

open Relation (TransGen ReflTransGen)

namespace Catalog

variable {c : Catalog}

/-! ## Bases -/

/-- The second is the type that stands for a base of the first. -/
def HasBase (c : Catalog) (a b : TypeId) : Prop := ∃ id ∈ (c.get a).bases, c.canonical id = b

/-- The second is the type that stands for the base that the first has in front of all others. -/
def HasPrimaryBase (c : Catalog) (a b : TypeId) : Prop := ∃ id, (c.get a).bases.head? = some id ∧ c.canonical id = b

/-- The types that stand for the bases of a type. -/
def baseTypes (c : Catalog) (id : TypeId) : List TypeId := (c.get id).bases.map c.canonical

/-- The base types are what the bases stand for. -/
theorem mem_baseTypes {a b : TypeId} : b ∈ c.baseTypes a ↔ c.HasBase a b := List.mem_map

/-- The primary base is the first of the base types. -/
theorem primaryBase?_eq_head? (id : TypeId) : c.primaryBase? id = (c.baseTypes id).head? := List.head?_map.symm

/-- A walk from first base to first base looks at the base in front of all others. -/
theorem hasPrimaryBase_iff {a b : TypeId} : c.HasPrimaryBase a b ↔ c.primaryBase? a = some b := Option.map_eq_some_iff.symm

/-- A type that no first base is found for has no bases. -/
theorem primaryBase?_eq_none_iff {id : TypeId} : c.primaryBase? id = none ↔ (c.get id).bases = [] := by
  rw [primaryBase?_eq_head?, List.head?_eq_none_iff, baseTypes, List.map_eq_nil_iff]

/-- The first base is one of the bases. -/
theorem HasPrimaryBase.hasBase {a b : TypeId} (h : c.HasPrimaryBase a b) : c.HasBase a b := by
  obtain ⟨id, hfirst, hcanonical⟩ := h
  exact ⟨id, List.mem_of_mem_head? hfirst, hcanonical⟩

/-- A type has at most one first base. -/
theorem HasPrimaryBase.unique {a b b' : TypeId} (h : c.HasPrimaryBase a b) (h' : c.HasPrimaryBase a b') : b = b' :=
  Option.some.inj ((hasPrimaryBase_iff.mp h).symm.trans (hasPrimaryBase_iff.mp h'))

/-- A type without bases has no first base. -/
theorem HasPrimaryBase.bases_ne_nil {a b : TypeId} (h : c.HasPrimaryBase a b) : (c.get a).bases ≠ [] := by
  obtain ⟨id, hfirst, -⟩ := h
  intro hnil
  rw [hnil] at hfirst
  cases hfirst

/-- A handle has the bases of the type that stands for it. -/
theorem Inv.baseTypes_canonical (hc : c.Inv) (id : TypeId) : c.baseTypes (c.canonical id) = c.baseTypes id := by
  rw [baseTypes, get, hc.canonical_canonical]
  rfl

/-- A handle has the primary base of what it stands for. -/
theorem Inv.primaryBase?_canonical (hc : c.Inv) (id : TypeId) : c.primaryBase? (c.canonical id) = c.primaryBase? id := by
  rw [primaryBase?_eq_head?, primaryBase?_eq_head?, hc.baseTypes_canonical]

/-- The primary base of a handle is that of what it stands for. -/
theorem Inv.hasPrimaryBase_canonical (hc : c.Inv) {id t : TypeId} : c.HasPrimaryBase (c.canonical id) t ↔ c.HasPrimaryBase id t := by
  rw [hasPrimaryBase_iff, hasPrimaryBase_iff, hc.primaryBase?_canonical]

/-- A handle reaches what the type it stands for reaches. -/
theorem Inv.transGen_canonical (hc : c.Inv) {id t : TypeId} : TransGen c.HasBase (c.canonical id) t ↔ TransGen c.HasBase id t := by
  have hbase : ∀ t, c.HasBase (c.canonical id) t ↔ c.HasBase id t := by
    intro t
    rw [← mem_baseTypes, ← mem_baseTypes, hc.baseTypes_canonical]
  simp only [TransGen.head'_iff, hbase]

/-- A handle without a record has no bases. -/
theorem Inv.baseTypes_of_not_has (hc : c.Inv) {id : TypeId} (h : ¬c.Has id) : c.baseTypes id = [] := by
  rw [baseTypes, get, canonical_of_next_eq (hc.next_of_not_has h), record_of_not_has h]
  rfl

/-! ## What has not been met -/

/-- The number of records that have not been met. -/
def unmet (c : Catalog) (met : List TypeId) : Nat := c.handles.countP (· ∉ met)

/-- Not more records are unmet than there are. -/
theorem unmet_le_length (c : Catalog) (met : List TypeId) : c.unmet met ≤ c.records.length := by
  have h := List.countP_le_length (p := (· ∉ met)) (l := c.handles)
  rwa [handles, List.length_map, List.length_range] at h

/-- Where more is met, not more is unmet. -/
theorem unmet_le_of_subset {met met' : List TypeId} (h : met ⊆ met') : c.unmet met' ≤ c.unmet met := by
  apply List.countP_mono_left
  simp only [decide_eq_true_eq]
  exact fun x _ hx hmet => hx (h hmet)

/-- A record that is met for the first time is one less. -/
theorem unmet_cons_lt {met : List TypeId} {id : TypeId} (h : c.Has id) (hid : id ∉ met) : c.unmet (id :: met) < c.unmet met := by
  have hfilter : c.handles.filter (· ∉ id :: met) = (c.handles.filter (· ∉ met)).filter (· ≠ id) := by
    rw [List.filter_filter]
    simp only [List.mem_cons, not_or, Bool.decide_and]
  rw [unmet, unmet, List.countP_eq_length_filter, List.countP_eq_length_filter, hfilter,
    List.length_filter_lt_length_iff_exists]
  exact ⟨id, List.mem_filter.mpr ⟨mem_handles.mpr h, decide_eq_true hid⟩, by simp⟩

/-! ## The walk over all bases -/

/-- A type goes from what is open to what is found. -/
theorem perm_concat_of_cons (id : TypeId) (stack found : List TypeId) :
    (id :: stack ++ found).Perm (stack ++ (found ++ [id])) := by
  rw [← List.append_assoc]
  exact (List.perm_append_singleton id (stack ++ found)).symm

/-- A walk enters the listed types one after another, each one that it has not met: what lies above it is walked first, and then it
is found. -/
inductive Ascent (c : Catalog) : List TypeId → Ancestry → Ancestry → Prop where
  | done (a : Ancestry) : Ascent c [] a a
  | skip {base : TypeId} {bases : List TypeId} {a a' : Ancestry} (h : base ∈ a.met) (rest : Ascent c bases a a') :
      Ascent c (base :: bases) a a'
  | enter {base : TypeId} {bases : List TypeId} {a a' a'' : Ancestry} (h : base ∉ a.met)
      (above : Ascent c (c.baseTypes base) { a with met := base :: a.met } a')
      (rest : Ascent c bases { a' with found := a'.found ++ [base] } a'') : Ascent c (base :: bases) a a''

namespace Ascent

variable {bases : List TypeId} {a a' : Ancestry}

/-- A walk without a bound has one end. -/
theorem unique (h : c.Ascent bases a a') : ∀ {a''}, c.Ascent bases a a'' → a' = a'' := by
  induction h with
  | done a =>
    intro a'' h'
    cases h'
    rfl
  | skip h _ ih =>
    intro a'' h'
    cases h' with
    | skip _ rest => exact ih rest
    | enter hnew => exact absurd h hnew
  | enter h _ _ ihabove ihrest =>
    intro a'' h'
    cases h' with
    | skip hmet => exact absurd hmet h
    | enter _ above rest =>
      obtain rfl := ihabove above
      exact ihrest rest

/-- What is met stays met. -/
theorem met_subset (h : c.Ascent bases a a') : a.met ⊆ a'.met := by
  induction h with
  | done a => exact fun _ hx => hx
  | skip _ _ ih => exact ih
  | enter _ _ _ ihabove ihrest => exact fun x hx => ihrest (ihabove (List.mem_cons_of_mem _ hx))

/-- What is found stays found. -/
theorem found_subset (h : c.Ascent bases a a') : a.found ⊆ a'.found := by
  induction h with
  | done a => exact fun _ hx => hx
  | skip _ _ ih => exact ih
  | enter _ _ _ ihabove ihrest => exact fun x hx => ihrest (List.mem_append_left _ (ihabove hx))

/-- What has been met, each type once, is what the walk is still above and what is found. -/
theorem perm_met (h : c.Ascent bases a a') : ∀ stack : List TypeId, a.met.Nodup → a.met.Perm (stack ++ a.found) →
    a'.met.Nodup ∧ a'.met.Perm (stack ++ a'.found) := by
  induction h with
  | done a => exact fun _ hnodup hperm => ⟨hnodup, hperm⟩
  | skip _ _ ih => exact ih
  | @enter base bases a a' a'' h _ _ ihabove ihrest =>
    intro stack hnodup hperm
    obtain ⟨hnodup', hperm'⟩ := ihabove (base :: stack) (List.nodup_cons.mpr ⟨h, hnodup⟩) (hperm.cons base)
    exact ihrest stack hnodup' (hperm'.trans (perm_concat_of_cons base stack a'.found))

/-- What the listed types have, and every type hands on to its bases, all that is found has. -/
theorem found_keeps {P : TypeId → Prop} (hstep : ∀ x y, P x → c.HasBase x y → P y) (h : c.Ascent bases a a') :
    (∀ b ∈ bases, P b) → (∀ x ∈ a.found, P x) → ∀ x ∈ a'.found, P x := by
  induction h with
  | done a => exact fun _ hfound => hfound
  | skip _ _ ih => exact fun hbases => ih (List.forall_mem_cons.mp hbases).2
  | @enter base bases a a' a'' _ _ _ ihabove ihrest =>
    intro hbases hfound
    obtain ⟨hbase, hbases⟩ := List.forall_mem_cons.mp hbases
    have habove := ihabove (fun b hb => hstep base b hbase (mem_baseTypes.mp hb)) hfound
    exact ihrest hbases (List.forall_mem_append.mpr ⟨habove, List.forall_mem_singleton.mpr hbase⟩)

/-- The listed types are met, and so are the bases of all that is found. -/
theorem closed (h : c.Ascent bases a a') : (∀ x ∈ a.found, ∀ y, c.HasBase x y → y ∈ a.met) →
    bases ⊆ a'.met ∧ ∀ x ∈ a'.found, ∀ y, c.HasBase x y → y ∈ a'.met := by
  induction h with
  | done a => exact fun hclosed => ⟨List.nil_subset _, hclosed⟩
  | skip h rest ih =>
    intro hclosed
    obtain ⟨hbases, hfound⟩ := ih hclosed
    exact ⟨List.cons_subset.mpr ⟨rest.met_subset h, hbases⟩, hfound⟩
  | @enter base bases a a' a'' _ above rest ihabove ihrest =>
    intro hclosed
    obtain ⟨hparents, habove⟩ := ihabove fun x hx y hy => List.mem_cons_of_mem base (hclosed x hx y hy)
    have hmet : base ∈ a'.met := above.met_subset List.mem_cons_self
    have hnext : ∀ x ∈ a'.found ++ [base], ∀ y, c.HasBase x y → y ∈ a'.met := by
      intro x hx y hy
      rcases List.mem_append.mp hx with hx | hx
      · exact habove x hx y hy
      · obtain rfl := List.mem_singleton.mp hx
        exact hparents (mem_baseTypes.mpr hy)
    obtain ⟨hbases, hfound⟩ := ihrest hnext
    exact ⟨List.cons_subset.mpr ⟨rest.met_subset hmet, hbases⟩, hfound⟩

end Ascent

/-- Every type of the list stands behind all of its bases. -/
def BasesFirst (c : Catalog) (types : List TypeId) : Prop :=
  ∀ before t after, types = before ++ t :: after → ∀ u, c.HasBase t u → u ∈ before

/-- A type may be added behind its bases. -/
theorem BasesFirst.concat {types : List TypeId} {t : TypeId} (h : c.BasesFirst types) (ht : ∀ u, c.HasBase t u → u ∈ types) :
    c.BasesFirst (types ++ [t]) := by
  intro before x after hsplit u hu
  rcases List.eq_nil_or_concat' after with rfl | ⟨rest, last, rfl⟩
  · obtain ⟨rfl, hx⟩ := List.append_inj' hsplit rfl
    obtain rfl : t = x := List.singleton_inj.mp hx
    exact ht u hu
  · rw [← List.cons_append, ← List.append_assoc] at hsplit
    exact h before x rest (List.append_inj_left' hsplit rfl) u hu

/-- In such a list every type stands behind all of its ancestors. -/
theorem BasesFirst.mem_of_transGen {types : List TypeId} (h : c.BasesFirst types) {t u : TypeId} (htu : TransGen c.HasBase t u) :
    ∀ {before after}, types = before ++ t :: after → u ∈ before := by
  induction htu using TransGen.head_induction_on with
  | single htu => exact fun hsplit => h _ _ _ hsplit _ htu
  | @head t v htv _ ih =>
    intro before after hsplit
    obtain ⟨first, rest, rfl⟩ := List.append_of_mem (h _ _ _ hsplit v htv)
    rw [List.append_assoc, List.cons_append] at hsplit
    exact List.mem_append_left _ (ih hsplit)

/-- Where no circle can be reached, a walk keeps bases first: a base that has been met is found, because what is still open lies
below the listed types. -/
theorem Ascent.basesFirst (root : TypeId) (hacyclic : ∀ t, TransGen c.HasBase root t → ¬TransGen c.HasBase t t)
    {bases : List TypeId} {a a' : Ancestry} (h : c.Ascent bases a a') :
    ∀ stack : List TypeId, root ∈ stack → (∀ s ∈ stack, ∀ b ∈ bases, TransGen c.HasBase s b) → a.met.Nodup →
      a.met.Perm (stack ++ a.found) → c.BasesFirst a.found → bases ⊆ a'.found ∧ c.BasesFirst a'.found := by
  induction h with
  | done a => exact fun _ _ _ _ _ hfirst => ⟨List.nil_subset _, hfirst⟩
  | @skip base bases a a' h rest ih =>
    intro stack hroot hstack hnodup hperm hfirst
    have hbase : base ∈ a.found := by
      rcases List.mem_append.mp (hperm.mem_iff.mp h) with hopen | hfound
      · have hcircle := hstack base hopen base List.mem_cons_self
        exact absurd hcircle (hacyclic base (hstack root hroot base List.mem_cons_self))
      · exact hfound
    obtain ⟨hbases, hfound⟩ := ih stack hroot (fun s hs b hb => hstack s hs b (List.mem_cons_of_mem base hb)) hnodup hperm hfirst
    exact ⟨List.cons_subset.mpr ⟨rest.found_subset hbase, hbases⟩, hfound⟩
  | @enter base bases a a' a'' h above rest ihabove ihrest =>
    intro stack hroot hstack hnodup hperm hfirst
    have hopen : ∀ s ∈ base :: stack, ∀ b ∈ c.baseTypes base, TransGen c.HasBase s b := by
      intro s hs b hb
      rcases List.mem_cons.mp hs with rfl | hs
      · exact .single (mem_baseTypes.mp hb)
      · exact (hstack s hs base List.mem_cons_self).tail (mem_baseTypes.mp hb)
    have hnodup' : (base :: a.met).Nodup := List.nodup_cons.mpr ⟨h, hnodup⟩
    obtain ⟨hparents, hfirst'⟩ := ihabove (base :: stack) (List.mem_cons_of_mem base hroot) hopen hnodup' (hperm.cons base) hfirst
    obtain ⟨hnodup'', hperm'⟩ := above.perm_met (base :: stack) hnodup' (hperm.cons base)
    obtain ⟨hbases, hfound⟩ := ihrest stack hroot (fun s hs b hb => hstack s hs b (List.mem_cons_of_mem base hb)) hnodup''
      (hperm'.trans (perm_concat_of_cons base stack a'.found)) (hfirst'.concat fun u hu => hparents (mem_baseTypes.mpr hu))
    exact ⟨List.cons_subset.mpr ⟨rest.found_subset (List.mem_append_right _ (List.mem_singleton_self base)), hbases⟩, hfound⟩

/-! ## The bound -/

/-- A walk one type higher enters the types that stand for the bases. -/
theorem ancestryFrom_succ (n : Nat) (id : TypeId) (a : Ancestry) :
    c.ancestryFrom (n + 1) id a = (c.baseTypes id).foldl (fun a base => a.enter (c.ancestryFrom n) base) a := by
  rw [ancestryFrom, baseTypes, List.foldl_map]

/-- A type without bases has no ancestry, whatever the bound. -/
theorem ancestryFrom_of_baseTypes {id : TypeId} (h : c.baseTypes id = []) (n : Nat) (a : Ancestry) :
    c.ancestryFrom n id a = a := by
  cases n with
  | zero => rfl
  | succ n => rw [ancestryFrom_succ, h, List.foldl_nil]

/-- A walk that may go higher than there are records left to meet is not cut off. -/
theorem Inv.ascent_ancestryFrom (hc : c.Inv) (n : Nat) :
    ∀ (id : TypeId) (a : Ancestry), c.unmet a.met < n → c.Ascent (c.baseTypes id) a (c.ancestryFrom n id a) := by
  induction n with
  | zero => exact fun _ _ h => absurd h (Nat.not_lt_zero _)
  | succ n ih =>
    intro id a hn
    rw [ancestryFrom_succ]
    replace hn := Nat.le_of_lt_succ hn
    generalize c.baseTypes id = bases
    induction bases generalizing a with
    | nil => exact .done a
    | cons base bases ihbases =>
      rw [List.foldl_cons, Ancestry.enter]
      split
      · rename_i hmet
        exact .skip hmet (ihbases a hn)
      · rename_i hnew
        have habove : c.Ascent (c.baseTypes base) { a with met := base :: a.met }
            (c.ancestryFrom n base { a with met := base :: a.met }) := by
          by_cases hbase : c.Has base
          · exact ih base _ (Nat.lt_of_lt_of_le (unmet_cons_lt hbase hnew) hn)
          · have hnone := hc.baseTypes_of_not_has hbase
            rw [ancestryFrom_of_baseTypes hnone, hnone]
            exact .done _
        have hmet : a.met ⊆ (c.ancestryFrom n base { a with met := base :: a.met }).met :=
          fun x hx => habove.met_subset (List.mem_cons_of_mem base hx)
        exact .enter hnew habove (ihbases _ (Nat.le_trans (unmet_le_of_subset hmet) hn))

/-! ## The walk over first bases -/

/-- A walk from base to first base, up to a type that has none or whose first base has been met. -/
inductive Climb (c : Catalog) : List TypeId → TypeId → List TypeId → Prop where
  | top {met : List TypeId} {id : TypeId} (h : (c.get id).bases = []) : Climb c met id []
  | stop {met : List TypeId} {id base : TypeId} (h : c.HasPrimaryBase id base) (hmet : base ∈ met) : Climb c met id []
  | step {met : List TypeId} {id base : TypeId} {chain : List TypeId} (h : c.HasPrimaryBase id base) (hnew : base ∉ met)
      (above : Climb c (base :: met) base chain) : Climb c met id (base :: chain)

namespace Climb

variable {met chain : List TypeId} {id : TypeId}

/-- A climb meets no type twice. -/
theorem nodup (h : c.Climb met id chain) : chain.Nodup ∧ ∀ t ∈ chain, t ∉ met := by
  induction h with
  | top => exact ⟨.nil, List.forall_mem_nil _⟩
  | stop => exact ⟨.nil, List.forall_mem_nil _⟩
  | @step met id base chain _ hnew _ ih =>
    obtain ⟨hnodup, hchain⟩ := ih
    refine ⟨List.nodup_cons.mpr ⟨fun hbase => hchain base hbase List.mem_cons_self, hnodup⟩, ?_⟩
    exact List.forall_mem_cons.mpr ⟨hnew, fun t ht hmet => hchain t ht (List.mem_cons_of_mem base hmet)⟩

/-- Each type of a climb is the primary base of the one before. -/
theorem isChain (h : c.Climb met id chain) : (id :: chain).IsChain c.HasPrimaryBase := by
  induction h with
  | top => exact .singleton _
  | stop => exact .singleton _
  | step h _ _ ih => exact List.isChain_cons_cons.mpr ⟨h, ih⟩

/-- All of a climb is reached along primary bases. -/
theorem transGen (h : c.Climb met id chain) : ∀ t ∈ chain, TransGen c.HasPrimaryBase id t := by
  induction h with
  | top => exact List.forall_mem_nil _
  | stop => exact List.forall_mem_nil _
  | step h _ _ ih => exact List.forall_mem_cons.mpr ⟨.single h, fun t ht => (ih t ht).head h⟩

/-- The first base of the last type has been met. -/
theorem closed (h : c.Climb met id chain) {t : TypeId} : c.HasPrimaryBase (chain.getLastD id) t → t ∈ met ∨ t ∈ chain := by
  induction h with
  | top hnone => exact fun ht => absurd hnone ht.bases_ne_nil
  | stop h hmet =>
    intro ht
    obtain rfl := h.unique ht
    exact Or.inl hmet
  | @step met id base chain _ _ _ ih =>
    intro ht
    rw [List.getLastD_cons] at ht
    rcases ih ht with hmet | hchain
    · rcases List.mem_cons.mp hmet with rfl | hmet
      · exact Or.inr List.mem_cons_self
      · exact Or.inl hmet
    · exact Or.inr (List.mem_cons_of_mem base hchain)

end Climb

/-- A type without bases has nothing above it. -/
theorem primaryChainFrom_of_bases {id : TypeId} (h : (c.get id).bases = []) (n : Nat) (met : List TypeId) :
    c.primaryChainFrom n met id = [] := by
  cases n with
  | zero => rfl
  | succ n => rw [primaryChainFrom, primaryBase?_eq_none_iff.mpr h]

/-- A handle without a record has no bases. -/
theorem Inv.bases_of_not_has (hc : c.Inv) {id : TypeId} (h : ¬c.Has id) : (c.get id).bases = [] :=
  List.map_eq_nil_iff.mp (hc.baseTypes_of_not_has h)

/-- A walk that may go higher than there are records left to meet is not cut off. -/
theorem Inv.climb_primaryChainFrom (hc : c.Inv) (n : Nat) :
    ∀ (met : List TypeId) (id : TypeId), c.unmet met < n → c.Climb met id (c.primaryChainFrom n met id) := by
  induction n with
  | zero => exact fun _ _ h => absurd h (Nat.not_lt_zero _)
  | succ n ih =>
    intro met id hn
    rw [primaryChainFrom]
    cases hbase : c.primaryBase? id with
    | none => exact .top (primaryBase?_eq_none_iff.mp hbase)
    | some base =>
      have hfirst : c.HasPrimaryBase id base := hasPrimaryBase_iff.mpr hbase
      dsimp only
      split
      · rename_i hmet
        exact .stop hfirst hmet
      · rename_i hnew
        refine .step hfirst hnew ?_
        by_cases hhas : c.Has base
        · exact ih _ _ (Nat.lt_of_lt_of_le (unmet_cons_lt hhas hnew) (Nat.le_of_lt_succ hn))
        · have hnone := hc.bases_of_not_has hhas
          rw [primaryChainFrom_of_bases hnone]
          exact .top hnone

/-- The primary chain is a climb: the bound is never met. -/
theorem Inv.climb_primaryChain (hc : c.Inv) (id : TypeId) : c.Climb [c.canonical id] id (c.primaryChain id) := by
  by_cases hid : c.Has id
  · refine hc.climb_primaryChainFrom _ _ id ?_
    exact Nat.lt_of_lt_of_le (unmet_cons_lt (hc.has_canonical hid) List.not_mem_nil) (c.unmet_le_length [])
  · have hnone := hc.bases_of_not_has hid
    rw [primaryChain, primaryChainFrom_of_bases hnone]
    exact .top hnone

/-- The root is the last type of the primary chain, or has the bases of the type itself. -/
theorem Inv.hasPrimaryBase_rootBase (hc : c.Inv) {id t : TypeId} :
    c.HasPrimaryBase (c.rootBase id) t ↔ c.HasPrimaryBase ((c.primaryChain id).getLastD id) t := by
  rw [rootBase, List.getLastD_eq_getLast?]
  cases (c.primaryChain id).getLast? with
  | some top => rfl
  | none => exact hc.hasPrimaryBase_canonical

/-! ## Ancestors -/

/-- The walk for ancestors is one without a bound, for more steps than there are records. -/
theorem Inv.ascent_ancestors (hc : c.Inv) (id : TypeId) {n : Nat} (hn : c.records.length < n) :
    c.Ascent (c.baseTypes id) ⟨[c.canonical id], []⟩ (c.ancestryFrom n id ⟨[c.canonical id], []⟩) :=
  hc.ascent_ancestryFrom n id _ (Nat.lt_of_le_of_lt (c.unmet_le_length _) hn)

/-- What has been met in the end is the type and its ancestors, once each. -/
theorem Inv.perm_ancestors (hc : c.Inv) (id : TypeId) :
    (c.canonical id :: c.ancestors id).Nodup ∧
      (c.ancestryFrom (c.records.length + 1) id ⟨[c.canonical id], []⟩).met.Perm (c.canonical id :: c.ancestors id) := by
  obtain ⟨hnodup, hperm⟩ := (hc.ascent_ancestors id (Nat.lt_succ_self _)).perm_met [c.canonical id] (List.pairwise_singleton _ _)
    (.refl _)
  exact ⟨hperm.nodup_iff.mp hnodup, hperm⟩

/-- The ancestors of a type are what it reaches along its bases, but for itself. -/
theorem Inv.mem_ancestors_iff (hc : c.Inv) {id t : TypeId} :
    t ∈ c.ancestors id ↔ TransGen c.HasBase id t ∧ t ≠ c.canonical id := by
  have hascent := hc.ascent_ancestors id (Nat.lt_succ_self _)
  obtain ⟨hnodup, hperm⟩ := hc.perm_ancestors id
  constructor
  · intro ht
    refine ⟨?_, fun h => (List.nodup_cons.mp hnodup).1 (h ▸ ht)⟩
    exact hascent.found_keeps (P := TransGen c.HasBase id) (fun x y hx hy => hx.tail hy)
      (fun b hb => .single (mem_baseTypes.mp hb)) (List.forall_mem_nil _) t ht
  · rintro ⟨hreach, hne⟩
    obtain ⟨hbases, hclosed⟩ := hascent.closed (List.forall_mem_nil _)
    -- the type itself may be met again on the way, and has the bases of the handle
    have hmet : ∀ {t}, TransGen c.HasBase id t → t ∈ c.canonical id :: c.ancestors id := by
      intro t hreach
      induction hreach with
      | single hbase => exact hperm.mem_iff.mp (hbases (mem_baseTypes.mpr hbase))
      | tail _ hbase ih =>
        rcases List.mem_cons.mp ih with rfl | hfound
        · rw [← mem_baseTypes, hc.baseTypes_canonical] at hbase
          exact hperm.mem_iff.mp (hbases hbase)
        · exact hperm.mem_iff.mp (hclosed _ hfound _ hbase)
    exact (List.mem_cons.mp (hmet hreach)).resolve_left hne

/-- Without circles above a type, its ancestors stand behind their own bases. -/
theorem Inv.basesFirst_ancestors (hc : c.Inv) {id : TypeId}
    (hacyclic : ∀ t, ReflTransGen c.HasBase id t → ¬TransGen c.HasBase t t) : c.BasesFirst (c.ancestors id) := by
  have hascent := hc.ascent_ancestors id (Nat.lt_succ_self _)
  refine (hascent.basesFirst (c.canonical id) ?_ [c.canonical id] (List.mem_singleton_self _) ?_ (List.pairwise_singleton _ _)
    (.refl _) ?_).2
  · exact fun t ht => hacyclic t (hc.transGen_canonical.mp ht).to_reflTransGen
  · intro s hs b hb
    obtain rfl := List.mem_singleton.mp hs
    exact hc.transGen_canonical.mpr (.single (mem_baseTypes.mp hb))
  · intro before t after hsplit
    exact absurd hsplit.symm (List.append_ne_nil_of_right_ne_nil before (List.cons_ne_nil t after))

end Catalog

/-- The ancestors of a type at any point of a session, of which the edits may change anything but the name of a type and whether it is
declared. A walk that may go higher finds the same. They are the types that can be reached along bases, but for the type itself,
once each, and what the type inherits are these. If no circle of bases can be reached, every ancestor stands behind all of its own.
The primary chain goes from first base to first base, over ancestors that are distinct, up to a root that has no first base or one
that was on the way. -/
theorem session_ancestors (o : Origin) (calls : List Call) (id : TypeId) :
    let c := (session o calls).catalog
    (∀ n, c.records.length < n → (c.ancestryFrom n id ⟨[c.canonical id], []⟩).found = c.ancestors id) ∧
      (c.ancestors id).Nodup ∧
      (∀ t, t ∈ c.ancestors id ↔ TransGen c.HasBase id t ∧ t ≠ c.canonical id) ∧
      (∀ t, c.inherits id t = true ↔ TransGen c.HasBase id (c.canonical t) ∧ c.canonical t ≠ c.canonical id) ∧
      ((∀ t, ReflTransGen c.HasBase id t → ¬TransGen c.HasBase t t) →
        ∀ before t after, c.ancestors id = before ++ t :: after → ∀ u, TransGen c.HasBase t u → u ∈ before) ∧
      (c.primaryChain id).Nodup ∧ (∀ t ∈ c.primaryChain id, t ∈ c.ancestors id) ∧
      (id :: c.primaryChain id).IsChain c.HasPrimaryBase ∧
      ∀ t, c.HasPrimaryBase (c.rootBase id) t → t = c.canonical id ∨ t ∈ c.primaryChain id := by
  intro c
  have hc : c.Inv := session_inv o calls
  have hclimb := hc.climb_primaryChain id
  obtain ⟨hnodup, hchain⟩ := hclimb.nodup
  refine ⟨?_, (List.nodup_cons.mp (hc.perm_ancestors id).1).2, fun _ => hc.mem_ancestors_iff, ?_, ?_, hnodup, ?_,
    hclimb.isChain, ?_⟩
  · intro n hn
    rw [(hc.ascent_ancestors id hn).unique (hc.ascent_ancestors id (Nat.lt_succ_self _))]
    rfl
  · intro t
    rw [Catalog.inherits, List.contains_iff_mem, hc.mem_ancestors_iff]
  · intro hacyclic before t after hsplit u hu
    exact (hc.basesFirst_ancestors hacyclic).mem_of_transGen hu hsplit
  · intro t ht
    have hreach := TransGen.mono (fun _ _ => Catalog.HasPrimaryBase.hasBase) _ _ (hclimb.transGen t ht)
    exact hc.mem_ancestors_iff.mpr ⟨hreach, fun h => hchain t ht (List.mem_singleton.mpr h)⟩
  · intro t ht
    exact (hclimb.closed (hc.hasPrimaryBase_rootBase.mp ht)).imp_left List.mem_singleton.mp

/-- A type with two bases, each of them written twice, that have a base in common, which has the type itself as its base. The primary
chain goes over the base that is written first, not over the last one. -/
example :
    let c := (session .empty [.placeholder "Leaf", .register { name := "Top", bases := [⟨0⟩] },
      .register { name := "Left", bases := [⟨1⟩] }, .register { name := "Right", bases := [⟨1⟩] },
      .register { name := "Leaf", bases := [⟨2⟩, ⟨3⟩, ⟨2⟩, ⟨3⟩] }, .settle]).catalog
    c.ancestors ⟨0⟩ = [⟨1⟩, ⟨2⟩, ⟨3⟩] ∧ c.primaryChain ⟨0⟩ = [⟨2⟩, ⟨1⟩] ∧ c.ancestors ⟨1⟩ = [⟨2⟩, ⟨3⟩, ⟨4⟩] := by
  decide +kernel

end HeaderAtlas
