import HeaderAtlas.Proofs.Catalog.Settlement

/-!
# Entering derived types

The last part of settlement goes through the declared types and enters each one with its bases. Of the records only the lists of
derived types change, and a list gets, in turn, the types that are gone through and have a base that stands for its record
(`record_foldl_linkBases`). A type that is entered everywhere it should be is not entered again.
-/

namespace HeaderAtlas

/-- A list of types with one more at its end, unless it is there. -/
def enter (l : List TypeId) (t : TypeId) : List TypeId := if t ∈ l then l else l ++ [t]

theorem mem_enter (l : List TypeId) (t x : TypeId) : x ∈ enter l t ↔ x ∈ l ∨ x = t := by
  rw [enter]
  split
  · rename_i ht
    constructor
    · exact Or.inl
    · rintro (hx | rfl)
      · exact hx
      · exact ht
  · rw [List.mem_append, List.mem_singleton]

theorem mem_foldl_enter (ts : List TypeId) (x : TypeId) : ∀ l, x ∈ ts.foldl enter l ↔ x ∈ l ∨ x ∈ ts := by
  induction ts with
  | nil => simp
  | cons t ts ih =>
    intro l
    rw [List.foldl_cons, ih, mem_enter, List.mem_cons, or_assoc]

/-- Different types that the list has not are appended. -/
theorem foldl_enter_of_disjoint (ts : List TypeId) (hts : ts.Nodup) :
    ∀ l, (∀ t ∈ ts, t ∉ l) → ts.foldl enter l = l ++ ts := by
  induction ts with
  | nil => simp
  | cons t ts ih =>
    intro l hl
    obtain ⟨ht, hnodup⟩ := List.nodup_cons.mp hts
    rw [List.foldl_cons, enter, if_neg (hl t List.mem_cons_self), ih hnodup, List.append_assoc, List.singleton_append]
    intro x hx hmem
    rcases List.mem_append.mp hmem with hmem | hmem
    · exact hl x (List.mem_cons_of_mem t hx) hmem
    · rw [List.mem_singleton.mp hmem] at hx
      exact ht hx

/-- Steps that each change nothing change nothing together. -/
theorem foldl_eq_self {α β : Type} {f : β → α → β} {b : β} (l : List α) (h : ∀ a ∈ l, f b a = b) : l.foldl f b = b := by
  induction l with
  | nil => rfl
  | cons a l ih =>
    rw [List.foldl_cons, h a List.mem_cons_self]
    exact ih fun x hx => h x (List.mem_cons_of_mem a hx)

namespace Catalog

variable {c : Catalog}

/-- The first type has the second, another one, as a base. -/
def Derives (c : Catalog) (t b : TypeId) : Prop := t ≠ b ∧ ∃ base ∈ (c.record t).bases, c.canonical base = b

instance (c : Catalog) (t b : TypeId) : Decidable (c.Derives t b) :=
  inferInstanceAs (Decidable (t ≠ b ∧ ∃ base ∈ (c.record t).bases, c.canonical base = b))

/-- A record stands for a declared type exactly if the order lists it. -/
theorem Inv.isRegistered_canonical (hc : c.Inv) (id : TypeId) :
    c.isRegistered (c.canonical id) = true ↔ c.canonical id ∈ c.order := by
  rw [isRegistered, get, hc.canonical_canonical, hc.mem_order, beq_iff_eq]

theorem Inv.has_of_mem_order (hc : c.Inv) {id : TypeId} (h : id ∈ c.order) : c.Has id :=
  (hc.lookup_declared (hc.mem_order.mp h)).1

/-! ## One base -/

/-- A type entered with a record as derived from it. -/
def enterDerived (t : TypeId) (d : TypeDef) : TypeDef := { d with derived := enter d.derived t }

theorem enterDerived_of_mem {t : TypeId} {d : TypeDef} (h : t ∈ d.derived) : enterDerived t d = d := by
  rw [enterDerived, enter, if_pos h]

theorem enterDerived_enterDerived (t : TypeId) (d : TypeDef) : enterDerived t (enterDerived t d) = enterDerived t d :=
  enterDerived_of_mem ((mem_enter _ _ _).mpr (Or.inr rfl))

/-- A type is entered with a base that stands for another declared type. -/
theorem Inv.linkBase_eq (hc : c.Inv) (t base : TypeId) :
    linkBase t c base =
      if c.canonical base ∈ c.order ∧ t ≠ c.canonical base then c.setRecord (c.canonical base) (enterDerived t) else c := by
  have henter : (fun d : TypeDef => if t ∈ d.derived then d else { d with derived := d.derived ++ [t] }) = enterDerived t := by
    funext d
    rw [enterDerived, enter]
    split <;> rfl
  rw [linkBase, henter]
  by_cases ht : c.canonical base = t
  · rw [if_pos (Or.inl ht), if_neg (fun h => h.2 ht.symm)]
  · have hiff := hc.isRegistered_canonical base
    by_cases hreg : c.canonical base ∈ c.order
    · rw [hiff.mpr hreg, if_neg (fun h => h.elim ht Bool.false_ne_true), if_pos ⟨hreg, Ne.symm ht⟩]
    · have hfalse : c.isRegistered (c.canonical base) = false := Bool.eq_false_iff.mpr fun h => hreg (hiff.mp h)
      rw [hfalse, if_pos (Or.inr Bool.not_false), if_neg (fun h => hreg h.1)]

theorem Inv.record_linkBase (hc : c.Inv) (t base b : TypeId) :
    (linkBase t c base).record b =
      if b ∈ c.order ∧ t ≠ b ∧ c.canonical base = b then enterDerived t (c.record b) else c.record b := by
  rw [hc.linkBase_eq]
  split
  · rename_i h
    rw [record_setRecord]
    by_cases hb : b = c.canonical base
    · subst hb
      rw [if_pos ⟨rfl, hc.has_of_mem_order h.1⟩, if_pos ⟨h.1, h.2, rfl⟩]
    · rw [if_neg (fun he => hb he.1), if_neg (fun he => hb he.2.2.symm)]
  · rename_i h
    rw [if_neg]
    rintro ⟨hb, hne, rfl⟩
    exact h ⟨hb, hne⟩

/-! ## All bases of a type -/

/-- Entering a type with bases one after the other is entering it once with each record that a base stands for. -/
theorem Inv.record_foldl_linkBase (t b : TypeId) (bases : List TypeId) :
    ∀ {c : Catalog}, c.Inv → (bases.foldl (linkBase t) c).record b =
      if b ∈ c.order ∧ t ≠ b ∧ ∃ base ∈ bases, c.canonical base = b then enterDerived t (c.record b) else c.record b := by
  induction bases with
  | nil =>
    intro c _
    rw [if_neg (fun h => nomatch h.2.2.choose_spec.1)]
    rfl
  | cons base bases ih =>
    intro c hc
    have hframe := sameFrame_linkBase t c base
    rw [List.foldl_cons, ih (hframe.inv hc), hc.record_linkBase, hframe.order_eq]
    simp only [hframe.canonical_eq, List.mem_cons, exists_eq_or_imp]
    by_cases hcond : b ∈ c.order ∧ t ≠ b
    · by_cases hfirst : c.canonical base = b
      · rw [if_pos (⟨hcond.1, hcond.2, hfirst⟩ : b ∈ c.order ∧ t ≠ b ∧ c.canonical base = b), enterDerived_enterDerived,
          ite_self, if_pos ⟨hcond.1, hcond.2, Or.inl hfirst⟩]
      · simp only [hfirst, false_or, and_false, if_false]
    · have hnot : ∀ p : Prop, ¬(b ∈ c.order ∧ t ≠ b ∧ p) := fun p h => hcond ⟨h.1, h.2.1⟩
      rw [if_neg (hnot _), if_neg (hnot _), if_neg (hnot _)]

theorem Inv.record_linkBases (hc : c.Inv) (t b : TypeId) :
    (c.linkBases t).record b = if b ∈ c.order ∧ c.Derives t b then enterDerived t (c.record b) else c.record b :=
  Inv.record_foldl_linkBase t b _ hc

/-- Entering a type leaves the bases of all types as they are. -/
theorem Inv.derives_linkBases (hc : c.Inv) (t x b : TypeId) : (c.linkBases t).Derives x b ↔ c.Derives x b := by
  have hbases : ((c.linkBases t).record x).bases = (c.record x).bases := by
    rw [hc.record_linkBases]
    split <;> rfl
  simp only [Derives, hbases, (sameFrame_linkBases c t).canonical_eq]

/-- A type that is entered with all its bases is not entered again. -/
theorem Inv.linkBases_eq_self (hc : c.Inv) {t : TypeId} (h : ∀ b ∈ c.order, c.Derives t b → t ∈ (c.record b).derived) :
    c.linkBases t = c := by
  apply foldl_eq_self
  intro base hbase
  rw [hc.linkBase_eq]
  split
  · rename_i hcond
    exact setRecord_of_eq (enterDerived_of_mem (h _ hcond.1 ⟨hcond.2, base, hbase, rfl⟩))
  · rfl

/-! ## All types -/

/-- The list of a declared type gets the types that are gone through and derive from it, in turn; no other record changes. -/
theorem Inv.record_foldl_linkBases (b : TypeId) (ts : List TypeId) :
    ∀ {c : Catalog}, c.Inv → (ts.foldl linkBases c).record b =
      if b ∈ c.order then
        { c.record b with derived := (ts.filter (c.Derives · b)).foldl enter (c.record b).derived }
      else c.record b := by
  induction ts with
  | nil => exact fun _ => (ite_self _).symm
  | cons t ts ih =>
    intro c hc
    have hframe := sameFrame_linkBases c t
    rw [List.foldl_cons, ih (hframe.inv hc), hc.record_linkBases, hframe.order_eq]
    simp only [hc.derives_linkBases]
    by_cases hb : b ∈ c.order
    · by_cases ht : c.Derives t b
      · rw [if_pos hb, if_pos hb, if_pos ⟨hb, ht⟩,
          List.filter_cons_of_pos (p := fun x => decide (c.Derives x b)) (decide_eq_true ht)]
        rfl
      · rw [if_pos hb, if_pos hb, if_neg (fun h => ht h.2), List.filter_cons_of_neg (by simpa using ht)]
    · rw [if_neg hb, if_neg hb, if_neg (fun h => hb h.1)]

/-- Going through types leaves who derives from whom. -/
theorem Inv.derives_foldl_linkBases (ts : List TypeId) (x b : TypeId) :
    ∀ {c : Catalog}, c.Inv → ((ts.foldl linkBases c).Derives x b ↔ c.Derives x b) := by
  induction ts with
  | nil => exact fun _ => Iff.rfl
  | cons t ts ih =>
    intro c hc
    rw [List.foldl_cons, ih ((sameFrame_linkBases c t).inv hc), hc.derives_linkBases]

/-- Going through types a second time changes nothing. -/
theorem Inv.foldl_linkBases_foldl (hc : c.Inv) (ts : List TypeId) :
    ts.foldl linkBases (ts.foldl linkBases c) = ts.foldl linkBases c := by
  have hframe : SameFrame c (ts.foldl linkBases c) := .foldl sameFrame_linkBases ts c
  apply foldl_eq_self
  intro t ht
  apply (hframe.inv hc).linkBases_eq_self
  intro b hb hd
  rw [hframe.order_eq] at hb
  rw [Inv.derives_foldl_linkBases ts t b hc] at hd
  rw [Inv.record_foldl_linkBases b ts hc, if_pos hb, mem_foldl_enter]
  exact Or.inr (List.mem_filter.mpr ⟨ht, decide_eq_true hd⟩)

/-- Who derives from whom is not changed by entering it. -/
theorem Inv.derives_settle (hc : c.Inv) (t b : TypeId) : c.settle.2.Derives t b ↔ c.settleRedirects.1.Derives t b :=
  Inv.derives_foldl_linkBases _ t b hc.settleRedirects

/-- Settlement enters with each declared type those that derive from it, behind the types that are entered already. -/
theorem Inv.derived_settle (hc : c.Inv) (b : TypeId) :
    (c.settle.2.record b).derived =
      if b ∈ c.settle.2.order then (c.settle.2.order.filter (c.settle.2.Derives · b)).foldl enter (c.record b).derived
      else (c.record b).derived := by
  have hrecord : c.settleRedirects.1.record b = c.record b := by
    rw [hc.pointed_settleRedirects.frame]
    rfl
  simp only [(sameFrame_settle c).order_eq, hc.derives_settle]
  rw [settle_snd, Inv.record_foldl_linkBases b c.settleRedirects.1.order hc.settleRedirects, hrecord]
  split <;> rfl

end Catalog

end HeaderAtlas
