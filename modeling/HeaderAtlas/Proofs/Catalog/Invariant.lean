import HeaderAtlas.Proofs.Session

/-!
# What a catalog keeps

The invariant of catalogs (`Catalog.Inv`): declared types and placeholders are where their tables say, the order lists the declared
types, and a redirect leads from a record that no name means to a declared one, of the same name and made later, or, from a
placeholder, of a name that the written one may mean. Along such redirects the place of a record grows, placeholders counting as
the lowest, so redirects never come back and `canonical` finds their end.
-/

namespace HeaderAtlas

/-! ## Written names -/

/-- The second name is what stands behind the last `::` of the first. -/
def IsLastPart (name part : String) : Prop :=
  ∃ front, name.toList = front ++ ':' :: ':' :: part.toList ∧ ¬[':', ':'] <:+: ':' :: part.toList

/-- There is no last part where there is no `::`. -/
theorem lastSegment?_eq_none_iff (cs : List Char) : lastSegment? cs = none ↔ ¬[':', ':'] <:+: cs := by
  induction cs with
  | nil => simp [lastSegment?]
  | cons c cs ih =>
    rw [lastSegment?.eq_def, List.infix_cons_iff, List.cons_prefix_cons]
    dsimp only
    cases h : lastSegment? cs with
    | some tail =>
      have hi : [':', ':'] <:+: cs := by
        rw [h] at ih
        simpa using ih
      simp [hi]
    | none =>
      have hi : ¬[':', ':'] <:+: cs := ih.mp h
      cases cs with
      | nil => simp
      | cons d ds =>
        simp only [hi, or_false, List.cons_prefix_cons, List.nil_prefix, and_true]
        rw [eq_comm (a := ':') (b := c), eq_comm (a := ':') (b := d)]
        simp

/-- The part that is found is the one behind the last `::`. -/
theorem lastSegment?_eq_some_iff (cs tail : List Char) :
    lastSegment? cs = some tail ↔ ∃ front, cs = front ++ ':' :: ':' :: tail ∧ ¬[':', ':'] <:+: ':' :: tail := by
  induction cs with
  | nil => simp [lastSegment?]
  | cons c cs ih =>
    rw [lastSegment?.eq_def]
    dsimp only
    have hnone := lastSegment?_eq_none_iff cs
    constructor
    · intro h
      cases hs : lastSegment? cs with
      | some found =>
        rw [hs] at h ih
        obtain ⟨front, hf, hi⟩ := ih.mp h
        exact ⟨c :: front, by rw [hf, List.cons_append], hi⟩
      | none =>
        rw [hs] at h
        cases cs with
        | nil => simp at h
        | cons d ds =>
          by_cases hcd : c = ':' ∧ d = ':'
          · obtain ⟨rfl, rfl⟩ := hcd
            obtain rfl : ds = tail := by simpa using h
            exact ⟨[], rfl, hnone.mp hs⟩
          · have hb : (c == ':' && d == ':') = false := by simpa using hcd
            simp [hb] at h
    · rintro ⟨front, hf, hi⟩
      cases front with
      | nil =>
        obtain ⟨rfl, rfl⟩ : c = ':' ∧ cs = ':' :: tail := by simpa using hf
        rw [hnone.mpr hi]
        rfl
      | cons e front =>
        have hcs : cs = front ++ ':' :: ':' :: tail := (List.cons.inj hf).2
        rw [ih.mpr ⟨front, hcs, hi⟩]

/-- A last part is shorter than the name. -/
theorem IsLastPart.ne {name part : String} (h : IsLastPart name part) : part ≠ name := by
  obtain ⟨front, hname, -⟩ := h
  rintro rfl
  have hlength := congrArg List.length hname
  simp only [List.length_append, List.length_cons] at hlength
  omega

/-- A name has one last part. -/
theorem IsLastPart.unique {name part part' : String} (h : IsLastPart name part) (h' : IsLastPart name part') : part = part' := by
  have hpart := (lastSegment?_eq_some_iff _ _).mpr h
  rw [(lastSegment?_eq_some_iff _ _).mpr h'] at hpart
  exact String.toList_inj.mp (Option.some.inj hpart).symm

namespace Catalog

/-- What a written name may mean: its whole, or what stands behind its last `::`. -/
def Means (written name : String) : Prop := name = written ∨ IsLastPart written name

/-- A written name that is declared means that type. -/
theorem lookupWritten_of_some {c : Catalog} {name : String} {id : TypeId} (h : c.lookup name = some id) :
    c.lookupWritten name = some id := by
  rw [lookupWritten, h]

/-- A written name means the type of its whole, or else the type of its last part. -/
theorem lookup_of_lookupWritten {c : Catalog} {written : String} {id : TypeId} (h : c.lookupWritten written = some id) :
    ∃ name, Means written name ∧ c.lookup name = some id := by
  rw [lookupWritten] at h
  cases hw : c.lookup written with
  | some found =>
    rw [hw] at h
    exact ⟨written, Or.inl rfl, hw.trans h⟩
  | none =>
    rw [hw] at h
    obtain ⟨tail, ht, hl⟩ := Option.bind_eq_some_iff.mp h
    refine ⟨String.ofList tail, Or.inr ?_, hl⟩
    rw [IsLastPart, String.toList_ofList]
    exact (lastSegment?_eq_some_iff _ _).mp ht

/-- A written name of which the last part is known is looked up as a whole, or else by that part. -/
theorem lookupWritten_of_isLastPart (c : Catalog) {name part : String} (h : IsLastPart name part) :
    c.lookupWritten name = match c.lookup name with
      | some id => some id
      | none => c.lookup part := by
  rw [lookupWritten, (lastSegment?_eq_some_iff _ _).mpr h]
  cases c.lookup name with
  | some id => rfl
  | none => rw [Option.bind_some, String.ofList_toList]

/-- A written name means nothing exactly if neither its whole nor its last part is declared. -/
theorem lookupWritten_eq_none_iff (c : Catalog) (written : String) :
    c.lookupWritten written = none ↔ c.lookup written = none ∧ ∀ part, IsLastPart written part → c.lookup part = none := by
  rw [lookupWritten]
  cases hw : c.lookup written with
  | some found => simp
  | none =>
    simp only [true_and, Option.bind_eq_none_iff]
    constructor
    · intro h part hp
      have := h part.toList ((lastSegment?_eq_some_iff _ _).mpr hp)
      rwa [String.ofList_toList] at this
    · intro h tail ht
      apply h
      rw [IsLastPart, String.toList_ofList]
      exact (lastSegment?_eq_some_iff _ _).mp ht

/-! ## Records, placeholders and declared types -/

/-- The handle addresses a record. -/
def Has (c : Catalog) (id : TypeId) : Prop := id.index < c.records.length

/-- A handle without a record reads as the default record. -/
theorem record_of_not_has {c : Catalog} {id : TypeId} (h : ¬c.Has id) : c.record id = default := by
  rw [record, List.getElem?_eq_none (Nat.not_lt.mp h), Option.getD_none]

/-- The record of the handle stands for a name that was referred to before it was declared. -/
def IsPlaceholder (c : Catalog) (id : TypeId) : Prop := ∃ name, c.placeholders.get? name = some id

/-- The record of the handle was declared under this name, and perhaps declared again since. -/
def Declared (c : Catalog) (id : TypeId) (name : String) : Prop :=
  c.Has id ∧ (c.record id).name = name ∧ ¬c.IsPlaceholder id

/-- The first record may be redirected to the second. -/
structure Links (c : Catalog) (a b : TypeId) : Prop where
  source : c.Has a
  /-- No name means the first record. -/
  idle : ∀ name, c.lookup name ≠ some a
  target : c.Declared b (c.record b).name
  later : ¬c.IsPlaceholder a → (c.record b).name = (c.record a).name ∧ a.index < b.index
  meant : c.IsPlaceholder a → Means (c.record a).name (c.record b).name

/-- What every change of a catalog and every settlement keeps. -/
structure Inv (c : Catalog) : Prop where
  length_redirect : c.redirect.length = c.records.length
  lookup_declared : ∀ {name id}, c.lookup name = some id → c.Declared id name
  order_sorted : c.order.Pairwise fun a b => a.index < b.index
  mem_order : ∀ {id}, id ∈ c.order ↔ c.lookup (c.record id).name = some id
  placeholder : ∀ {name id}, c.placeholders.get? name = some id →
    c.Has id ∧ (c.record id).name = name ∧ (c.record id).flags.isComplete = false
  links : ∀ {id}, c.next id ≠ id → c.Links id (c.next id)
  superseded : ∀ {a b}, (a, b) ∈ c.superseded → c.Links a b ∧ ¬c.IsPlaceholder a
  /-- A declared name is never given up, and the record it means is the last one declared. -/
  declared : ∀ {id name}, c.Declared id name →
    ∃ current, c.lookup name = some current ∧ id.index ≤ current.index ∧
      (current = id ∨ ∃ replacement, (id, replacement) ∈ c.superseded)

/-- No redirect leads back to where it starts. -/
theorem Links.ne {c : Catalog} {a b : TypeId} (h : c.Links a b) : b ≠ a := by
  rintro rfl
  have := (h.later h.target.2.2).2
  omega

/-- The order lists no type twice. -/
theorem Inv.order_nodup {c : Catalog} (hc : c.Inv) : c.order.Nodup :=
  hc.order_sorted.imp fun hlt he => Nat.ne_of_lt hlt (congrArg TypeId.index he)

/-- The empty catalog keeps the invariant. -/
theorem inv_empty : empty.Inv where
  length_redirect := rfl
  lookup_declared h := nomatch h
  order_sorted := .nil
  mem_order := ⟨(nomatch ·), (nomatch ·)⟩
  placeholder h := nomatch h
  links h := absurd rfl h
  superseded h := nomatch h
  declared h := nomatch h.1

/-! ## Catalogs with more in them -/

/-- The second catalog has the records of the first under the same names, and gives none of them a further name. -/
structure Extends (c c' : Catalog) : Prop where
  has : ∀ {id}, c.Has id → c'.Has id
  name_eq : ∀ {id}, c.Has id → (c'.record id).name = (c.record id).name
  isPlaceholder_iff : ∀ {id}, c.Has id → (c'.IsPlaceholder id ↔ c.IsPlaceholder id)
  lookup_of_has : ∀ {name id}, c.Has id → c'.lookup name = some id → c.lookup name = some id

/-- A record stays declared under its name. -/
theorem Extends.declared {c c' : Catalog} (h : Extends c c') {id : TypeId} {name : String} (hd : c.Declared id name) :
    c'.Declared id name := by
  refine ⟨h.has hd.1, (h.name_eq hd.1).trans hd.2.1, ?_⟩
  rw [h.isPlaceholder_iff hd.1]
  exact hd.2.2

/-- A record that was there and is declared now was declared before. -/
theorem Extends.declared_of_has {c c' : Catalog} (h : Extends c c') {id : TypeId} {name : String} (hid : c.Has id)
    (hd : c'.Declared id name) : c.Declared id name := by
  refine ⟨hid, (h.name_eq hid).symm.trans hd.2.1, ?_⟩
  rw [← h.isPlaceholder_iff hid]
  exact hd.2.2

/-- A redirect that might be set may still be set. -/
theorem Extends.links {c c' : Catalog} (h : Extends c c') {a b : TypeId} (hl : c.Links a b) : c'.Links a b := by
  have ha := h.name_eq hl.source
  have hb := h.name_eq hl.target.1
  refine ⟨h.has hl.source, fun name hn => hl.idle name (h.lookup_of_has hl.source hn), ?_, ?_, ?_⟩
  · rw [hb]
    exact h.declared hl.target
  · rw [h.isPlaceholder_iff hl.source, ha, hb]
    exact hl.later
  · rw [h.isPlaceholder_iff hl.source, ha, hb]
    exact hl.meant

/-! ## Changes keep the invariant -/

/-- The handles of a catalog that has got one more record. -/
theorem has_concat {c c' : Catalog} {d : TypeDef} (h : c'.records = c.records ++ [d]) (id : TypeId) :
    c'.Has id ↔ c.Has id ∨ id = ⟨c.records.length⟩ := by
  rw [Has, Has, h, List.length_append, List.length_singleton]
  constructor
  · intro hid
    rcases Nat.lt_or_eq_of_le (Nat.le_of_lt_succ hid) with hid | hid
    · exact Or.inl hid
    · exact Or.inr (TypeId.eq_of_index_eq hid)
  · rintro (hid | rfl)
    · omega
    · exact Nat.lt_succ_self _

/-- The records that were there are kept. -/
theorem record_concat_of_has {c c' : Catalog} {d : TypeDef} (h : c'.records = c.records ++ [d]) {id : TypeId}
    (hid : c.Has id) : c'.record id = c.record id := by
  rw [record_concat h, if_neg (Nat.ne_of_lt hid)]

section register

variable {c : Catalog} (d : TypeDef)

/-- A declared type has the next record. -/
theorem has_register (id : TypeId) : (c.register d).2.Has id ↔ c.Has id ∨ id = ⟨c.records.length⟩ :=
  has_concat (records_register c d) id

/-- Declaring a type makes no placeholder. -/
theorem isPlaceholder_register (id : TypeId) : (c.register d).2.IsPlaceholder id ↔ c.IsPlaceholder id := by
  rw [IsPlaceholder, placeholders_register, IsPlaceholder]

/-- Declaring a type leaves the records that are there. -/
theorem record_register_of_has {id : TypeId} (h : c.Has id) : (c.register d).2.record id = c.record id :=
  record_concat_of_has (records_register c d) h

/-- The next record is that of the declared type. -/
theorem record_register_self : (c.register d).2.record ⟨c.records.length⟩ = d := by
  rw [record_concat (records_register c d), if_pos rfl]

/-- A catalog grows by a declared type. -/
theorem extends_register : Extends c (c.register d).2 where
  has hid := (has_register d _).mpr (Or.inl hid)
  name_eq hid := congrArg TypeDef.name (record_register_of_has d hid)
  isPlaceholder_iff _ := isPlaceholder_register d _
  lookup_of_has := by
    intro name id hid hl
    rw [lookup_register] at hl
    split at hl
    · cases hl
      exact absurd hid (Nat.lt_irrefl _)
    · exact hl

/-- A new declaration. -/
theorem declared_register (hc : c.Inv) : (c.register d).2.Declared (c.register d).1 d.name := by
  refine ⟨(has_register d _).mpr (Or.inr rfl), congrArg TypeDef.name (record_register_self d), ?_⟩
  rw [isPlaceholder_register]
  rintro ⟨name, h⟩
  exact Nat.lt_irrefl _ (hc.placeholder h).1

/-- The record that a newly declared name meant before may be redirected to the new one. -/
theorem links_register (hc : c.Inv) {old : TypeId} (h : c.lookup d.name = some old) :
    (c.register d).2.Links old ⟨c.records.length⟩ := by
  obtain ⟨hhas, hname, hp⟩ := hc.lookup_declared h
  refine ⟨(has_register d old).mpr (Or.inl hhas), ?_, ?_, ?_, ?_⟩
  · intro name hl
    rw [lookup_register] at hl
    split at hl
    · cases hl
      exact Nat.lt_irrefl _ hhas
    · rename_i hne
      exact hne ((hc.lookup_declared hl).2.1.symm.trans hname)
  · rw [record_register_self]
    exact declared_register d hc
  · intro _
    rw [record_register_self, record_register_of_has d hhas]
    exact ⟨hname.symm, hhas⟩
  · intro hp'
    exact absurd ((isPlaceholder_register d old).mp hp') hp

/-- The order after a declaration lists what the names mean after it. -/
theorem mem_order_register (hc : c.Inv) (id : TypeId) :
    id ∈ (c.register d).2.order ↔ (c.register d).2.lookup ((c.register d).2.record id).name = some id := by
  rw [order_register, List.mem_append, List.mem_filter, List.mem_singleton, lookup_register]
  by_cases hid : id = ⟨c.records.length⟩
  · subst hid
    simp [record_register_self]
  · have hrec : (c.register d).2.record id = c.record id := by
      rw [record_concat (records_register c d), if_neg (fun h => hid (TypeId.eq_of_index_eq h))]
    simp only [hid, or_false, hrec, bne_iff_ne, hc.mem_order]
    split
    · rename_i hname
      rw [hname]
      constructor
      · exact fun h => absurd h.1 h.2
      · exact fun h => absurd (Option.some.inj h).symm hid
    · rename_i hname
      constructor
      · exact fun h => h.1
      · intro h
        refine ⟨h, fun hd => hname ?_⟩
        exact (hc.lookup_declared hd).2.1

/-- Declaring a type keeps the invariant: an older type of its name is redirected to it. -/
theorem Inv.register (hc : c.Inv) : (c.register d).2.Inv where
  length_redirect := by
    rw [redirect_register, records_register, List.length_append, List.length_append, hc.length_redirect]
    rfl
  lookup_declared := by
    intro name id h
    rw [lookup_register] at h
    split at h
    · rename_i hname
      cases h
      rw [hname]
      exact declared_register d hc
    · exact (extends_register d).declared (hc.lookup_declared h)
  order_sorted := by
    rw [order_register, List.pairwise_append]
    refine ⟨hc.order_sorted.filter _, List.pairwise_singleton _ _, ?_⟩
    intro a ha b hb
    rw [List.mem_singleton] at hb
    subst hb
    exact (hc.lookup_declared (hc.mem_order.mp (List.mem_filter.mp ha).1)).1
  mem_order := mem_order_register d hc _
  placeholder := by
    intro name id h
    rw [placeholders_register] at h
    obtain ⟨hhas, hrest⟩ := hc.placeholder h
    rw [record_register_of_has d hhas]
    exact ⟨(has_register d id).mpr (Or.inl hhas), hrest⟩
  links := by
    intro id h
    rw [next_concat hc.length_redirect (redirect_register c d)] at h ⊢
    exact (extends_register d).links (hc.links h)
  superseded := by
    intro a b h
    rw [isPlaceholder_register]
    rcases (mem_superseded_register c d a b).mp h with hold | ⟨hl, rfl⟩
    · exact ⟨(extends_register d).links (hc.superseded hold).1, (hc.superseded hold).2⟩
    · exact ⟨links_register d hc hl, (hc.lookup_declared hl).2.2⟩
  declared := by
    intro id name h
    rcases (has_register d id).mp h.1 with hhas | rfl
    · obtain ⟨current, hl, hle, hcur⟩ := hc.declared ((extends_register d).declared_of_has hhas h)
      by_cases hname : name = d.name
      · subst hname
        refine ⟨⟨c.records.length⟩, by rw [lookup_register, if_pos rfl], Nat.le_of_lt hhas, Or.inr ?_⟩
        rcases hcur with rfl | ⟨b, hb⟩
        · exact ⟨_, (mem_superseded_register c d _ _).mpr (Or.inr ⟨hl, rfl⟩)⟩
        · exact ⟨b, (mem_superseded_register c d _ _).mpr (Or.inl hb)⟩
      · refine ⟨current, by rw [lookup_register, if_neg hname, hl], hle, ?_⟩
        rcases hcur with rfl | ⟨b, hb⟩
        · exact Or.inl rfl
        · exact Or.inr ⟨b, (mem_superseded_register c d _ _).mpr (Or.inl hb)⟩
    · have hname : d.name = name := by
        rw [← h.2.1, record_register_self]
      exact ⟨_, by rw [lookup_register, if_pos hname.symm], Nat.le_refl _, Or.inl rfl⟩

end register

section placeholder

variable {c : Catalog} (name : String)

/-- A placeholder has the next record. -/
theorem has_hold (id : TypeId) : (c.hold name).Has id ↔ c.Has id ∨ id = ⟨c.records.length⟩ :=
  has_concat (records_hold c name) id

/-- Placeholders are found under their names, the new one too. -/
theorem get?_placeholders_hold (other : String) :
    (c.hold name).placeholders.get? other = if other = name then some ⟨c.records.length⟩ else c.placeholders.get? other :=
  Table.get?_insert _ _ _ _

/-- A placeholder is that of its name. -/
theorem get?_placeholder (c : Catalog) (name : String) :
    (c.placeholder name).2.placeholders.get? name = some (c.placeholder name).1 := by
  cases hn : c.placeholders.get? name with
  | some p => rw [placeholder_of_some hn, hn]
  | none => rw [placeholder_of_none hn, get?_placeholders_hold, if_pos rfl]

/-- The new placeholder is one, and no other is lost. -/
theorem isPlaceholder_hold (hn : c.placeholders.get? name = none) (id : TypeId) :
    (c.hold name).IsPlaceholder id ↔ c.IsPlaceholder id ∨ id = ⟨c.records.length⟩ := by
  constructor
  · rintro ⟨other, h⟩
    rw [get?_placeholders_hold] at h
    split at h
    · exact Or.inr (Option.some.inj h).symm
    · exact Or.inl ⟨other, h⟩
  · rintro (⟨other, h⟩ | rfl)
    · have hne : other ≠ name := by
        rintro rfl
        rw [hn] at h
        cases h
      exact ⟨other, by rw [get?_placeholders_hold, if_neg hne, h]⟩
    · exact ⟨name, by rw [get?_placeholders_hold, if_pos rfl]⟩

/-- A placeholder leaves the records that are there. -/
theorem record_hold_of_has {id : TypeId} (h : c.Has id) : (c.hold name).record id = c.record id :=
  record_concat_of_has (records_hold c name) h

/-- A catalog grows by a placeholder. -/
theorem extends_hold (hn : c.placeholders.get? name = none) : Extends c (c.hold name) where
  has hid := (has_hold name _).mpr (Or.inl hid)
  name_eq hid := congrArg TypeDef.name (record_hold_of_has name hid)
  isPlaceholder_iff := by
    intro id hid
    rw [isPlaceholder_hold name hn, or_iff_left]
    rintro rfl
    exact Nat.lt_irrefl _ hid
  lookup_of_has _ hl := hl

/-- Making a placeholder keeps the invariant. -/
theorem Inv.hold (hc : c.Inv) (hn : c.placeholders.get? name = none) : (c.hold name).Inv where
  length_redirect := by
    rw [Catalog.hold, List.length_append, List.length_append, hc.length_redirect]
    rfl
  lookup_declared h := (extends_hold name hn).declared (hc.lookup_declared h)
  order_sorted := hc.order_sorted
  mem_order := by
    intro id
    by_cases hid : id = ⟨c.records.length⟩
    · subst hid
      -- no name means a record that is not there yet
      constructor
      · exact fun h => absurd (hc.lookup_declared (hc.mem_order.mp h)).1 (Nat.lt_irrefl _)
      · exact fun h => absurd (hc.lookup_declared h).1 (Nat.lt_irrefl _)
    · rw [record_concat (records_hold c name), if_neg (fun h => hid (TypeId.eq_of_index_eq h))]
      exact hc.mem_order
  placeholder := by
    intro other id h
    rw [get?_placeholders_hold] at h
    split at h
    · rename_i hother
      cases h
      rw [record_concat (records_hold c name), if_pos rfl]
      exact ⟨(has_hold name _).mpr (Or.inr rfl), hother.symm, rfl⟩
    · obtain ⟨hhas, hrest⟩ := hc.placeholder h
      rw [record_hold_of_has name hhas]
      exact ⟨(has_hold name id).mpr (Or.inl hhas), hrest⟩
  links := by
    intro id h
    rw [next_concat hc.length_redirect (redirect_hold c name)] at h ⊢
    exact (extends_hold name hn).links (hc.links h)
  superseded := by
    intro a b h
    obtain ⟨hl, hp⟩ := hc.superseded h
    rw [(extends_hold name hn).isPlaceholder_iff hl.source]
    exact ⟨(extends_hold name hn).links hl, hp⟩
  declared := by
    intro id n h
    have hhas : c.Has id := by
      rcases (has_hold name id).mp h.1 with hhas | rfl
      · exact hhas
      · exact absurd ((isPlaceholder_hold name hn _).mpr (Or.inr rfl)) h.2.2
    exact hc.declared ((extends_hold name hn).declared_of_has hhas h)

end placeholder

/-- The catalogs differ in the content of records and in free functions, globals and literals only. -/
structure SameFrame (c c' : Catalog) : Prop where
  redirect_eq : c'.redirect = c.redirect
  names_eq : c'.names = c.names
  order_eq : c'.order = c.order
  placeholders_eq : c'.placeholders = c.placeholders
  superseded_eq : c'.superseded = c.superseded
  length_eq : c'.records.length = c.records.length
  name_eq : ∀ id, (c'.record id).name = (c.record id).name
  isComplete_eq : ∀ id, (c'.record id).flags.isComplete = (c.record id).flags.isComplete

namespace SameFrame

variable {c c' c'' : Catalog}

theorem refl (c : Catalog) : SameFrame c c := ⟨rfl, rfl, rfl, rfl, rfl, rfl, fun _ => rfl, fun _ => rfl⟩

theorem trans (h : SameFrame c c') (h' : SameFrame c' c'') : SameFrame c c'' where
  redirect_eq := h'.redirect_eq.trans h.redirect_eq
  names_eq := h'.names_eq.trans h.names_eq
  order_eq := h'.order_eq.trans h.order_eq
  placeholders_eq := h'.placeholders_eq.trans h.placeholders_eq
  superseded_eq := h'.superseded_eq.trans h.superseded_eq
  length_eq := h'.length_eq.trans h.length_eq
  name_eq id := (h'.name_eq id).trans (h.name_eq id)
  isComplete_eq id := (h'.isComplete_eq id).trans (h.isComplete_eq id)

/-- An edit that keeps the name of a record, and whether it is declared, keeps the frame. -/
theorem setRecord (c : Catalog) (id : TypeId) {f : TypeDef → TypeDef} (hn : ∀ d, (f d).name = d.name)
    (hc : ∀ d, (f d).flags.isComplete = d.flags.isComplete) : SameFrame c (c.setRecord id f) where
  redirect_eq := rfl
  names_eq := rfl
  order_eq := rfl
  placeholders_eq := rfl
  superseded_eq := rfl
  length_eq := length_records_setRecord c id f
  name_eq i := by
    rw [record_setRecord]
    split
    · exact hn _
    · rfl
  isComplete_eq i := by
    rw [record_setRecord]
    split
    · exact hc _
    · rfl

/-- Redirects are in the frame. -/
theorem next_eq (h : SameFrame c c') (id : TypeId) : c'.next id = c.next id := by
  rw [next, h.redirect_eq]
  rfl

/-- Where redirects lead is in the frame. -/
theorem canonical_eq (h : SameFrame c c') (id : TypeId) : c'.canonical id = c.canonical id :=
  canonical_congr h.redirect_eq id

/-- What names mean is in the frame. -/
theorem lookup_eq (h : SameFrame c c') (name : String) : c'.lookup name = c.lookup name := by
  rw [lookup, h.names_eq]
  rfl

/-- Which records there are is in the frame. -/
theorem has_iff (h : SameFrame c c') (id : TypeId) : c'.Has id ↔ c.Has id := by
  rw [Has, h.length_eq]
  rfl

/-- Which records are placeholders is in the frame. -/
theorem isPlaceholder_iff (h : SameFrame c c') (id : TypeId) : c'.IsPlaceholder id ↔ c.IsPlaceholder id := by
  rw [IsPlaceholder, h.placeholders_eq]
  rfl

/-- Which records are declared, and under which names, is in the frame. -/
theorem declared_iff (h : SameFrame c c') (id : TypeId) (name : String) : c'.Declared id name ↔ c.Declared id name := by
  rw [Declared, h.has_iff, h.name_eq, h.isPlaceholder_iff]
  rfl

/-- A catalog with the same frame has all that was in it. -/
theorem toExtends (h : SameFrame c c') : Extends c c' where
  has hid := (h.has_iff _).mpr hid
  name_eq _ := h.name_eq _
  isPlaceholder_iff _ := h.isPlaceholder_iff _
  lookup_of_has _ hl := (h.lookup_eq _).symm.trans hl

/-- The invariant is about the frame only. -/
theorem inv (h : SameFrame c c') (hc : c.Inv) : c'.Inv where
  length_redirect := by rw [h.redirect_eq, h.length_eq, hc.length_redirect]
  lookup_declared := by
    intro name id hl
    rw [h.lookup_eq] at hl
    exact (h.declared_iff id name).mpr (hc.lookup_declared hl)
  order_sorted := by
    rw [h.order_eq]
    exact hc.order_sorted
  mem_order := by
    intro id
    rw [h.order_eq, h.lookup_eq, h.name_eq]
    exact hc.mem_order
  placeholder := by
    intro name id hp
    rw [h.placeholders_eq] at hp
    rw [h.has_iff, h.name_eq, h.isComplete_eq]
    exact hc.placeholder hp
  links := by
    intro id hn
    rw [h.next_eq] at hn ⊢
    exact h.toExtends.links (hc.links hn)
  superseded := by
    intro a b hs
    rw [h.superseded_eq] at hs
    rw [h.isPlaceholder_iff]
    exact ⟨h.toExtends.links (hc.superseded hs).1, (hc.superseded hs).2⟩
  declared := by
    intro id name hd
    rw [h.declared_iff] at hd
    rw [h.lookup_eq, h.superseded_eq]
    exact hc.declared hd

end SameFrame

/-- Editing the content of a record keeps the frame. -/
theorem sameFrame_edit (c : Catalog) (id : TypeId) (e : ContentEdit) : SameFrame c (c.edit id e.apply) :=
  SameFrame.setRecord c _ e.name_apply e.isComplete_apply

/-- Functions and globals are no part of the frame. -/
theorem sameFrame_addFunction (c : Catalog) (m : Method) : SameFrame c (c.addFunction m) :=
  ⟨rfl, rfl, rfl, rfl, rfl, rfl, fun _ => rfl, fun _ => rfl⟩

/-- A global is not in the frame. -/
theorem sameFrame_addGlobal (c : Catalog) (p : Property) : SameFrame c (c.addGlobal p) :=
  ⟨rfl, rfl, rfl, rfl, rfl, rfl, fun _ => rfl, fun _ => rfl⟩

/-- Every change keeps the invariant. -/
theorem Inv.change {c : Catalog} (hc : c.Inv) (x : Change) : (x.apply c).Inv := by
  cases x with
  | register d => exact hc.register d
  | placeholder name =>
    rw [Change.apply]
    rcases c.placeholder_snd name with h | ⟨hn, h⟩
    · rw [h]
      exact hc
    · rw [h]
      exact hc.hold name hn
  | edit id e => exact (sameFrame_edit c id e).inv hc
  | addFunction m => exact (sameFrame_addFunction c m).inv hc
  | addGlobal p => exact (sameFrame_addGlobal c p).inv hc

/-- Changes only add to a catalog. -/
theorem extends_change (c : Catalog) (x : Change) : Extends c (x.apply c) := by
  cases x with
  | register d => exact extends_register d
  | placeholder name =>
    rw [Change.apply]
    rcases c.placeholder_snd name with h | ⟨hn, h⟩
    · rw [h]
      exact (SameFrame.refl c).toExtends
    · rw [h]
      exact extends_hold name hn
  | edit id e => exact (sameFrame_edit c id e).toExtends
  | addFunction m => exact (sameFrame_addFunction c m).toExtends
  | addGlobal p => exact (sameFrame_addGlobal c p).toExtends

/-- A name keeps its placeholder, whatever is changed. -/
theorem get?_placeholders_change {c : Catalog} {name : String} {id : TypeId} (h : c.placeholders.get? name = some id)
    (x : Change) : (x.apply c).placeholders.get? name = some id := by
  cases x with
  | register d =>
    rw [Change.apply, placeholders_register]
    exact h
  | placeholder n =>
    rw [Change.apply]
    rcases c.placeholder_snd n with hs | ⟨hn, hs⟩
    · rw [hs]
      exact h
    · have hne : name ≠ n := by
        rintro rfl
        rw [hn] at h
        cases h
      rw [hs, get?_placeholders_hold, if_neg hne]
      exact h
  | edit i e => exact h
  | addFunction m => exact h
  | addGlobal p => exact h

/-- Only settlement sets redirects. -/
theorem Inv.next_change {c : Catalog} (hc : c.Inv) (x : Change) (id : TypeId) : (x.apply c).next id = c.next id := by
  cases x with
  | register d => exact next_concat hc.length_redirect (redirect_register c d) id
  | placeholder n =>
    rw [Change.apply]
    rcases c.placeholder_snd n with h | ⟨-, h⟩
    · rw [h]
    · rw [h]
      exact next_concat hc.length_redirect (redirect_hold c n) id
  | edit i e => rfl
  | addFunction m => rfl
  | addGlobal p => rfl

end Catalog

end HeaderAtlas
