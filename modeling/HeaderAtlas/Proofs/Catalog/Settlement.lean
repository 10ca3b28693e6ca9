import HeaderAtlas.Proofs.Catalog.Canonical

/-!
# What settlement does

The redirects of settlement come from one list of pairs (`Catalog.pairs`): every placeholder with what its name means, then every
superseded record with the one that replaced it. The list depends on the names alone, which settlement does not touch. Settlement
takes the pairs in turn and sets the redirect of a pair whose first record still stands for itself (`settleRedirects_eq`); so in
the end no first record of a pair stands for itself, and the others are where they were (`Pointed`). Entering the derived types
leaves all of that alone.
-/

namespace HeaderAtlas

/-- At how many places two lists of handles differ. -/
def differences (r r' : List TypeId) : Nat := (r.zip r').countP fun p => p.1 != p.2

theorem differences_self (r : List TypeId) : differences r r = 0 := by
  induction r with
  | nil => rfl
  | cons a r ih =>
    rw [differences, List.zip_cons_cons, List.countP_cons, ← differences, ih]
    simp

/-- Setting a place that was the same in both lists to another handle makes one difference more. -/
theorem differences_set {a b : TypeId} (hb : b ≠ a) (r : List TypeId) :
    ∀ (r' : List TypeId) (i : Nat), r[i]? = some a → r'[i]? = some a →
      differences r (r'.set i b) = differences r r' + 1 := by
  induction r with
  | nil => intro r' i h; cases h
  | cons x r ih =>
    intro r' i h h'
    cases r' with
    | nil => cases h'
    | cons x' r' =>
      cases i with
      | zero =>
        cases h
        cases h'
        simp [differences, Ne.symm hb]
      | succ i =>
        have := ih r' i h h'
        simp only [differences, List.set_cons_succ, List.zip_cons_cons, List.countP_cons] at this ⊢
        omega

namespace Catalog

variable {c : Catalog}

/-! ## The pairs -/

/-- The redirect of the record at a place, if it is a placeholder: to what its name means. -/
def placeholderPair (c : Catalog) (i : Nat) : Option (TypeId × TypeId) :=
  if (c.record ⟨i⟩).flags.isComplete then none
  else
    match c.lookupWritten (c.record ⟨i⟩).name with
    | some found => if found = ⟨i⟩ then none else some (⟨i⟩, found)
    | none => none

/-- All redirects that settlement sees to, in turn. -/
def pairs (c : Catalog) : List (TypeId × TypeId) :=
  (List.range c.records.length).filterMap c.placeholderPair ++ c.superseded

/-- The pair of a placeholder is its record and another one, which its name means. -/
theorem placeholderPair_eq_some {i : Nat} {a b : TypeId} (h : c.placeholderPair i = some (a, b)) :
    a = ⟨i⟩ ∧ c.lookupWritten (c.record a).name = some b ∧ b ≠ a := by
  rw [placeholderPair] at h
  split at h
  · cases h
  · split at h
    · rename_i found hf
      split at h
      · cases h
      · cases h
        exact ⟨rfl, hf, by assumption⟩
    · cases h

/-- The record of a name that is not declared yet may be redirected to what the name means. -/
theorem links_placeholderPair (hc : c.Inv) {a b : TypeId} (ha : c.Has a)
    (h : c.lookupWritten (c.record a).name = some b) (hne : b ≠ a) : c.Links a b := by
  obtain ⟨name, hm, hl⟩ := lookup_of_lookupWritten h
  have hb := hc.lookup_declared hl
  refine ⟨ha, ?_, ?_, ?_, ?_⟩
  · intro n hn
    rw [(hc.lookup_declared hn).2.1, lookupWritten_of_some hn] at h
    exact hne (Option.some.inj h).symm
  · rw [hb.2.1]
    exact hb
  · intro hp
    -- the record was declared, though without a body: its name means the last declaration
    obtain ⟨current, hcur, hle, -⟩ := hc.declared ⟨ha, rfl, hp⟩
    rw [lookupWritten_of_some hcur] at h
    obtain rfl : current = b := Option.some.inj h
    have hidx : a.index ≠ current.index := fun e => hne (TypeId.eq_of_index_eq e.symm)
    exact ⟨(hc.lookup_declared hcur).2.1, by omega⟩
  · intro _
    rw [hb.2.1]
    exact hm

/-- Every pair is a redirect that may be set. -/
theorem Inv.links_of_mem_pairs (hc : c.Inv) {a b : TypeId} (h : (a, b) ∈ c.pairs) : c.Links a b := by
  rcases List.mem_append.mp h with h | h
  · obtain ⟨i, hi, hp⟩ := List.mem_filterMap.mp h
    obtain ⟨rfl, hl, hne⟩ := placeholderPair_eq_some hp
    exact links_placeholderPair hc (List.mem_range.mp hi) hl hne
  · exact (hc.superseded h).1

/-- A placeholder whose name means a declared type makes a pair with it. -/
theorem Inv.mem_pairs_of_placeholder (hc : c.Inv) {name : String} {p found : TypeId}
    (hp : c.placeholders.get? name = some p) (hf : c.lookupWritten name = some found) : (p, found) ∈ c.pairs := by
  obtain ⟨hhas, hname, hflag⟩ := hc.placeholder hp
  obtain ⟨_, -, hl⟩ := lookup_of_lookupWritten hf
  have hne : found ≠ p := by
    rintro rfl
    exact (hc.lookup_declared hl).2.2 ⟨name, hp⟩
  refine List.mem_append_left _ (List.mem_filterMap.mpr ⟨p.index, List.mem_range.mpr hhas, ?_⟩)
  rw [placeholderPair, hflag, hname, hf, if_neg Bool.false_ne_true]
  exact if_neg hne

/-- That is its only pair. -/
theorem Inv.lookupWritten_of_mem_pairs (hc : c.Inv) {name : String} {p target : TypeId}
    (hp : c.placeholders.get? name = some p) (h : (p, target) ∈ c.pairs) : c.lookupWritten name = some target := by
  rcases List.mem_append.mp h with h | h
  · obtain ⟨i, -, hi⟩ := List.mem_filterMap.mp h
    have hl := (placeholderPair_eq_some hi).2.1
    rwa [(hc.placeholder hp).2.1] at hl
  · exact absurd ⟨name, hp⟩ (hc.superseded h).2

/-- The pairs are in the frame. -/
theorem SameFrame.pairs_eq {c' : Catalog} (h : SameFrame c c') : c'.pairs = c.pairs := by
  have hl : ∀ name, c'.lookupWritten name = c.lookupWritten name := by
    intro name
    simp only [lookupWritten, h.lookup_eq]
  have hp : c'.placeholderPair = c.placeholderPair := by
    funext i
    rw [placeholderPair, h.isComplete_eq, h.name_eq, hl, ← placeholderPair]
  rw [pairs, hp, h.superseded_eq, h.length_eq, ← pairs]

/-! ## The redirects -/

/-- The catalog with other redirects. -/
def withRedirect (c : Catalog) (r : List TypeId) : Catalog := { c with redirect := r }

/-- One redirect set. -/
theorem next_set {a : TypeId} (ha : a.index < c.redirect.length) (b id : TypeId) :
    (c.withRedirect (c.redirect.set a.index b)).next id = if id = a then b else c.next id := by
  rw [next, withRedirect, List.getElem?_set]
  by_cases h : id = a
  · rw [if_pos (congrArg TypeId.index h.symm), if_pos ha, if_pos h]
    rfl
  · rw [if_neg (fun e => h (TypeId.eq_of_index_eq e.symm)), if_neg h, next]

/-- A record that stands for itself is its own redirect. -/
theorem getElem?_redirect_of_next {id : TypeId} (hid : id.index < c.redirect.length) (h : c.next id = id) :
    c.redirect[id.index]? = some id := by
  rw [next, List.getElem?_eq_getElem hid, Option.getD_some] at h
  rw [List.getElem?_eq_getElem hid, h]

/-- Which redirects may be set does not depend on those that are. -/
theorem extends_withRedirect (c : Catalog) (r : List TypeId) : Extends c (c.withRedirect r) :=
  ⟨id, fun _ => rfl, fun _ => Iff.rfl, fun _ hl => hl⟩

/-- The invariant speaks of redirects only to say which may be set. -/
theorem Inv.withRedirect (hc : c.Inv) {r : List TypeId} (hr : r.length = c.redirect.length)
    (h : ∀ id, (c.withRedirect r).next id ≠ id → c.Links id ((c.withRedirect r).next id)) : (c.withRedirect r).Inv where
  length_redirect := hr.trans hc.length_redirect
  lookup_declared := hc.lookup_declared
  order_sorted := hc.order_sorted
  mem_order := hc.mem_order
  placeholder := hc.placeholder
  links hn := (extends_withRedirect c r).links (h _ hn)
  superseded h := ⟨(extends_withRedirect c r).links (hc.superseded h).1, (hc.superseded h).2⟩
  declared := hc.declared

/-- Settlement of a catalog has come so far that these pairs are done. -/
structure Pointed (c : Catalog) (done : List (TypeId × TypeId)) (s : Catalog × Nat) : Prop where
  /-- Only redirects were set. -/
  frame : s.1 = c.withRedirect s.1.redirect
  length : s.1.redirect.length = c.redirect.length
  links : ∀ {a b}, (a, b) ∈ done → c.Links a b
  /-- A redirect was set as a pair says, for a record that stood for itself. -/
  kept : ∀ id, s.1.next id = c.next id ∨ (c.next id = id ∧ (id, s.1.next id) ∈ done)
  settled : ∀ {a b}, (a, b) ∈ done → s.1.next a ≠ a
  count : s.2 = differences c.redirect s.1.redirect

/-- Before the first pair nothing has been redirected. -/
theorem pointed_nil (c : Catalog) : Pointed c [] (c, 0) where
  frame := rfl
  length := rfl
  links h := nomatch h
  kept _ := Or.inl rfl
  settled h := nomatch h
  count := (differences_self c.redirect).symm

/-- The invariant holds as far as settlement has come. -/
theorem Pointed.inv {done : List (TypeId × TypeId)} {s : Catalog × Nat} (h : Pointed c done s) (hc : c.Inv) : s.1.Inv := by
  rw [h.frame]
  apply hc.withRedirect h.length
  intro id hne
  rw [← h.frame] at hne ⊢
  rcases h.kept id with hk | ⟨-, hk⟩
  · rw [hk] at hne ⊢
    exact hc.links hne
  · exact h.links hk

/-- A record that stands for itself stood for itself from the start. -/
theorem Pointed.next_of_next_eq {done : List (TypeId × TypeId)} {s : Catalog × Nat} (h : Pointed c done s) {id : TypeId}
    (hn : s.1.next id = id) : c.next id = id := by
  rcases h.kept id with hk | hk
  · exact hk.symm.trans hn
  · exact hk.1

/-- What holds of the pairs done and of one more holds of all. -/
theorem forall_mem_concat {done : List (TypeId × TypeId)} {P : TypeId → TypeId → Prop} (h : ∀ {x y}, (x, y) ∈ done → P x y)
    {a b : TypeId} (hab : P a b) {x y : TypeId} (hxy : (x, y) ∈ done ++ [(a, b)]) : P x y := by
  rcases List.mem_append.mp hxy with hxy | hxy
  · exact h hxy
  · obtain ⟨rfl, rfl⟩ := Prod.mk.inj (List.mem_singleton.mp hxy)
    exact hab

section step

variable {done : List (TypeId × TypeId)} {s : Catalog × Nat} {a b : TypeId}

/-- One pair more, whose first record is redirected already. -/
theorem Pointed.skip (h : Pointed c done s) (hl : c.Links a b) (hn : s.1.next a ≠ a) : Pointed c (done ++ [(a, b)]) s where
  frame := h.frame
  length := h.length
  links := forall_mem_concat h.links hl
  kept id := (h.kept id).imp_right fun hk => ⟨hk.1, List.mem_append_left _ hk.2⟩
  settled := forall_mem_concat h.settled hn
  count := h.count

/-- One pair more, whose first record still stands for itself. -/
theorem Pointed.point (h : Pointed c done s) (hc : c.Inv) (hl : c.Links a b) (hn : s.1.next a = a) :
    Pointed c (done ++ [(a, b)]) (Catalog.point s a b) := by
  have hlt : a.index < s.1.redirect.length := by
    rw [h.length, hc.length_redirect]
    exact hl.source
  have hca := h.next_of_next_eq hn
  have hnext : ∀ id, (Catalog.point s a b).1.next id = if id = a then b else s.1.next id := next_set hlt b
  have hframe := congrArg (fun x : Catalog => x.withRedirect (s.1.redirect.set a.index b)) h.frame
  refine ⟨hframe, (List.length_set ..).trans h.length, forall_mem_concat h.links hl, ?_, ?_, ?_⟩
  · intro id
    rw [hnext]
    split
    · rename_i hid
      subst hid
      exact Or.inr ⟨hca, List.mem_append_right _ List.mem_cons_self⟩
    · exact (h.kept id).imp_right fun hk => ⟨hk.1, List.mem_append_left _ hk.2⟩
  · have hself : (Catalog.point s a b).1.next a ≠ a := by
      rw [hnext, if_pos rfl]
      exact hl.ne
    have hold : ∀ {x y}, (x, y) ∈ done → (Catalog.point s a b).1.next x ≠ x := by
      intro x y hxy
      by_cases hx : x = a
      · rw [hx]
        exact hself
      · rw [hnext, if_neg hx]
        exact h.settled hxy
    intro x y hxy
    exact forall_mem_concat (P := fun x _ => (Catalog.point s a b).1.next x ≠ x) hold hself hxy
  · have hset := differences_set hl.ne c.redirect s.1.redirect a.index
      (getElem?_redirect_of_next (h.length ▸ hlt) hca) (getElem?_redirect_of_next hlt hn)
    exact (congrArg (· + 1) h.count).trans hset.symm

/-- One pair more: its redirect is set if its first record still stands for itself, and else nothing is done. -/
theorem Pointed.step (h : Pointed c done s) (hc : c.Inv) (hl : c.Links a b) :
    Pointed c (done ++ [(a, b)]) (settleSuperseded s (a, b)) := by
  rw [settleSuperseded]
  by_cases hn : s.1.next a = a
  · rw [if_pos hn]
    exact h.point hc hl hn
  · rw [if_neg hn]
    exact h.skip hl hn

end step

/-- Any number of pairs more. -/
theorem Pointed.foldl (hc : c.Inv) (rest : List (TypeId × TypeId)) (hl : ∀ {a b}, (a, b) ∈ rest → c.Links a b) :
    ∀ {done : List (TypeId × TypeId)} {s : Catalog × Nat}, Pointed c done s →
      Pointed c (done ++ rest) (rest.foldl settleSuperseded s) := by
  induction rest with
  | nil =>
    intro done s h
    rw [List.append_nil]
    exact h
  | cons p rest ih =>
    intro done s h
    rw [List.append_cons]
    exact ih (fun hp => hl (List.mem_cons_of_mem p hp)) (h.step hc (hl List.mem_cons_self))

/-- Settling the record at a place is settling its pair, if it has one. -/
theorem settlePlaceholder_eq {s : Catalog × Nat} (hs : s.1.Inv) (i : Nat) :
    settlePlaceholder s i = match s.1.placeholderPair i with
      | some pair => settleSuperseded s pair
      | none => s := by
  rw [settlePlaceholder, placeholderPair]
  by_cases hflag : (s.1.record ⟨i⟩).flags.isComplete
  · rw [if_pos (Or.inr hflag), if_pos hflag]
  · rw [if_neg hflag]
    cases hw : s.1.lookupWritten (s.1.record ⟨i⟩).name with
    | none =>
      dsimp only
      exact ite_self _
    | some found =>
      obtain ⟨name, -, hl⟩ := lookup_of_lookupWritten hw
      have hcan : s.1.canonical found = found := canonical_of_next_eq (hs.next_of_lookup hl)
      dsimp only
      rw [hcan]
      by_cases hf : found = ⟨i⟩
      · rw [if_pos hf, if_pos hf, ite_self]
      · rw [if_neg hf, if_neg hf]
        dsimp only [settleSuperseded]
        by_cases hn : s.1.next ⟨i⟩ = ⟨i⟩
        · rw [if_pos hn, if_neg (by simp [hn, hflag])]
        · rw [if_neg hn, if_pos (Or.inl hn)]

/-- What a placeholder means is not changed on the way. -/
theorem Pointed.placeholderPair_eq {done : List (TypeId × TypeId)} {s : Catalog × Nat} (h : Pointed c done s) (i : Nat) :
    s.1.placeholderPair i = c.placeholderPair i := by
  rw [h.frame]
  rfl

/-- Settling records one after the other is settling their pairs. -/
theorem foldl_settlePlaceholder (hc : c.Inv) (places : List Nat)
    (hl : ∀ {a b}, (a, b) ∈ places.filterMap c.placeholderPair → c.Links a b) :
    ∀ {done : List (TypeId × TypeId)} {s : Catalog × Nat}, Pointed c done s →
      places.foldl settlePlaceholder s = (places.filterMap c.placeholderPair).foldl settleSuperseded s := by
  induction places with
  | nil => exact fun _ => rfl
  | cons i places ih =>
    intro done s h
    rw [List.foldl_cons, settlePlaceholder_eq (h.inv hc), h.placeholderPair_eq]
    cases hp : c.placeholderPair i with
    | none =>
      rw [List.filterMap_cons_none hp] at hl ⊢
      exact ih hl h
    | some pair =>
      rw [List.filterMap_cons_some hp] at hl ⊢
      rw [List.foldl_cons]
      exact ih (fun hab => hl (List.mem_cons_of_mem pair hab)) (h.step hc (hl List.mem_cons_self))

/-- The redirects of settlement are those of the pairs, in turn. -/
theorem Inv.settleRedirects_eq (hc : c.Inv) : c.settleRedirects = c.pairs.foldl settleSuperseded (c, 0) := by
  have hl : ∀ {a b}, (a, b) ∈ (List.range c.records.length).filterMap c.placeholderPair → c.Links a b :=
    fun h => hc.links_of_mem_pairs (List.mem_append_left _ h)
  have hp := (pointed_nil c).foldl hc _ hl
  rw [settleRedirects, foldl_settlePlaceholder hc _ hl (pointed_nil c), pairs, List.foldl_append, hp.frame]
  rfl

/-- In the end all pairs have been taken. -/
theorem Inv.pointed_settleRedirects (hc : c.Inv) : Pointed c c.pairs c.settleRedirects := by
  rw [hc.settleRedirects_eq]
  exact (pointed_nil c).foldl hc c.pairs hc.links_of_mem_pairs

/-! ## The derived types -/

/-- Entering a derived type leaves the frame. -/
theorem sameFrame_linkBase (id : TypeId) (c : Catalog) (base : TypeId) : SameFrame c (linkBase id c base) := by
  rw [linkBase]
  split
  · exact .refl c
  · apply SameFrame.setRecord
    · intro d
      split <;> rfl
    · intro d
      split <;> rfl

/-- Changes that each leave the frame leave it one after the other. -/
theorem SameFrame.foldl {α : Type} {f : Catalog → α → Catalog} (hf : ∀ c a, SameFrame c (f c a)) (l : List α) :
    ∀ c, SameFrame c (l.foldl f c) := by
  induction l with
  | nil => exact .refl
  | cons a l ih => exact fun c => (hf c a).trans (ih _)

/-- Entering a type with all its bases leaves the frame. -/
theorem sameFrame_linkBases (c : Catalog) (id : TypeId) : SameFrame c (c.linkBases id) :=
  .foldl (sameFrame_linkBase id) _ c

/-- Settlement sets the redirects, and then enters the derived types in the order of declaration. -/
theorem settle_snd (c : Catalog) : c.settle.2 = c.settleRedirects.1.order.foldl linkBases c.settleRedirects.1 := rfl

/-- The substituted types are counted while redirects are set. -/
theorem substituted_settle (c : Catalog) : c.settle.1.substituted = c.settleRedirects.2 := rfl

/-- The unresolved names are those of the settled catalog. -/
theorem unresolved_settle (c : Catalog) : c.settle.1.unresolved = c.settle.2.unresolvedNames := rfl

/-- Entering the derived types leaves the frame as the redirects of settlement made it. -/
theorem sameFrame_settle (c : Catalog) : SameFrame c.settleRedirects.1 c.settle.2 := .foldl sameFrame_linkBases _ _

/-! ## Settled catalogs -/

/-- Setting redirects keeps the invariant. -/
theorem Inv.settleRedirects (hc : c.Inv) : c.settleRedirects.1.Inv := hc.pointed_settleRedirects.inv hc

/-- Settlement keeps the invariant. -/
theorem Inv.settle (hc : c.Inv) : c.settle.2.Inv := (sameFrame_settle c).inv hc.settleRedirects

/-- Settlement keeps records. -/
theorem Inv.has_settle (hc : c.Inv) {id : TypeId} (h : c.Has id) : c.settle.2.Has id := by
  rw [(sameFrame_settle c).has_iff, hc.pointed_settleRedirects.frame]
  exact h

/-- Settlement makes no placeholder and drops none. -/
theorem Inv.placeholders_settle (hc : c.Inv) : c.settle.2.placeholders = c.placeholders := by
  rw [(sameFrame_settle c).placeholders_eq, hc.pointed_settleRedirects.frame]
  rfl

/-- Settlement keeps the order of declaration. -/
theorem Inv.order_settle (hc : c.Inv) : c.settle.2.order = c.order := by
  rw [(sameFrame_settle c).order_eq, hc.pointed_settleRedirects.frame]
  rfl

/-- A declared type stays declared under its name. -/
theorem Declared.settle (hc : c.Inv) {id : TypeId} {name : String} (h : c.Declared id name) :
    c.settle.2.Declared id name := by
  rw [(sameFrame_settle c).declared_iff, hc.pointed_settleRedirects.frame]
  exact h

/-- Settlement keeps what names mean, and so the pairs. -/
theorem Inv.lookup_settle (hc : c.Inv) (name : String) : c.settle.2.lookup name = c.lookup name := by
  rw [(sameFrame_settle c).lookup_eq, hc.pointed_settleRedirects.frame]
  rfl

/-- A second settlement has the pairs of the first. -/
theorem Inv.pairs_settle (hc : c.Inv) : c.settle.2.pairs = c.pairs := by
  rw [(sameFrame_settle c).pairs_eq, hc.pointed_settleRedirects.frame]
  rfl

/-- Settlement redirects a record only along a pair, and only one that stood for itself. -/
theorem Inv.next_settle (hc : c.Inv) (id : TypeId) :
    c.settle.2.next id = c.next id ∨ (c.next id = id ∧ (id, c.settle.2.next id) ∈ c.pairs) := by
  rw [(sameFrame_settle c).next_eq]
  exact hc.pointed_settleRedirects.kept id

/-- Nothing is left for settlement to redirect. -/
def Settled (c : Catalog) : Prop := ∀ pair ∈ c.pairs, c.next pair.1 ≠ pair.1

/-- After settlement no first record of a pair stands for itself. -/
theorem Inv.settled_settle (hc : c.Inv) : c.settle.2.Settled := by
  intro pair h
  rw [hc.pairs_settle] at h
  rw [(sameFrame_settle c).next_eq]
  exact hc.pointed_settleRedirects.settled h

/-- In a settled catalog a declared record stands for the type its name means. -/
theorem Settled.lookup_of_declared (hs : c.Settled) (hc : c.Inv) {id : TypeId} {name : String} (h : c.Declared id name) :
    c.lookup name = some (c.canonical id) := by
  obtain ⟨current, hl, -, hcur⟩ := hc.declared (hc.declared_canonical h)
  rcases hcur with rfl | ⟨replacement, hr⟩
  · exact hl
  · -- the end of the redirects would have one more
    exact absurd (hc.next_canonical id) (hs _ (List.mem_append_right _ hr))

/-- In a settled catalog a placeholder stands for itself exactly if its name means nothing. -/
theorem Settled.canonical_placeholder_iff (hs : c.Settled) (hc : c.Inv) {name : String} {p : TypeId}
    (hp : c.placeholders.get? name = some p) : c.canonical p = p ↔ c.lookupWritten name = none := by
  rw [hc.canonical_eq_self_iff]
  constructor
  · intro hn
    cases hw : c.lookupWritten name with
    | none => rfl
    | some found => exact absurd hn (hs _ (hc.mem_pairs_of_placeholder hp hw))
  · intro hw
    obtain ⟨hwhole, hpart⟩ := (lookupWritten_eq_none_iff c name).mp hw
    by_cases hn : c.next p = p
    · exact hn
    · -- where the placeholder is redirected to was declared, under a name that is declared still
      have hlink := hc.links hn
      obtain ⟨current, hl, -⟩ := hc.declared hlink.target
      have hm := hlink.meant ⟨name, hp⟩
      rw [(hc.placeholder hp).2.1] at hm
      rcases hm with hm | hm
      · rw [hm, hwhole] at hl
        cases hl
      · rw [hpart _ hm] at hl
        cases hl

/-- Settlement makes a declared record stand for the type its name means. -/
theorem Inv.lookup_settle_of_declared (hc : c.Inv) {id : TypeId} {name : String} (h : c.Declared id name) :
    c.settle.2.lookup name = some (c.settle.2.canonical id) :=
  hc.settled_settle.lookup_of_declared hc.settle (h.settle hc)

/-- In a settled catalog a placeholder that does not stand for itself stands for a declared type that its name may mean. -/
theorem Settled.lookup_placeholder (hs : c.Settled) (hc : c.Inv) {name : String} {p : TypeId}
    (hp : c.placeholders.get? name = some p) (hne : c.canonical p ≠ p) :
    ∃ found, Means name found ∧ c.lookup found = some (c.canonical p) := by
  have hn : c.next p ≠ p := fun hn => hne (canonical_of_next_eq hn)
  have hd := hc.declared_canonical_of_next_ne hn
  have hm := (hc.links hn).meant ⟨name, hp⟩
  rw [(hc.placeholder hp).2.1] at hm
  refine ⟨_, hm, ?_⟩
  have hl := hs.lookup_of_declared hc hd
  rwa [hc.canonical_canonical] at hl

/-- In a settled catalog a placeholder whose whole name is not declared stands for what the name means, or else for itself. -/
theorem Settled.canonical_placeholder (hs : c.Settled) (hc : c.Inv) {name : String} {p : TypeId}
    (hp : c.placeholders.get? name = some p) (hnone : c.lookup name = none) :
    c.canonical p = (c.lookupWritten name).getD p := by
  cases hw : c.lookupWritten name with
  | none => exact (hs.canonical_placeholder_iff hc hp).mpr hw
  | some found =>
    have hne : c.canonical p ≠ p := by
      rw [Ne, hs.canonical_placeholder_iff hc hp, hw]
      exact Option.some_ne_none found
    obtain ⟨part, rfl | hlast, hl⟩ := hs.lookup_placeholder hc hp hne
    · rw [hnone] at hl
      cases hl
    · rw [lookupWritten_of_isLastPart c hlast, hnone, hl] at hw
      exact Option.some.inj hw

end Catalog

/-- The invariant holds of every session. -/
theorem session_inv (o : Origin) (calls : List Call) : (session o calls).catalog.Inv :=
  session_keeps Catalog.inv_empty (fun _ x hc => hc.change x) (fun _ hc => hc.settle) o calls

end HeaderAtlas
