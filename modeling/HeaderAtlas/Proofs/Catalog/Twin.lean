import Mathlib.Data.List.Nodup
import Mathlib.Data.List.Perm.Subperm
import HeaderAtlas.Proofs.Catalog.Linking

/-!
# A catalog and its twin that was never settled

Settlement changes two things only: where records are redirected to, and who is entered as derived from whom. Two catalogs that
differ in nothing else are twins (`Catalog.Twin`), and stay so whatever is declared in both and however often one of them is
settled. Redirects that are set stay (`Catalog.Keeps`), so a handle that stands for a record keeps doing so as long as the record
stands for itself. A list of derived types only gets longer (`Appends`), by the types that a settlement enters (`Catalog.Enters`).
-/

namespace HeaderAtlas

/-! ## Lists that have got longer -/

/-- The second list is the first with further types behind it, each of them once. -/
def Appends (l l' : List TypeId) : Prop := ∃ new, l' = l ++ new ∧ new.Nodup ∧ ∀ t ∈ new, t ∉ l

theorem Appends.refl (l : List TypeId) : Appends l l := ⟨[], (List.append_nil l).symm, List.nodup_nil, fun _ h => nomatch h⟩

/-- Entering a type makes a list longer by it, or leaves the list. -/
theorem Appends.enter {l l' : List TypeId} (h : Appends l l') (t : TypeId) : Appends l (enter l' t) := by
  obtain ⟨new, rfl, hnodup, hnew⟩ := h
  rw [HeaderAtlas.enter]
  split
  · exact ⟨new, rfl, hnodup, hnew⟩
  · rename_i ht
    rw [List.mem_append, not_or] at ht
    refine ⟨new ++ [t], List.append_assoc _ _ _, List.nodup_append.mpr ⟨hnodup, List.nodup_singleton t, ?_⟩, ?_⟩
    · rintro x hx y hy rfl
      exact ht.2 (List.mem_singleton.mp hy ▸ hx)
    · intro x hx
      rcases List.mem_append.mp hx with hx | hx
      · exact hnew x hx
      · rw [List.mem_singleton.mp hx]
        exact ht.1

/-- Entering several types makes a list longer by those that are new. -/
theorem Appends.foldl_enter {l : List TypeId} (ts : List TypeId) :
    ∀ {l' : List TypeId}, Appends l l' → Appends l (ts.foldl HeaderAtlas.enter l') := by
  induction ts with
  | nil => exact id
  | cons t ts ih => exact fun h => ih (h.enter t)

/-- Of two lists got from one, of which the first has all that the second has, the types come up equally often, under whatever name,
exactly if the second has all that the first has. -/
theorem Appends.perm_map_iff {l m m' : List TypeId} (h : Appends l m) (h' : Appends l m') (hsub : ∀ t ∈ m', t ∈ m)
    (f : TypeId → TypeId) : (m.map f).Perm (m'.map f) ↔ ∀ t ∈ m, t ∈ m' := by
  obtain ⟨new, rfl, hnodup, hnew⟩ := h
  obtain ⟨new', rfl, hnodup', hnew'⟩ := h'
  have hle : ∀ t ∈ new', t ∈ new := by
    intro t ht
    rcases List.mem_append.mp (hsub t (List.mem_append_right l ht)) with hl | hmem
    · exact absurd hl (hnew' t ht)
    · exact hmem
  have hsubperm : List.Subperm new' new := hnodup'.subperm hle
  constructor
  · intro hperm
    have hlength := hperm.length_eq
    simp only [List.length_map, List.length_append] at hlength
    have hnews : new'.Perm new := hsubperm.perm_of_length_le (by omega)
    intro t ht
    exact ((List.Perm.append_left l hnews).mem_iff).mpr ht
  · intro hall
    have hge : ∀ t ∈ new, t ∈ new' := by
      intro t ht
      rcases List.mem_append.mp (hall t (List.mem_append_right l ht)) with hl | hmem
      · exact absurd hl (hnew t ht)
      · exact hmem
    have hnews : new.Perm new' := (List.perm_ext_iff_of_nodup hnodup hnodup').mpr fun t => ⟨hge t, hle t⟩
    exact (List.Perm.append_left l hnews).map f

namespace Catalog

variable {c c' c'' q : Catalog}

/-! ## Redirects stay -/

/-- Following goes no further than to a record that stands for itself. -/
theorem follow_succ {n : Nat} : ∀ {id : TypeId}, c.next (c.follow n id) = c.follow n id → c.follow (n + 1) id = c.follow n id := by
  induction n with
  | zero =>
    intro id h
    exact if_pos h
  | succ n ih =>
    intro id h
    by_cases hid : c.next id = id
    · rw [follow, if_pos hid, follow, if_pos hid]
    · have hstep : ∀ m, c.follow (m + 1) id = c.follow m (c.next id) := fun m => if_neg hid
      rw [hstep n] at h
      rw [hstep (n + 1), hstep n, ih h]

/-- A handle stands for what the record it is redirected to stands for. -/
theorem Inv.canonical_next (hc : c.Inv) (id : TypeId) : c.canonical (c.next id) = c.canonical id := by
  by_cases hid : c.next id = id
  · rw [hid]
  · have hlink := hc.links hid
    have hrank := hlink.rank_lt hc
    have hlength : c.redirect.length = (c.redirect.length - 1) + 1 := by
      have := hlink.source
      rw [Has, ← hc.length_redirect] at this
      omega
    have hfixed := hc.next_follow (c.redirect.length - 1) (c.next id) hlink.target.1 (by rw [← hc.length_redirect]; omega)
    rw [canonical, canonical, hlength, follow_succ hfixed, follow, if_neg hid]

/-- Every redirect of the first catalog is one of the second. -/
def Keeps (c c' : Catalog) : Prop := ∀ id, c.next id ≠ id → c'.next id = c.next id

theorem Keeps.trans (h : c.Keeps c') (h' : c'.Keeps c'') : c.Keeps c'' := by
  intro id hid
  have hid' := h id hid
  rw [h' id (hid' ▸ hid), hid']

/-- No change moves a redirect. -/
theorem Inv.keeps_change (hc : c.Inv) (x : Change) : c.Keeps (x.apply c) := fun id _ => hc.next_change x id

/-- Settlement sets redirects and moves none. -/
theorem Inv.keeps_settle (hc : c.Inv) : c.Keeps c.settle.2 := by
  intro id hid
  rcases hc.next_settle id with h | ⟨h, -⟩
  · exact h
  · exact absurd h hid

/-- A handle goes on to stand for whatever comes to stand for its record. -/
theorem Keeps.canonical_canonical (h : c.Keeps c') (hc' : c'.Inv) (id : TypeId) :
    c'.canonical (c.canonical id) = c'.canonical id := by
  apply canonical_keeps (P := fun i => c'.canonical i = c'.canonical id) _ rfl
  intro i hi
  by_cases hn : c.next i = i
  · rw [hn]
    exact hi
  · rw [← h i hn, hc'.canonical_next, hi]

/-- A handle keeps standing for a record that still stands for itself. -/
theorem Keeps.canonical_eq (h : c.Keeps c') (hc' : c'.Inv) {id target : TypeId} (hid : c.canonical id = target)
    (htarget : c'.next target = target) : c'.canonical id = target := by
  rw [← h.canonical_canonical hc', hid]
  exact canonical_of_next_eq htarget

/-- A redirected placeholder is no new one. -/
theorem Inv.placeholders_of_change (hc : c.Inv) (x : Change) {name : String} {p : TypeId}
    (h : (x.apply c).placeholders.get? name = some p) (hne : c.next p ≠ p) : c.placeholders.get? name = some p := by
  have hext := c.extends_change x
  have hhas := (hc.links hne).source
  obtain ⟨other, hother⟩ := (hext.isPlaceholder_iff hhas).mp ⟨name, h⟩
  have hname : name = other := by
    rw [← ((hc.change x).placeholder h).2.1, ← (hc.placeholder hother).2.1]
    exact hext.name_eq hhas
  rw [hname]
  exact hother

/-! ## What settlement enters -/

/-- The catalog has both types in its order, and the first derives from the second. -/
def Enters (c : Catalog) (t b : TypeId) : Prop := t ∈ c.order ∧ b ∈ c.order ∧ c.Derives t b

/-- The derived types after settlement: those from before, and those that settlement enters. -/
theorem Inv.mem_derived_settle (hc : c.Inv) (t b : TypeId) :
    t ∈ (c.settle.2.record b).derived ↔ t ∈ (c.record b).derived ∨ c.settle.2.Enters t b := by
  rw [hc.derived_settle, Enters]
  split
  · rename_i hb
    rw [mem_foldl_enter, List.mem_filter, decide_eq_true_iff]
    simp only [hb, true_and]
  · rename_i hb
    simp only [hb, false_and, and_false, or_false]

/-- Settlement only makes a list of derived types longer. -/
theorem Inv.appends_settle (hc : c.Inv) {l : List TypeId} {b : TypeId}
    (h : Appends l (c.record b).derived) : Appends l (c.settle.2.record b).derived := by
  rw [hc.derived_settle]
  split
  · exact h.foldl_enter _
  · exact h

/-! ## Twins -/

/-- The type that a declared name meant before comes to the superseded ones. -/
theorem superseded_register (c : Catalog) (d : TypeDef) :
    (c.register d).2.superseded = c.superseded ++ (c.lookup d.name).toList.map (·, ⟨c.records.length⟩) := by
  unfold Catalog.register
  cases c.lookup d.name with
  | none => exact (List.append_nil _).symm
  | some old => rfl

/-- The catalogs differ only in their redirects and in who is entered as derived. -/
structure Twin (c q : Catalog) : Prop where
  names_eq : c.names = q.names
  order_eq : c.order = q.order
  placeholders_eq : c.placeholders = q.placeholders
  superseded_eq : c.superseded = q.superseded
  length_eq : c.records.length = q.records.length
  record_eq : ∀ id, c.record id = { q.record id with derived := (c.record id).derived }

/-- What was done to the first two catalogs made twins of them, with the same new records. -/
structure Joint (c q c' q' : Catalog) : Prop where
  twin : c'.Twin q'
  records : ∃ new, c'.records = c.records ++ new ∧ q'.records = q.records ++ new

namespace Twin

theorem refl (c : Catalog) : c.Twin c := ⟨rfl, rfl, rfl, rfl, rfl, fun _ => rfl⟩

theorem symm (h : c.Twin q) : q.Twin c where
  names_eq := h.names_eq.symm
  order_eq := h.order_eq.symm
  placeholders_eq := h.placeholders_eq.symm
  superseded_eq := h.superseded_eq.symm
  length_eq := h.length_eq.symm
  record_eq id := by rw [h.record_eq]

theorem trans (h : c.Twin c') (h' : c'.Twin c'') : c.Twin c'' where
  names_eq := h.names_eq.trans h'.names_eq
  order_eq := h.order_eq.trans h'.order_eq
  placeholders_eq := h.placeholders_eq.trans h'.placeholders_eq
  superseded_eq := h.superseded_eq.trans h'.superseded_eq
  length_eq := h.length_eq.trans h'.length_eq
  record_eq id := by rw [h.record_eq, h'.record_eq]

/-- Names mean the same in twins. -/
theorem lookup_eq (h : c.Twin q) (name : String) : c.lookup name = q.lookup name := by
  rw [lookup, h.names_eq]
  rfl

/-- Written names mean the same in twins. -/
theorem lookupWritten_eq (h : c.Twin q) (name : String) : c.lookupWritten name = q.lookupWritten name := by
  simp only [lookupWritten, h.lookup_eq]

/-- Twins have the same records. -/
theorem has_iff (h : c.Twin q) (id : TypeId) : c.Has id ↔ q.Has id := by
  rw [Has, h.length_eq]
  rfl

/-- A record has one name in both twins. -/
theorem name_eq (h : c.Twin q) (id : TypeId) : (c.record id).name = (q.record id).name := by
  rw [h.record_eq]

/-- A record is complete in both twins or in neither. -/
theorem isComplete_eq (h : c.Twin q) (id : TypeId) : (c.record id).flags.isComplete = (q.record id).flags.isComplete := by
  rw [h.record_eq]

/-- A record has the same bases in both twins. -/
theorem bases_eq (h : c.Twin q) (id : TypeId) : (c.record id).bases = (q.record id).bases := by
  rw [h.record_eq]

/-- A record is a placeholder in both twins or in neither. -/
theorem isPlaceholder_iff (h : c.Twin q) (id : TypeId) : c.IsPlaceholder id ↔ q.IsPlaceholder id := by
  rw [IsPlaceholder, h.placeholders_eq]
  rfl

/-- A record is declared in both twins or in neither. -/
theorem declared_iff (h : c.Twin q) (id : TypeId) (name : String) : c.Declared id name ↔ q.Declared id name := by
  rw [Declared, h.has_iff, h.name_eq, h.isPlaceholder_iff]
  rfl

/-- A record is one that was there in each, or a new one of both. -/
theorem record_joint {c' q' : Catalog} (h : c.Twin q) (hjoint : Joint c q c' q') (id : TypeId) :
    (c.Has id ∧ c'.record id = c.record id ∧ q'.record id = q.record id) ∨ (¬c.Has id ∧ c'.record id = q'.record id) := by
  obtain ⟨new, hrecords, hrecords'⟩ := hjoint.records
  by_cases hid : c.Has id
  · have hid' := (h.has_iff id).mp hid
    refine Or.inl ⟨hid, ?_, ?_⟩
    · rw [record, hrecords, List.getElem?_append_left hid]
      rfl
    · rw [record, hrecords', List.getElem?_append_left hid']
      rfl
  · have hid' := fun hq => hid ((h.has_iff id).mpr hq)
    refine Or.inr ⟨hid, ?_⟩
    rw [record, record, hrecords, hrecords', List.getElem?_append_right (Nat.le_of_not_lt hid),
      List.getElem?_append_right (Nat.le_of_not_lt hid'), h.length_eq]

/-- Twins that stay do so jointly. -/
theorem joint (h : c.Twin q) : Joint c q c q := ⟨h, [], (List.append_nil _).symm, (List.append_nil _).symm⟩

/-- What is declared in both keeps them twins. -/
theorem register (h : c.Twin q) (d : TypeDef) : Joint c q (c.register d).2 (q.register d).2 := by
  refine ⟨⟨?_, ?_, ?_, ?_, ?_, ?_⟩, [d], records_register c d, records_register q d⟩
  · rw [names_register, names_register, h.names_eq, h.length_eq]
  · rw [order_register, order_register, h.order_eq, h.lookup_eq, h.length_eq]
  · rw [placeholders_register, placeholders_register, h.placeholders_eq]
  · rw [superseded_register, superseded_register, h.superseded_eq, h.lookup_eq, h.length_eq]
  · rw [records_register, records_register, List.length_append, List.length_append, h.length_eq]
  · intro id
    rw [record_concat (records_register c d), record_concat (records_register q d), h.length_eq]
    split
    · rfl
    · exact h.record_eq id

/-- A placeholder is made in both twins or in neither. -/
theorem placeholder (h : c.Twin q) (name : String) : Joint c q (c.placeholder name).2 (q.placeholder name).2 := by
  cases hn : c.placeholders.get? name with
  | some p =>
    rw [placeholder_of_some hn, placeholder_of_some (h.placeholders_eq ▸ hn)]
    exact h.joint
  | none =>
    rw [placeholder_of_none hn, placeholder_of_none (h.placeholders_eq ▸ hn)]
    refine ⟨⟨h.names_eq, h.order_eq, ?_, h.superseded_eq, ?_, ?_⟩, [.placeholder name], rfl, rfl⟩
    · rw [hold, hold, h.placeholders_eq, h.length_eq]
    · rw [records_hold, records_hold, List.length_append, List.length_append, h.length_eq]
    · intro id
      rw [record_concat (records_hold c name), record_concat (records_hold q name), h.length_eq]
      split
      · rfl
      · exact h.record_eq id

/-- A reference makes a placeholder in both twins or in neither. -/
theorem reference (h : c.Twin q) (name : String) : Joint c q (c.reference name).2 (q.reference name).2 := by
  rw [Catalog.reference, Catalog.reference, h.lookup_eq]
  cases q.lookup name with
  | some id => exact h.joint
  | none => exact h.placeholder name

/-- A settled catalog is still a twin. -/
theorem settle (h : c.Twin q) (hc : c.Inv) : c.settle.2.Twin q := by
  have hframe := sameFrame_settle c
  have hpointed := hc.pointed_settleRedirects.frame
  refine ⟨?_, ?_, ?_, ?_, ?_, ?_⟩
  · rw [hframe.names_eq, hpointed]
    exact h.names_eq
  · rw [hframe.order_eq, hpointed]
    exact h.order_eq
  · rw [hframe.placeholders_eq, hpointed]
    exact h.placeholders_eq
  · rw [hframe.superseded_eq, hpointed]
    exact h.superseded_eq
  · rw [hframe.length_eq, hpointed]
    exact h.length_eq
  · intro id
    have hrecord : c.settleRedirects.1.record id = c.record id := by
      rw [hpointed]
      rfl
    rw [settle_snd, Inv.record_foldl_linkBases id _ hc.settleRedirects, hrecord]
    split
    · dsimp only
      rw [h.record_eq id]
    · exact h.record_eq id

/-- In settled twins the same records stand for the same handles, if they do so for the placeholders of declared names. -/
theorem canonical_eq (h : c.Twin q) (hc : c.Inv) (hq : q.Inv) (hs : c.Settled) (hs' : q.Settled)
    (hdeclared : ∀ {name p t}, c.placeholders.get? name = some p → c.lookup name = some t → c.canonical p = q.canonical p)
    (id : TypeId) : c.canonical id = q.canonical id := by
  by_cases hhas : c.Has id
  · by_cases hplaceholder : c.IsPlaceholder id
    · obtain ⟨name, hp⟩ := hplaceholder
      cases hl : c.lookup name with
      | some t => exact hdeclared hp hl
      | none =>
        rw [hs.canonical_placeholder hc hp hl, h.lookupWritten_eq]
        rw [h.lookup_eq] at hl
        rw [h.placeholders_eq] at hp
        rw [hs'.canonical_placeholder hq hp hl]
    · have hd : c.Declared id (c.record id).name := ⟨hhas, rfl, hplaceholder⟩
      have hl := hs.lookup_of_declared hc hd
      rw [h.lookup_eq, hs'.lookup_of_declared hq ((h.declared_iff id _).mp hd)] at hl
      exact (Option.some.inj hl).symm
  · rw [canonical_of_next_eq (hc.next_of_not_has hhas)]
    rw [h.has_iff] at hhas
    rw [canonical_of_next_eq (hq.next_of_not_has hhas)]

/-- Twins in which the same records stand for the same handles have the same external names. -/
theorem unresolvedNames_eq (h : c.Twin q) (hcanonical : ∀ id, c.canonical id = q.canonical id) :
    c.unresolvedNames = q.unresolvedNames := by
  have hcomplete : ∀ id, c.isComplete id = q.isComplete id := by
    intro id
    rw [isComplete, get, hcanonical, h.isComplete_eq]
    rfl
  have hname : ∀ id, c.name id = q.name id := by
    intro id
    rw [name, get, hcanonical, h.name_eq]
    rfl
  simp only [unresolvedNames, h.placeholders_eq, hcomplete, hname]

/-- Twins that agree on what handles stand for agree on who derives from whom. -/
theorem derives_iff (h : c.Twin q) (hcanonical : ∀ id, c.canonical id = q.canonical id) (t b : TypeId) :
    c.Derives t b ↔ q.Derives t b := by
  simp only [Derives, h.bases_eq, hcanonical]

end Twin

end Catalog

end HeaderAtlas
