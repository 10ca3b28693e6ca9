import Mathlib.Data.List.Nodup
import HeaderAtlas.Proofs.Catalog.Settlement

/-!
# Well-formed catalogs

What the parts of a catalog have to do with each other, said of the tables and lists themselves (`Catalog.WellFormed`), and that it
holds at every point of every session.
-/

namespace HeaderAtlas

namespace Table

variable {α : Type} {t : Table α}

/-- Every name has one entry. -/
def Unique (t : Table α) : Prop := (t.map (·.1)).Nodup

/-- Where every name has one entry, what is read of a name is its entry. -/
theorem Unique.mem_iff (ht : t.Unique) (name : String) (a : α) : (name, a) ∈ t ↔ t.get? name = some a := by
  induction t with
  | nil => simp [get?]
  | cons e t ih =>
    obtain ⟨key, b⟩ := e
    obtain ⟨hkey, htail⟩ := List.nodup_cons.mp ht
    have hrest := ih htail
    rw [get?] at hrest
    rw [List.mem_cons, hrest, get?, List.lookup_cons]
    by_cases hn : name = key
    · subst hn
      -- the rest of the table has no entry of this name
      have hnone : List.lookup name t ≠ some a := fun h => hkey (List.mem_map.mpr ⟨(name, a), hrest.mpr h, rfl⟩)
      simp [hnone, eq_comm]
    · simp [hn, beq_false_of_ne hn]

/-- Inserting a name keeps names unique. -/
theorem Unique.insert (ht : t.Unique) (name : String) (a : α) : (t.insert name a).Unique := by
  refine List.nodup_cons.mpr ⟨?_, ?_⟩
  · rw [List.mem_map]
    rintro ⟨e, he, rfl⟩
    simpa using (List.mem_filter.mp he).2
  · exact (List.filter_sublist.map _).nodup ht

end Table

namespace Catalog

variable {c : Catalog}

/-- Every name means one type, and has one placeholder at most. -/
def Unambiguous (c : Catalog) : Prop := c.names.Unique ∧ c.placeholders.Unique

/-- No change makes a name ambiguous. -/
theorem Unambiguous.change (h : c.Unambiguous) (x : Change) : (x.apply c).Unambiguous := by
  cases x with
  | register d =>
    rw [Change.apply, Unambiguous, names_register, placeholders_register]
    exact ⟨h.1.insert _ _, h.2⟩
  | placeholder name =>
    rw [Change.apply]
    rcases c.placeholder_snd name with hs | ⟨-, hs⟩
    · rw [hs]
      exact h
    · rw [hs]
      exact ⟨h.1, h.2.insert _ _⟩
  | edit id e => exact h
  | addFunction m => exact h
  | addGlobal p => exact h

/-- Settlement makes no name ambiguous. -/
theorem Unambiguous.settle (h : c.Unambiguous) (hc : c.Inv) : c.settle.2.Unambiguous := by
  rw [Unambiguous, (sameFrame_settle c).names_eq, hc.placeholders_settle, hc.pointed_settleRedirects.frame]
  exact h

/-- The parts of the catalog agree. -/
structure WellFormed (c : Catalog) : Prop where
  length_redirect : c.redirect.length = c.records.length
  has_of_mem_redirect : ∀ id ∈ c.redirect, c.Has id
  names_unique : c.names.Unique
  /-- A declared type has the name it is declared under, and stands for itself. -/
  registered : ∀ name id, (name, id) ∈ c.names →
    c.Has id ∧ (c.record id).name = name ∧ c.redirect[id.index]? = some id
  order_sorted : c.order.Pairwise fun a b => a.index < b.index
  /-- The order lists the declared types, one for each name. -/
  order_perm : c.order.Perm (c.names.map (·.2))
  placeholders_unique : c.placeholders.Unique
  /-- A placeholder has the name it stands for, and no name means it. -/
  placeholder : ∀ name id, (name, id) ∈ c.placeholders →
    c.Has id ∧ (c.record id).name = name ∧ (c.record id).flags.isComplete = false ∧ id ∉ c.names.map (·.2)
  /-- Redirects never come back to where they began. -/
  acyclic : ∀ id, ¬Relation.TransGen (fun a b : TypeId => a ≠ b ∧ c.redirect[a.index]? = some b) id id
  /-- Following redirects ends among the records, on one that stands for itself. -/
  canonical : ∀ id, c.Has id → c.Has (c.canonical id) ∧
    c.redirect[(c.canonical id).index]? = some (c.canonical id) ∧ c.canonical (c.canonical id) = c.canonical id

/-- A redirect in the table is where its record is redirected to. -/
theorem next_of_getElem? {a b : TypeId} (h : c.redirect[a.index]? = some b) : c.next a = b := by
  rw [next, h, Option.getD_some]

/-- A record that stands for itself is its own redirect. -/
theorem Inv.getElem?_redirect (hc : c.Inv) {id : TypeId} (hid : c.Has id) (hn : c.next id = id) :
    c.redirect[id.index]? = some id := by
  apply getElem?_redirect_of_next _ hn
  rw [hc.length_redirect]
  exact hid

/-- Every redirect leads to a record. -/
theorem Inv.has_of_mem_redirect (hc : c.Inv) {id : TypeId} (h : id ∈ c.redirect) : c.Has id := by
  obtain ⟨i, hi, hget⟩ := List.getElem_of_mem h
  have hnext : c.next ⟨i⟩ = id := next_of_getElem? (by rw [List.getElem?_eq_getElem hi, hget])
  rw [← hnext]
  apply hc.has_next
  rw [Has, ← hc.length_redirect]
  exact hi

/-- The order and the table of names list the same types, each once. -/
theorem Inv.order_perm (hc : c.Inv) (hn : c.names.Unique) : c.order.Perm (c.names.map (·.2)) := by
  have hentry : ∀ name id, (name, id) ∈ c.names → (c.record id).name = name :=
    fun name id h => (hc.lookup_declared ((hn.mem_iff name id).mp h)).2.1
  have hnames : (c.names.map (·.2)).map (fun id => (c.record id).name) = c.names.map (·.1) := by
    rw [List.map_map]
    exact List.map_congr_left fun e he => hentry e.1 e.2 he
  have hvalues : (c.names.map (·.2)).Nodup := by
    apply List.Nodup.of_map (fun id => (c.record id).name)
    rw [hnames]
    exact hn
  rw [List.perm_ext_iff_of_nodup hc.order_nodup hvalues]
  intro id
  rw [hc.mem_order, List.mem_map]
  constructor
  · exact fun h => ⟨_, (hn.mem_iff _ id).mpr h, rfl⟩
  · rintro ⟨⟨name, _⟩, he, rfl⟩
    rw [hentry name _ he]
    exact (hn.mem_iff name _).mp he

/-- A catalog with the invariant and unambiguous names is well formed. -/
theorem Inv.wellFormed (hc : c.Inv) (hu : c.Unambiguous) : c.WellFormed where
  length_redirect := hc.length_redirect
  has_of_mem_redirect _ := hc.has_of_mem_redirect
  names_unique := hu.1
  registered := by
    intro name id h
    have hl : c.lookup name = some id := (hu.1.mem_iff name id).mp h
    obtain ⟨hhas, hname, -⟩ := hc.lookup_declared hl
    exact ⟨hhas, hname, hc.getElem?_redirect hhas (hc.next_of_lookup hl)⟩
  order_sorted := hc.order_sorted
  order_perm := hc.order_perm hu.1
  placeholders_unique := hu.2
  placeholder := by
    intro name id h
    have hp : c.placeholders.get? name = some id := (hu.2.mem_iff name id).mp h
    obtain ⟨hhas, hname, hflag⟩ := hc.placeholder hp
    refine ⟨hhas, hname, hflag, ?_⟩
    rw [List.mem_map]
    rintro ⟨⟨other, _⟩, he, rfl⟩
    exact (hc.lookup_declared ((hu.1.mem_iff other _).mp he)).2.2 ⟨name, hp⟩
  acyclic := by
    intro id h
    refine hc.acyclic id (Relation.TransGen.mono ?_ id id h)
    rintro a b ⟨hne, hget⟩
    exact ⟨next_of_getElem? hget, hne⟩
  canonical := by
    intro id hid
    have hhas := hc.has_canonical hid
    exact ⟨hhas, hc.getElem?_redirect hhas (hc.next_canonical id), hc.canonical_canonical id⟩

end Catalog

/-- At every point of every session the catalog is well-formed. -/
theorem session_wellFormed (o : Origin) (calls : List Call) : (session o calls).catalog.WellFormed := by
  have hkeeps := session_keeps (P := fun c => c.Inv ∧ c.Unambiguous) ⟨Catalog.inv_empty, .nil, .nil⟩
    (fun _ x hc => ⟨hc.1.change x, hc.2.change x⟩) (fun _ hc => ⟨hc.1.settle, hc.2.settle hc.1⟩) o calls
  exact hkeeps.1.wellFormed hkeeps.2

end HeaderAtlas
