import HeaderAtlas.Proofs.Catalog.Canonical
import HeaderAtlas.Proofs.Catalog.Settlement

/-!
# Catalogs that calls build

A caller may edit a record in any way, its name and whether it counts as declared included. What `Catalog.Inv` says of names and
redirects is then lost: redirects may even lead around a circle. What no call can break is that the tables name only handles that
have a record (`Catalog.Grounded`), so that `canonical` never leads out of the catalog.
-/

namespace HeaderAtlas

namespace Catalog

/-- The catalogs that calls build, in any order and any number, with no limit on what an edit does. -/
inductive Built : Catalog → Prop where
  | origin (o : Origin) : Built o.catalog
  | register {c : Catalog} (h : Built c) (d : TypeDef) : Built (c.register d).2
  | reference {c : Catalog} (h : Built c) (name : String) : Built (c.reference name).2
  | placeholder {c : Catalog} (h : Built c) (name : String) : Built (c.placeholder name).2
  | edit {c : Catalog} (h : Built c) (id : TypeId) (f : TypeDef → TypeDef) : Built (c.edit id f)
  | free {c : Catalog} (h : Built c) (functions : List Method) (globals : List Property) :
      Built { c with functions := functions, globals := globals }
  | scan {r : Recorder} (h : Built r.catalog) (options : ScanOptions) (source : String) :
      Built (r.scan options source).catalog
  | settle {c : Catalog} (h : Built c) : Built c.settle.2

/-- What the tables of a catalog name has a record. -/
structure Grounded (c : Catalog) : Prop where
  length_redirect : c.redirect.length = c.records.length
  redirect : ∀ id ∈ c.redirect, c.Has id
  lookup : ∀ {name id}, c.lookup name = some id → c.Has id
  superseded : ∀ pair ∈ c.superseded, c.Has pair.2

namespace Grounded

variable {c c' : Catalog}

/-- The empty catalog names no handles. -/
theorem empty : Catalog.empty.Grounded where
  length_redirect := rfl
  redirect _ h := absurd h List.not_mem_nil
  lookup h := by cases h
  superseded _ h := absurd h List.not_mem_nil

/-! ## What one call keeps -/

/-- A new record may be named by every table. -/
theorem concat (h : c.Grounded) {d : TypeDef} (hrecords : c'.records = c.records ++ [d])
    (hredirect : c'.redirect = c.redirect ++ [⟨c.records.length⟩])
    (hlookup : ∀ {name id}, c'.lookup name = some id → c.lookup name = some id ∨ id = ⟨c.records.length⟩)
    (hsuperseded : ∀ pair ∈ c'.superseded, pair ∈ c.superseded ∨ pair.2 = ⟨c.records.length⟩) : c'.Grounded := by
  have hlength : c'.records.length = c.records.length + 1 := by rw [hrecords, List.length_append, List.length_singleton]
  have hold : ∀ {id}, c.Has id → c'.Has id := fun hid => by
    rw [Has, hlength]
    exact Nat.lt_succ_of_lt hid
  have hnew : c'.Has ⟨c.records.length⟩ := by
    rw [Has, hlength]
    exact Nat.lt_succ_self _
  constructor
  · rw [hredirect, List.length_append, List.length_singleton, hlength, h.length_redirect]
  · intro id hid
    rw [hredirect, List.mem_append, List.mem_singleton] at hid
    rcases hid with hid | rfl
    · exact hold (h.redirect id hid)
    · exact hnew
  · intro name id hid
    rcases hlookup hid with hid | rfl
    · exact hold (h.lookup hid)
    · exact hnew
  · intro pair hpair
    rcases hsuperseded pair hpair with hpair | hpair
    · exact hold (h.superseded pair hpair)
    · rw [hpair]
      exact hnew

/-- A declared type is named where it has its record, and so is the one it supersedes. -/
theorem register (h : c.Grounded) (d : TypeDef) : (c.register d).2.Grounded := by
  refine h.concat (records_register c d) (redirect_register c d) ?_ ?_
  · intro name id hid
    rw [lookup_register] at hid
    split at hid
    · exact Or.inr (Option.some.inj hid).symm
    · exact Or.inl hid
  · rintro ⟨a, b⟩ hpair
    exact ((mem_superseded_register c d a b).mp hpair).imp id And.right

/-- A placeholder has a record. -/
theorem placeholder (h : c.Grounded) (name : String) : (c.placeholder name).2.Grounded := by
  rcases c.placeholder_snd name with hp | ⟨-, hp⟩
  · rw [hp]
    exact h
  · rw [hp]
    exact h.concat (records_hold c name) (redirect_hold c name) Or.inl fun _ => Or.inl

/-- A reference makes a placeholder at most. -/
theorem reference (h : c.Grounded) (name : String) : (c.reference name).2.Grounded := by
  rw [Catalog.reference]
  split
  · exact h
  · exact h.placeholder name

/-- What keeps the tables and the number of records keeps a catalog grounded. -/
theorem of_tables (h : c.Grounded) (hlength : c'.records.length = c.records.length) (hredirect : c'.redirect = c.redirect)
    (hnames : c'.names = c.names) (hsuperseded : c'.superseded = c.superseded) : c'.Grounded := by
  have hhas : ∀ {id}, c.Has id → c'.Has id := fun hid => by rwa [Has, hlength]
  constructor
  · rw [hredirect, hlength, h.length_redirect]
  · rw [hredirect]
    exact fun id hid => hhas (h.redirect id hid)
  · intro name id hid
    rw [Catalog.lookup, hnames] at hid
    exact hhas (h.lookup hid)
  · rw [hsuperseded]
    exact fun pair hpair => hhas (h.superseded pair hpair)

/-- Records are edited in place, whatever the edit does. -/
theorem edit (h : c.Grounded) (id : TypeId) (f : TypeDef → TypeDef) : (c.edit id f).Grounded :=
  h.of_tables (length_records_setRecord ..) rfl rfl rfl

/-- Every change keeps a catalog grounded. -/
theorem change (h : c.Grounded) (x : Change) : (x.apply c).Grounded := by
  cases x with
  | register d => exact h.register d
  | placeholder name => exact h.placeholder name
  | edit id e => exact h.edit id e.apply
  | addFunction m => exact h.of_tables rfl rfl rfl rfl
  | addGlobal p => exact h.of_tables rfl rfl rfl rfl

/-- Changes one after the other keep a catalog grounded. -/
theorem grows {φ : Change → Prop} (h : c.Grounded) (hg : Grows φ c c') : c'.Grounded :=
  hg.keeps (fun _ x _ hc => hc.change x) h

/-! ## Where redirects lead -/

/-- A redirect leads to a record. -/
theorem has_next (h : c.Grounded) {id : TypeId} (hid : c.Has id) : c.Has (c.next id) := by
  rw [next]
  cases hn : c.redirect[id.index]? with
  | none => exact hid
  | some target => exact h.redirect target (List.mem_of_getElem? hn)

/-- Redirects one after the other lead to a record, even around a circle. -/
theorem has_canonical (h : c.Grounded) {id : TypeId} (hid : c.Has id) : c.Has (c.canonical id) :=
  canonical_keeps (P := c.Has) (fun _ => h.has_next) hid

/-- A handle without a record stands for itself. -/
theorem canonical_of_not_has (h : c.Grounded) {id : TypeId} (hid : ¬c.Has id) : c.canonical id = id := by
  apply canonical_of_next_eq
  have hle : c.redirect.length ≤ id.index := by
    rw [h.length_redirect]
    exact Nat.le_of_not_lt hid
  rw [next, List.getElem?_eq_none hle, Option.getD_none]

/-! ## Settlement -/

variable {s : Catalog × Nat}

/-- A redirect may be set to any record. -/
theorem point (h : s.1.Grounded) (source : TypeId) {target : TypeId} (ht : s.1.Has target) :
    (Catalog.point s source target).1.Grounded where
  length_redirect := List.length_set.trans h.length_redirect
  redirect id hid := by
    rcases List.mem_or_eq_of_mem_set hid with hid | rfl
    · exact h.redirect id hid
    · exact ht
  lookup := h.lookup
  superseded := h.superseded

/-- A placeholder is redirected to what its name means, which has a record. -/
theorem settlePlaceholder (h : s.1.Grounded) (i : Nat) : (Catalog.settlePlaceholder s i).1.Grounded := by
  unfold Catalog.settlePlaceholder
  dsimp only
  split
  · exact h
  · split
    · rename_i found hfound
      split
      · exact h
      · obtain ⟨name, -, hname⟩ := lookup_of_lookupWritten hfound
        exact h.point _ (h.has_canonical (h.lookup hname))
    · exact h

/-- Pointing superseded records leaves the list of them as it is, so every pair of it is met with a record. -/
theorem foldl_settleSuperseded (pairs : List (TypeId × TypeId)) :
    ∀ s : Catalog × Nat, s.1.Grounded → (∀ pair ∈ pairs, s.1.Has pair.2) →
      (pairs.foldl Catalog.settleSuperseded s).1.Grounded := by
  induction pairs with
  | nil => exact fun s h _ => h
  | cons pair pairs ih =>
    intro s h hpairs
    obtain ⟨hpair, hrest⟩ := List.forall_mem_cons.mp hpairs
    rw [List.foldl_cons, Catalog.settleSuperseded]
    split
    · exact ih _ (h.point _ hpair) hrest
    · exact ih _ h hrest

/-- Setting all redirects keeps a catalog grounded. -/
theorem settleRedirects (h : c.Grounded) : c.settleRedirects.1.Grounded := by
  have hfirst : ((List.range c.records.length).foldl Catalog.settlePlaceholder (c, 0)).1.Grounded :=
    List.foldlRecOn (motive := fun s : Catalog × Nat => s.1.Grounded) _ _ h fun _ hs i _ => hs.settlePlaceholder i
  exact foldl_settleSuperseded _ _ hfirst hfirst.superseded

/-- Settlement keeps a catalog grounded. -/
theorem settle (h : c.Grounded) : c.settle.2.Grounded := by
  have hframe := sameFrame_settle c
  exact h.settleRedirects.of_tables hframe.length_eq hframe.redirect_eq hframe.names_eq hframe.superseded_eq

end Grounded

/-- Whatever calls build is grounded. -/
theorem Built.grounded {c : Catalog} (h : c.Built) : c.Grounded := by
  induction h with
  | origin o => exact Grounded.empty.grows o.grows
  | register _ d ih => exact ih.register d
  | reference _ name ih => exact ih.reference name
  | placeholder _ name ih => exact ih.placeholder name
  | edit _ id f ih => exact ih.edit id f
  | free _ functions globals ih => exact ih.of_tables rfl rfl rfl rfl
  | @scan r _ options source ih => exact ih.grows (r.scan_grows options source)
  | settle _ ih => exact ih.settle

end Catalog

end HeaderAtlas
