import Mathlib.Logic.Relation
import HeaderAtlas.Proofs.Catalog.Invariant

/-!
# Where redirects end

`canonical` follows at most as many redirects as there are records. Under the invariant of catalogs every redirect leads to a
record of a higher rank, a placeholder having the lowest and any other record its place, so there is no cycle and the bound is
never met: `canonical` ends on a record that stands for itself.
-/

namespace HeaderAtlas

namespace Catalog

variable {c : Catalog}

/-- What one redirect keeps, any number of them keeps. -/
theorem follow_keeps {P : TypeId → Prop} (hP : ∀ id, P id → P (c.next id)) (n : Nat) :
    ∀ id, P id → P (c.follow n id) := by
  induction n with
  | zero => exact fun _ h => h
  | succ n ih =>
    intro id h
    rw [follow]
    split
    · exact h
    · exact ih _ (hP id h)

/-- What one redirect keeps, the record that stands for a handle has. -/
theorem canonical_keeps {P : TypeId → Prop} (hP : ∀ id, P id → P (c.next id)) {id : TypeId} (h : P id) :
    P (c.canonical id) := follow_keeps hP _ id h

theorem canonical_of_next_eq {id : TypeId} (h : c.next id = id) : c.canonical id = id := by
  apply canonical_keeps (P := (· = id)) _ rfl
  rintro _ rfl
  exact h

/-- A handle without a record stands for itself. -/
theorem Inv.next_of_not_has (hc : c.Inv) {id : TypeId} (h : ¬c.Has id) : c.next id = id := by
  have hle : c.redirect.length ≤ id.index := by
    rw [hc.length_redirect]
    exact Nat.le_of_not_lt h
  rw [next, List.getElem?_eq_none hle, Option.getD_none]

/-! ## Rank -/

/-- The place of a record among those that a redirect may lead to; placeholders come before all. -/
def rank (c : Catalog) (id : TypeId) : Nat :=
  if c.placeholders.get? (c.record id).name = some id then 0 else id.index + 1

theorem Inv.rank_of_isPlaceholder (hc : c.Inv) {id : TypeId} (h : c.IsPlaceholder id) : c.rank id = 0 := by
  obtain ⟨name, hn⟩ := h
  rw [rank, (hc.placeholder hn).2.1, if_pos hn]

theorem rank_of_not_isPlaceholder {id : TypeId} (h : ¬c.IsPlaceholder id) : c.rank id = id.index + 1 :=
  if_neg fun hp => h ⟨_, hp⟩

theorem rank_le {id : TypeId} (h : c.Has id) : c.rank id ≤ c.records.length := by
  rw [rank]
  split
  · exact Nat.zero_le _
  · exact h

/-- A redirect leads to a record of a higher rank. -/
theorem Links.rank_lt (hc : c.Inv) {a b : TypeId} (h : c.Links a b) : c.rank a < c.rank b := by
  rw [rank_of_not_isPlaceholder h.target.2.2]
  by_cases ha : c.IsPlaceholder a
  · rw [hc.rank_of_isPlaceholder ha]
    exact Nat.succ_pos _
  · rw [rank_of_not_isPlaceholder ha]
    exact Nat.succ_lt_succ (h.later ha).2

/-- Redirects never come back to where they began. -/
theorem Inv.acyclic (hc : c.Inv) (id : TypeId) :
    ¬Relation.TransGen (fun a b => c.next a = b ∧ a ≠ b) id id := by
  have hrank : ∀ {a b}, Relation.TransGen (fun a b => c.next a = b ∧ a ≠ b) a b → c.rank a < c.rank b := by
    intro a b h
    have hstep : ∀ {a b}, c.next a = b ∧ a ≠ b → c.rank a < c.rank b := by
      rintro a _ ⟨rfl, hne⟩
      exact (hc.links (Ne.symm hne)).rank_lt hc
    induction h with
    | single h => exact hstep h
    | tail _ h ih => exact Nat.lt_trans ih (hstep h)
  exact fun h => Nat.lt_irrefl _ (hrank h)

/-! ## The end of the redirects -/

/-- With enough steps for the ranks that are left, following ends on a record that stands for itself. -/
theorem Inv.next_follow (hc : c.Inv) (n : Nat) :
    ∀ id, c.Has id → c.records.length ≤ n + c.rank id → c.next (c.follow n id) = c.follow n id := by
  induction n with
  | zero =>
    intro id hid hn
    rw [follow]
    by_cases hne : c.next id = id
    · exact hne
    · have hlt := (hc.links hne).rank_lt hc
      have hle := rank_le (hc.links hne).target.1
      omega
  | succ n ih =>
    intro id hid hn
    rw [follow]
    split
    · assumption
    · rename_i hne
      have hlt := (hc.links hne).rank_lt hc
      exact ih _ (hc.links hne).target.1 (by omega)

/-- The record that stands for a handle stands for itself. -/
theorem Inv.next_canonical (hc : c.Inv) (id : TypeId) : c.next (c.canonical id) = c.canonical id := by
  by_cases hid : c.Has id
  · exact hc.next_follow _ id hid (by rw [hc.length_redirect]; omega)
  · rw [canonical_of_next_eq (hc.next_of_not_has hid), hc.next_of_not_has hid]

theorem Inv.canonical_canonical (hc : c.Inv) (id : TypeId) : c.canonical (c.canonical id) = c.canonical id :=
  canonical_of_next_eq (hc.next_canonical id)

theorem Inv.canonical_eq_self_iff (hc : c.Inv) (id : TypeId) : c.canonical id = id ↔ c.next id = id := by
  constructor
  · intro h
    rw [← h]
    exact hc.next_canonical id
  · exact canonical_of_next_eq

/-- A record that a name means stands for itself. -/
theorem Inv.next_of_lookup (hc : c.Inv) {name : String} {id : TypeId} (h : c.lookup name = some id) : c.next id = id := by
  by_cases hne : c.next id = id
  · exact hne
  · exact absurd h ((hc.links hne).idle name)

/-- One redirect stays among the records. -/
theorem Inv.has_next (hc : c.Inv) {id : TypeId} (h : c.Has id) : c.Has (c.next id) := by
  by_cases hn : c.next id = id
  · rw [hn]
    exact h
  · exact (hc.links hn).target.1

theorem Inv.has_canonical (hc : c.Inv) {id : TypeId} (h : c.Has id) : c.Has (c.canonical id) :=
  canonical_keeps (P := c.Has) (fun _ => hc.has_next) h

/-- A declared record is redirected to one declared under the same name. -/
theorem Inv.declared_next (hc : c.Inv) {id : TypeId} {name : String} (h : c.Declared id name) :
    c.Declared (c.next id) name := by
  by_cases hn : c.next id = id
  · rw [hn]
    exact h
  · have hl := hc.links hn
    rw [← h.2.1, ← (hl.later h.2.2).1]
    exact hl.target

/-- The record that stands for a declared one was declared under the same name. -/
theorem Inv.declared_canonical (hc : c.Inv) {id : TypeId} {name : String} (h : c.Declared id name) :
    c.Declared (c.canonical id) name :=
  canonical_keeps (P := fun i => c.Declared i name) (fun _ => hc.declared_next) h

/-- A redirected handle ends on a record declared under the name of the first record on its way. -/
theorem Inv.declared_canonical_of_next_ne (hc : c.Inv) {id : TypeId} (h : c.next id ≠ id) :
    c.Declared (c.canonical id) (c.record (c.next id)).name := by
  have hstep : ∀ i, (i = id ∨ c.Declared i (c.record (c.next id)).name) →
      (c.next i = id ∨ c.Declared (c.next i) (c.record (c.next id)).name) := by
    rintro i (rfl | hi)
    · exact Or.inr (hc.links h).target
    · exact Or.inr (hc.declared_next hi)
  rcases canonical_keeps hstep (Or.inl rfl) with hid | hd
  · exact absurd ((hc.canonical_eq_self_iff id).mp hid) h
  · exact hd

/-- A handle redirected to a record that stands for itself stands for that record. -/
theorem Inv.canonical_of_next (hc : c.Inv) {id target : TypeId} (h : c.next id = target) (ht : c.next target = target) :
    c.canonical id = target := by
  have hstep : ∀ i, (i = id ∨ i = target) → (c.next i = id ∨ c.next i = target) := by
    rintro i (rfl | rfl)
    · exact Or.inr h
    · exact Or.inr ht
  rcases canonical_keeps hstep (Or.inl rfl) with hid | hd
  · rw [hid, ← h]
    exact ((hc.canonical_eq_self_iff id).mp hid).symm
  · exact hd

end Catalog

end HeaderAtlas
