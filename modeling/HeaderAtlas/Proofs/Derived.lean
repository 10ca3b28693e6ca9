import HeaderAtlas.Proofs.Catalog.Linking

/-!
# Derived types are exact

Only settlement fills the lists of derived types. Where a session does not fill them otherwise, its first settlement finds them empty,
and enters with every declared type the declared types that derive from it, in the order of their declaration.
-/

namespace HeaderAtlas

/-- The change fills no list of derived types. -/
def Change.LeavesDerived : Change → Prop
  | register d => d.derived = []
  | edit _ e => ∀ d, d.derived = [] → (e.apply d).derived = []
  | _ => True

/-- Reading headers fills no list of derived types. -/
theorem ReadChange.leavesDerived {x : Change} (h : ReadChange x) : x.LeavesDerived := by
  cases h with
  | declare d _ hd => exact hd
  | edit id e he => exact fun d hd => (he d).trans hd
  | _ => trivial

namespace Catalog

variable {c : Catalog}

/-- No type is entered as derived from another. -/
def NoneDerived (c : Catalog) : Prop := ∀ id, (c.record id).derived = []

theorem NoneDerived.concat {c' : Catalog} {d : TypeDef} (h : c.NoneDerived) (hd : d.derived = [])
    (hrecords : c'.records = c.records ++ [d]) : c'.NoneDerived := by
  intro id
  rw [record_concat hrecords]
  split
  · exact hd
  · exact h id

theorem NoneDerived.change (h : c.NoneDerived) {x : Change} (hx : x.LeavesDerived) : (x.apply c).NoneDerived := by
  cases x with
  | register d => exact h.concat hx (records_register c d)
  | placeholder name =>
    rw [Change.apply]
    rcases c.placeholder_snd name with hs | ⟨-, hs⟩
    · rw [hs]
      exact h
    · rw [hs]
      exact h.concat rfl (records_hold c name)
  | edit i e =>
    intro id
    rw [Change.apply, edit, record_setRecord]
    split
    · exact hx _ (h id)
    · exact h id
  | addFunction m => exact h
  | addGlobal p => exact h

/-- Settlement of a catalog without derived types enters with each declared type those that derive from it. -/
theorem NoneDerived.derived_settle (h : c.NoneDerived) (hc : c.Inv) (b : TypeId) :
    (c.settle.2.record b).derived = if b ∈ c.settle.2.order then c.settle.2.order.filter (c.settle.2.Derives · b) else [] := by
  rw [hc.derived_settle, h b, foldl_enter_of_disjoint _ (hc.settle.order_nodup.filter _) _ (fun _ _ => List.not_mem_nil),
    List.nil_append]

end Catalog

/-- Before the first settlement no type is entered as derived, if no call fills a list of derived types. -/
theorem session_noneDerived (o : Origin) {calls : List Call} (h : ∀ call ∈ calls, call.Within Change.LeavesDerived) :
    (session o calls).catalog.NoneDerived := by
  have hgrows := (o.grows.mono fun _ => ReadChange.leavesDerived).trans
    (Recorder.perform_grows (fun _ => ReadChange.leavesDerived) calls h { catalog := o.catalog })
  exact hgrows.keeps (fun _ _ hx hc => hc.change hx) fun _ => rfl

/-- After calls without a settlement, none of which fills a list of derived types, settlement enters with every declared type
exactly the other declared types with a base that stands for it, in the order of their declaration and each once. A record that
no name means, superseded or a placeholder, has none. -/
theorem settlement_derived_exact (o : Origin) (calls : List Call) (h : ∀ call ∈ calls, call.Within Change.LeavesDerived) :
    let c := (session o calls).settle.2.catalog
    (∀ name b, c.lookup name = some b →
      (c.record b).derived =
        c.order.filter (fun t => t ≠ b ∧ ∃ base ∈ (c.record t).bases, c.canonical base = b) ∧
      (c.record b).derived.Nodup) ∧
    ∀ id, (∀ name, c.lookup name ≠ some id) → (c.record id).derived = [] := by
  rw [Recorder.catalog_settle]
  intro c
  have hinv := session_inv o calls
  have hc : c.Inv := hinv.settle
  have hderived := (session_noneDerived o h).derived_settle hinv
  refine ⟨?_, ?_⟩
  · intro name b hl
    have hb : b ∈ c.order := by
      rw [hc.mem_order, (hc.lookup_declared hl).2.1]
      exact hl
    rw [hderived b, if_pos hb]
    exact ⟨rfl, hc.order_nodup.filter _⟩
  · intro id hid
    rw [hderived id, if_neg (fun hmem => hid _ (hc.mem_order.mp hmem))]

/-- A run with a base that is declared later and listed twice, a type declared twice, and a base reached by its own handle. -/
theorem settlement_derived_exact_at_duplicates :
    let calls : List Call := [.placeholder "B", .register { name := "A", bases := [⟨0⟩, ⟨0⟩] }, .register { name := "B" },
      .register { name := "C", bases := [⟨2⟩, ⟨0⟩] }, .register { name := "A", bases := [⟨0⟩] }]
    let c := (session .empty calls).settle.2.catalog
    (∀ call ∈ calls, call.Within Change.LeavesDerived) ∧ c.lookup "B" = some ⟨2⟩ ∧
      (c.record ⟨2⟩).derived =
        c.order.filter (fun t => t ≠ ⟨2⟩ ∧ ∃ base ∈ (c.record t).bases, c.canonical base = ⟨2⟩) ∧
      (c.record ⟨2⟩).derived = [⟨3⟩, ⟨4⟩] := by
  intro calls c
  have hwithin : ∀ call ∈ calls, call.Within Change.LeavesDerived := by
    simp [calls, Call.Within, Change.LeavesDerived]
  have hl : c.lookup "B" = some ⟨2⟩ := by decide +kernel
  obtain ⟨hregistered, -⟩ := settlement_derived_exact .empty calls hwithin
  exact ⟨hwithin, hl, (hregistered "B" ⟨2⟩ hl).1, by decide +kernel⟩

end HeaderAtlas
