import HeaderAtlas.Proofs.Catalog.Linking

/-!
# What a session has settled

However a session came about, a settlement leaves no handle on a record that was replaced: a handle given out for a declared type
stands for the type its name means, and a placeholder for a declared type that its name means, or for itself if there is none
(`settlement_resolves`). A second settlement right after it finds nothing left to do (`settlement_idempotent`).
-/

namespace HeaderAtlas

namespace Recorder

/-- A record that was declared stays declared under its name, whatever is called. -/
theorem perform_declared {r : Recorder} (hr : r.catalog.Inv) {id : TypeId} {name : String}
    (h : r.catalog.Declared id name) (calls : List Call) : (r.perform calls).catalog.Declared id name := by
  have hkeeps := perform_keeps (P := fun c => c.Inv ∧ c.Declared id name)
    (fun c x hc => ⟨hc.1.change x, (c.extends_change x).declared hc.2⟩)
    (fun _ hc => ⟨hc.1.settle, hc.2.settle hc.1⟩) calls r ⟨hr, h⟩
  exact hkeeps.2

/-- A name keeps its placeholder, whatever is called. -/
theorem perform_placeholders {r : Recorder} (hr : r.catalog.Inv) {id : TypeId} {name : String}
    (h : r.catalog.placeholders.get? name = some id) (calls : List Call) :
    (r.perform calls).catalog.placeholders.get? name = some id := by
  have hkeeps := perform_keeps (P := fun c => c.Inv ∧ c.placeholders.get? name = some id)
    (fun _ x hc => ⟨hc.1.change x, Catalog.get?_placeholders_change hc.2 x⟩)
    (fun _ hc => ⟨hc.1.settle, by rw [hc.1.placeholders_settle]; exact hc.2⟩) calls r ⟨hr, h⟩
  exact hkeeps.2

end Recorder

/-- The handle that a declaration gave out is declared ever after. -/
theorem session_declared_of_register (o : Origin) (before : List Call) (d : TypeDef) (after : List Call) :
    (session o (before ++ .register d :: after)).catalog.Declared ((session o before).register d).1 d.name := by
  have hc := session_inv o before
  rw [session_append]
  exact Recorder.perform_declared (hc.register d) (Catalog.declared_register d hc) after

/-- A type known from the start is declared ever after. -/
theorem session_declared_of_origin (o : Origin) (calls : List Call) {id : TypeId} (h : o.catalog.Has id) :
    (session o calls).catalog.Declared id (o.catalog.record id).name := by
  have hnone : o.catalog.placeholders = [] := by
    cases o with
    | empty => rfl
    | builtin => decide +kernel
  refine Recorder.perform_declared (session_inv o []) ⟨h, rfl, ?_⟩ calls
  rintro ⟨name, hp⟩
  rw [session, Recorder.perform, List.foldl_nil] at hp
  rw [hnone] at hp
  cases hp

/-- The handle that a placeholder was given out under is that of its name ever after. -/
theorem session_placeholder (o : Origin) (before : List Call) (name : String) (after : List Call) :
    (session o (before ++ .placeholder name :: after)).catalog.placeholders.get? name =
      some ((session o before).placeholder name).1 := by
  have hc := session_inv o before
  rw [session_append]
  exact Recorder.perform_placeholders (hc.change (.placeholder name)) (Catalog.get?_placeholder _ name) after

/-- Before the first settlement every handle stands for itself. -/
theorem session_next_of_not_settled (o : Origin) {calls : List Call} (h : Call.settle ∉ calls) (id : TypeId) :
    (session o calls).catalog.next id = id := by
  have hwithin : ∀ call ∈ calls, call.Within fun _ => True := by
    intro call hcall
    rcases call.within_or_settle with hw | rfl
    · exact hw
    · exact absurd hcall h
  have hgrows := ((o.grows.mono (fun _ _ => trivial)).trans
    (Recorder.perform_grows (fun _ _ => trivial) calls hwithin { catalog := o.catalog }))
  have hkeeps := hgrows.keeps (P := fun c => c.Inv ∧ c.next id = id)
    (fun c x _ hc => ⟨hc.1.change x, (hc.1.next_change x id).trans hc.2⟩) ⟨Catalog.inv_empty, rfl⟩
  exact hkeeps.2

/-- At the first settlement a placeholder comes to stand for what its name means. -/
theorem canonical_placeholder_of_lookupWritten (o : Origin) {calls : List Call} (h : Call.settle ∉ calls) {name : String}
    {p found : TypeId} (hp : (session o calls).catalog.settle.2.placeholders.get? name = some p)
    (hmeans : (session o calls).catalog.lookupWritten name = some found) :
    (session o calls).catalog.settle.2.canonical p = found := by
  have hc := session_inv o calls
  obtain ⟨meant, -, hl⟩ := Catalog.lookup_of_lookupWritten hmeans
  rw [← hc.lookup_settle] at hl
  have hnext := hc.settle.next_of_lookup hl
  rw [hc.placeholders_settle] at hp
  apply hc.settle.canonical_of_next _ hnext
  rcases hc.next_settle p with hk | ⟨-, hk⟩
  · -- the pair of the placeholder was done, so it is redirected now
    have hpair := hc.mem_pairs_of_placeholder hp hmeans
    rw [← hc.pairs_settle] at hpair
    rw [session_next_of_not_settled o h] at hk
    exact absurd hk (hc.settled_settle _ hpair)
  · have hw := hc.lookupWritten_of_mem_pairs hp hk
    rw [hmeans] at hw
    exact (Option.some.inj hw).symm

/-- At the first settlement a placeholder whose name is declared comes to stand for the type of that name. -/
theorem canonical_placeholder_of_not_settled (o : Origin) {calls : List Call} (h : Call.settle ∉ calls) {name : String}
    {p found : TypeId} (hp : (session o calls).catalog.settle.2.placeholders.get? name = some p)
    (hl : (session o calls).catalog.settle.2.lookup name = some found) :
    (session o calls).catalog.settle.2.canonical p = found := by
  rw [(session_inv o calls).lookup_settle] at hl
  exact canonical_placeholder_of_lookupWritten o h hp (Catalog.lookupWritten_of_some hl)

/-- What settlement brings about, whatever went before it. A handle that was ever given out for a declared type, and any record that
was declared, stands for the type its name means now. A placeholder stands for a declared type, of its name or of the part behind
the last `::`, or for itself, and for itself exactly if neither name is declared. If nothing was settled before, a placeholder
whose full name is declared stands for the type of that name. -/
theorem settlement_resolves (o : Origin) (calls : List Call) :
    let c := (session o calls).settle.2.catalog
    -- declared types: those declared by a call, those known from the start, and any other
    (∀ before d after, calls = before ++ .register d :: after →
      c.lookup d.name = some (c.canonical ((session o before).register d).1)) ∧
    (∀ id, o.catalog.Has id → c.lookup (o.catalog.record id).name = some (c.canonical id)) ∧
    (∀ id name, c.Declared id name → c.lookup name = some (c.canonical id)) ∧
    -- placeholders: those given out by a call are those of the table
    (∀ before name after, calls = before ++ .placeholder name :: after →
      c.placeholders.get? name = some ((session o before).placeholder name).1) ∧
    (∀ name p, c.placeholders.get? name = some p →
      (c.canonical p = p ∨ ∃ found, (found = name ∨ IsLastPart name found) ∧
        (c.record (c.canonical p)).name = found ∧ c.lookup found = some (c.canonical p)) ∧
      (c.canonical p = p ↔ c.lookup name = none ∧ ∀ part, IsLastPart name part → c.lookup part = none)) ∧
    -- the first settlement prefers the full name
    (Call.settle ∉ calls → ∀ name p found, c.placeholders.get? name = some p → c.lookup name = some found →
      c.canonical p = found) := by
  rw [Recorder.catalog_settle]
  intro c
  have hinv := session_inv o calls
  have hc : c.Inv := hinv.settle
  have hs : c.Settled := hinv.settled_settle
  refine ⟨?_, ?_, ?_, ?_, ?_, ?_⟩
  · rintro before d after rfl
    exact hs.lookup_of_declared hc ((session_declared_of_register o before d after).settle hinv)
  · intro id hid
    exact hs.lookup_of_declared hc ((session_declared_of_origin o calls hid).settle hinv)
  · intro id name hd
    exact hs.lookup_of_declared hc hd
  · rintro before name after rfl
    rw [hinv.placeholders_settle]
    exact session_placeholder o before name after
  · intro name p hp
    refine ⟨?_, ?_⟩
    · by_cases hself : c.canonical p = p
      · exact Or.inl hself
      · obtain ⟨found, hm, hl⟩ := hs.lookup_placeholder hc hp hself
        exact Or.inr ⟨found, hm, (hc.lookup_declared hl).2.1, hl⟩
    · rw [hs.canonical_placeholder_iff hc hp, Catalog.lookupWritten_eq_none_iff]
  · intro h name p found hp hl
    exact canonical_placeholder_of_not_settled o h hp hl

/-- A run with a type declared twice, a placeholder whose full name and last part are both declared, and an external name. -/
theorem settlement_resolves_at_overlap :
    let calls : List Call := [.placeholder "ns::A", .register { name := "A" }, .register { name := "ns::A" },
      .register { name := "A" }, .placeholder "ns::B"]
    let c := (session .empty calls).settle.2.catalog
    c.lookup "A" = some (c.canonical ⟨1⟩) ∧ c.placeholders.get? "ns::A" = some ⟨0⟩ ∧ c.lookup "ns::A" = some ⟨2⟩ ∧
      c.canonical ⟨0⟩ = ⟨2⟩ ∧ c.placeholders.get? "ns::B" = some ⟨4⟩ ∧
      (c.canonical ⟨4⟩ = ⟨4⟩ ↔ c.lookup "ns::B" = none ∧ ∀ part, IsLastPart "ns::B" part → c.lookup part = none) := by
  intro calls c
  obtain ⟨hreg, -, -, -, hplaceholder, hfirst⟩ := settlement_resolves .empty calls
  have ha : c.placeholders.get? "ns::A" = some ⟨0⟩ := by decide +kernel
  have hl : c.lookup "ns::A" = some ⟨2⟩ := by decide +kernel
  have hb : c.placeholders.get? "ns::B" = some ⟨4⟩ := by decide +kernel
  refine ⟨hreg [.placeholder "ns::A"] { name := "A" } _ rfl, ha, hl, hfirst ?_ "ns::A" ⟨0⟩ ⟨2⟩ ha hl, hb, ?_⟩
  · simp [calls]
  · exact (hplaceholder "ns::B" ⟨4⟩ hb).2

/-! ## Settling twice -/

namespace Catalog

variable {c : Catalog}

/-- In a settled catalog settlement sets no redirect. -/
theorem Settled.settleRedirects_eq (hs : c.Settled) (hc : c.Inv) : c.settleRedirects = (c, 0) := by
  rw [hc.settleRedirects_eq]
  apply foldl_eq_self
  intro pair h
  exact if_neg (hs pair h)

/-- A settled catalog is left as it is. -/
theorem Inv.settle_settle (hc : c.Inv) : c.settle.2.settle.2 = c.settle.2 := by
  have hredirects := hc.settled_settle.settleRedirects_eq hc.settle
  have horder : c.settle.2.order = c.settleRedirects.1.order := (sameFrame_settle c).order_eq
  rw [settle_snd c.settle.2, hredirects]
  dsimp only
  rw [horder, settle_snd c]
  exact hc.settleRedirects.foldl_linkBases_foldl _

theorem Inv.substituted_eq_differences (hc : c.Inv) :
    c.settle.1.substituted = differences c.redirect c.settle.2.redirect := by
  rw [substituted_settle, (sameFrame_settle c).redirect_eq]
  exact hc.pointed_settleRedirects.count

end Catalog

/-- A second settlement leaves the catalog as the first one left it, sets no redirect and finds the same names external. The number
of redirects that the first one reports is the number of places at which it changed the table. -/
theorem settlement_idempotent (o : Origin) (calls : List Call) :
    let r := session o calls
    let first := r.settle
    let second := first.2.settle
    second.2.catalog = first.2.catalog ∧ second.1.substituted = 0 ∧ second.1.unresolved = first.1.unresolved ∧
      first.2.catalog.redirect.length = r.catalog.redirect.length ∧
      first.1.substituted = differences r.catalog.redirect first.2.catalog.redirect := by
  intro r first second
  have hc := session_inv o calls
  have hfirst : first.2.catalog = r.catalog.settle.2 := Recorder.catalog_settle r
  have hsecond : second.1 = r.catalog.settle.2.settle.1 := by
    rw [← hfirst]
    exact Recorder.settle_fst first.2
  have hsame : r.catalog.settle.2.settle.2 = r.catalog.settle.2 := hc.settle_settle
  refine ⟨?_, ?_, ?_, ?_, ?_⟩
  · rw [Recorder.catalog_settle, hfirst, hsame]
  · rw [hsecond, hc.settle.substituted_eq_differences, hsame, differences_self]
  · rw [hsecond, Catalog.unresolved_settle, hsame, Recorder.settle_fst, Catalog.unresolved_settle]
  · rw [hfirst, (Catalog.sameFrame_settle _).redirect_eq]
    exact hc.pointed_settleRedirects.length
  · rw [hfirst, Recorder.settle_fst]
    exact hc.substituted_eq_differences

end HeaderAtlas
