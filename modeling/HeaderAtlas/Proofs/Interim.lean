import Mathlib.Data.List.Induction
import HeaderAtlas.Proofs.Catalog.Twin
import HeaderAtlas.Proofs.Resolution

/-!
# Settling in between

A session of declarations and references may be settled in between or only at its end. The outcome is the same
(`SameOutcome`) but for two cases, which are told apart exactly (`interim_settlement_iff`): a placeholder of a qualified name was
redirected to the type of the last part, and the whole name is declared afterwards (`RedirectedEarly`); or a type was entered as
derived, and is declared again afterwards, while its base is not (`EnteredEarly`). A redirect is never taken back, and neither is
an entry in a list of derived types.
-/

namespace HeaderAtlas

/-- The call is a settlement. -/
def Call.isSettle : Call → Bool
  | settle => true
  | _ => false

/-- The call declares a type, refers to one or settles the catalog: it reads no header and edits no record. -/
def Call.IsBasic : Call → Prop
  | edit _ _ | scan _ _ => False
  | _ => True

theorem Call.eq_settle {call : Call} (h : call.isSettle = true) : call = settle := by
  cases call with
  | settle => rfl
  | _ => cases h

/-- The calls without the settlements among them. -/
def unsettled (calls : List Call) : List Call := calls.filter fun call => !call.isSettle

theorem settle_not_mem_unsettled (calls : List Call) : Call.settle ∉ unsettled calls :=
  fun h => absurd (List.mem_filter.mp h).2 Bool.false_ne_true

theorem session_concat (o : Origin) (calls : List Call) (call : Call) :
    session o (calls ++ [call]) = call.run (session o calls) := session_append o calls [call]

theorem unsettled_concat (calls : List Call) (call : Call) :
    unsettled (calls ++ [call]) = if call.isSettle then unsettled calls else unsettled calls ++ [call] := by
  rw [unsettled, List.filter_append, List.filter_singleton]
  cases call.isSettle with
  | true => exact List.append_nil _
  | false => rfl

/-! ## The session and its twin -/

/-- A basic call other than a settlement keeps catalogs twins. -/
theorem Call.joint {r s : Recorder} (h : r.catalog.Twin s.catalog) {call : Call} (hbasic : call.IsBasic)
    (hsettle : call.isSettle = false) : Catalog.Joint r.catalog s.catalog (call.run r).catalog (call.run s).catalog := by
  cases call with
  | register d => exact h.register d
  | reference name =>
    rw [run, run, Recorder.catalog_reference, Recorder.catalog_reference]
    exact h.reference name
  | placeholder name => exact h.placeholder name
  | edit id e => exact hbasic.elim
  | scan options source => exact hbasic.elim
  | settle => cases hsettle

/-- A session is the twin of the one without its settlements. -/
theorem session_twin (o : Origin) {calls : List Call} (h : ∀ call ∈ calls, call.IsBasic) :
    (session o calls).catalog.Twin (session o (unsettled calls)).catalog := by
  induction calls using List.reverseRecOn with
  | nil => exact .refl _
  | append_singleton calls call ih =>
    have htwin := ih fun x hx => h x (List.mem_append_left _ hx)
    rw [session_concat, unsettled_concat]
    cases hsettle : call.isSettle with
    | true =>
      obtain rfl := Call.eq_settle hsettle
      rw [if_pos rfl, Call.run, Recorder.catalog_settle]
      exact htwin.settle (session_inv o calls)
    | false =>
      rw [if_neg Bool.false_ne_true, session_concat]
      exact (Call.joint htwin (h call (List.mem_append_right _ List.mem_cons_self)) hsettle).twin

/-! ## What a session keeps to its end -/

section later

variable (o : Origin) {before calls : List Call} (h : before <+: calls)

include h

/-- Redirects that are set stay. -/
theorem session_keeps_redirects : (session o before).catalog.Keeps (session o calls).catalog := by
  obtain ⟨after, rfl⟩ := h
  have hkeeps := Recorder.perform_keeps (P := fun c => c.Inv ∧ (session o before).catalog.Keeps c)
    (fun c x hc => ⟨hc.1.change x, hc.2.trans (hc.1.keeps_change x)⟩)
    (fun c hc => ⟨hc.1.settle, hc.2.trans hc.1.keeps_settle⟩) after (session o before) ⟨session_inv o before, fun _ _ => rfl⟩
  rw [session_append]
  exact hkeeps.2

theorem session_keeps_declared {id : TypeId} {name : String} (hd : (session o before).catalog.Declared id name) :
    (session o calls).catalog.Declared id name := by
  obtain ⟨after, rfl⟩ := h
  rw [session_append]
  exact Recorder.perform_declared (session_inv o before) hd after

theorem session_keeps_placeholder {name : String} {p : TypeId}
    (hp : (session o before).catalog.placeholders.get? name = some p) :
    (session o calls).catalog.placeholders.get? name = some p := by
  obtain ⟨after, rfl⟩ := h
  rw [session_append]
  exact Recorder.perform_placeholders (session_inv o before) hp after

end later

theorem catalog_session_settle (o : Origin) (calls : List Call) :
    (session o (calls ++ [.settle])).catalog = (session o calls).catalog.settle.2 := by
  rw [session_concat]
  exact Recorder.catalog_settle _

/-- A placeholder that is redirected was so by a settlement that found what its name meant. -/
theorem session_redirected (o : Origin) {calls : List Call} {name : String} {p : TypeId}
    (hp : (session o calls).catalog.placeholders.get? name = some p) (hne : (session o calls).catalog.next p ≠ p) :
    ∃ before, before ++ [.settle] <+: calls ∧ (session o before).catalog.placeholders.get? name = some p ∧
      (session o before).catalog.lookupWritten name = some ((session o calls).catalog.next p) := by
  induction calls using List.reverseRecOn with
  | nil => exact absurd (session_next_of_not_settled o List.not_mem_nil p) hne
  | append_singleton calls call ih =>
    have hc := session_inv o calls
    have hearlier : (session o calls).catalog.placeholders.get? name = some p →
        (session o (calls ++ [call])).catalog.next p = (session o calls).catalog.next p →
        ∃ before, before ++ [.settle] <+: calls ++ [call] ∧ (session o before).catalog.placeholders.get? name = some p ∧
          (session o before).catalog.lookupWritten name = some ((session o (calls ++ [call])).catalog.next p) := by
      intro hp' hnext
      rw [hnext] at hne ⊢
      obtain ⟨before, hbefore, hrest⟩ := ih hp' hne
      exact ⟨before, hbefore.trans (List.prefix_append _ _), hrest⟩
    rcases call.within_or_settle with hwithin | rfl
    · have hkeeps := (call.grows (fun _ _ => trivial) (session o calls) hwithin).keeps
        (P := fun c => c.Inv ∧ c.next p = (session o calls).catalog.next p ∧
          (c.next p ≠ p → c.placeholders.get? name = some p → (session o calls).catalog.placeholders.get? name = some p))
        ?_ ⟨hc, rfl, fun _ h => h⟩
      · rw [session_concat] at hp hne hearlier ⊢
        exact hearlier (hkeeps.2.2 hne hp) hkeeps.2.1
      · rintro c x - ⟨hinv, hnext, hold⟩
        refine ⟨hinv.change x, (hinv.next_change x p).trans hnext, fun hne' hp' => ?_⟩
        rw [hinv.next_change] at hne'
        exact hold hne' (hinv.placeholders_of_change x hp' hne')
    · rw [catalog_session_settle] at hp hne hearlier ⊢
      rw [hc.placeholders_settle] at hp
      rcases hc.next_settle p with hnext | ⟨-, hpair⟩
      · exact hearlier hp hnext
      · exact ⟨calls, List.prefix_rfl, hp, hc.lookupWritten_of_mem_pairs hp hpair⟩

/-! ## What handles stand for -/

/-- A settlement in between redirected the placeholder of a name to the type of its last part, and the whole name is declared
afterwards. -/
def RedirectedEarly (o : Origin) (calls : List Call) : Prop :=
  ∃ before name p part, before ++ [.settle] <+: calls ∧ (session o before).catalog.placeholders.get? name = some p ∧
    (session o before).catalog.lookup name = none ∧ IsLastPart name part ∧ (session o before).catalog.lookup part ≠ none ∧
    (session o calls).catalog.lookup name ≠ none

section outcome

variable (o : Origin) {calls : List Call}

/-- A placeholder that a settlement redirected to the type of the last part stands for a type of that name ever after. -/
theorem lookup_of_redirected {before : List Call} (hbefore : before ++ [.settle] <+: calls) {name part : String} {p : TypeId}
    (hp : (session o before).catalog.placeholders.get? name = some p) (hnone : (session o before).catalog.lookup name = none)
    (hlast : IsLastPart name part) (hpart : (session o before).catalog.lookup part ≠ none) :
    (session o calls).catalog.lookup part = some ((session o calls).catalog.settle.2.canonical p) := by
  have hb := session_inv o before
  have hc := session_inv o calls
  have hmeans : (session o before).catalog.settle.2.lookup part = some ((session o before).catalog.settle.2.canonical p) := by
    rw [← hb.lookup_settle] at hnone hpart
    rw [← hb.placeholders_settle] at hp
    obtain ⟨found, hfound⟩ := Option.ne_none_iff_exists'.mp hpart
    rw [hb.settled_settle.canonical_placeholder hb.settle hp hnone, Catalog.lookupWritten_of_isLastPart _ hlast, hnone, hfound]
    rfl
  have hkeeps := session_keeps_redirects o hbefore
  have hdeclared := hb.settle.lookup_declared hmeans
  rw [← catalog_session_settle] at hdeclared
  rw [← hc.lookup_settle, hc.lookup_settle_of_declared (session_keeps_declared o hbefore hdeclared),
    (hkeeps.trans hc.keeps_settle).canonical_canonical hc.settle]

/-- A placeholder of a declared name stands for the type of that name, if no settlement in between took it for another. -/
theorem canonical_of_not_redirectedEarly (h : ¬RedirectedEarly o calls) {name : String} {p t : TypeId}
    (hp : (session o calls).catalog.placeholders.get? name = some p) (ht : (session o calls).catalog.lookup name = some t) :
    (session o calls).catalog.settle.2.canonical p = t := by
  have hc := session_inv o calls
  have hcs := catalog_session_settle o calls
  have hp' : (session o (calls ++ [.settle])).catalog.placeholders.get? name = some p := by
    rw [hcs, hc.placeholders_settle]
    exact hp
  have hne : (session o (calls ++ [.settle])).catalog.next p ≠ p := by
    rw [hcs]
    intro hnext
    have hnone := (hc.settled_settle.canonical_placeholder_iff hc.settle (hc.placeholders_settle ▸ hp)).mp
      (Catalog.canonical_of_next_eq hnext)
    rw [Catalog.lookupWritten_of_some (by rw [hc.lookup_settle]; exact ht)] at hnone
    cases hnone
  obtain ⟨before, hbefore, hpb, hmeant⟩ := session_redirected o hp' hne
  rw [hcs] at hmeant
  cases hl : (session o before).catalog.lookup name with
  | some x =>
    -- the redirect goes to a type of the whole name
    rw [Catalog.lookupWritten_of_some hl, Option.some.injEq] at hmeant
    have hdeclared : (session o calls).catalog.Declared x name := by
      have hb := (session_inv o before).lookup_declared hl
      rcases List.prefix_concat_iff.mp hbefore with heq | hpre
      · rw [(List.append_inj' heq rfl).1] at hb
        exact hb
      · exact session_keeps_declared o ((List.prefix_append _ _).trans hpre) hb
    have hlookup := hc.lookup_settle_of_declared hdeclared
    rw [hmeant, hc.settle.canonical_next, hc.lookup_settle, ht] at hlookup
    exact (Option.some.inj hlookup).symm
  | none =>
    exfalso
    obtain ⟨part, rfl | hlast, hl'⟩ := Catalog.lookup_of_lookupWritten hmeant
    · rw [hl] at hl'
      cases hl'
    rcases List.prefix_concat_iff.mp hbefore with heq | hpre
    · rw [(List.append_inj' heq rfl).1, ht] at hl
      cases hl
    · refine h ⟨before, name, p, part, hpre, hpb, hl, hlast, ?_, ?_⟩
      · rw [hl']
        exact Option.some_ne_none _
      · rw [ht]
        exact Option.some_ne_none _

/-- Settled in the end, the session and the one without its settlements are still twins. -/
theorem session_twin_settle (hbasic : ∀ call ∈ calls, call.IsBasic) :
    (session o calls).catalog.settle.2.Twin (session o (unsettled calls)).catalog.settle.2 :=
  ((session_twin o hbasic).settle (session_inv o _)).trans ((Catalog.Twin.refl _).settle (session_inv o _)).symm

/-- Without settlements in between handles stand for the same records, exactly if no placeholder was redirected early. -/
theorem canonical_eq_iff (hbasic : ∀ call ∈ calls, call.IsBasic) :
    (∀ id, (session o calls).catalog.settle.2.canonical id = (session o (unsettled calls)).catalog.settle.2.canonical id) ↔
      ¬RedirectedEarly o calls := by
  have hc := session_inv o calls
  have hq := session_inv o (unsettled calls)
  have htwin := session_twin o hbasic
  have htwin' := session_twin_settle o hbasic
  have hfirst : ∀ {name p found}, (session o calls).catalog.placeholders.get? name = some p →
      (session o calls).catalog.lookupWritten name = some found →
      (session o (unsettled calls)).catalog.settle.2.canonical p = found := by
    intro name p found hp hfound
    rw [htwin.placeholders_eq, ← hq.placeholders_settle] at hp
    rw [htwin.lookupWritten_eq] at hfound
    exact canonical_placeholder_of_lookupWritten o (settle_not_mem_unsettled calls) hp hfound
  constructor
  · rintro heq ⟨before, name, p, part, hbefore, hp, hnone, hlast, hpart, hdeclared⟩
    have hpast := lookup_of_redirected o hbefore hp hnone hlast hpart
    obtain ⟨t, ht⟩ := Option.ne_none_iff_exists'.mp hdeclared
    have hp' := session_keeps_placeholder o ((List.prefix_append _ _).trans hbefore) hp
    rw [heq, hfirst hp' (Catalog.lookupWritten_of_some ht)] at hpast
    exact hlast.ne ((hc.lookup_declared hpast).2.1.symm.trans (hc.lookup_declared ht).2.1)
  · intro h
    apply htwin'.canonical_eq hc.settle hq.settle hc.settled_settle hq.settled_settle
    intro name p t hp ht
    rw [hc.placeholders_settle] at hp
    rw [hc.lookup_settle] at ht
    rw [canonical_of_not_redirectedEarly o h hp ht, hfirst hp (Catalog.lookupWritten_of_some ht)]

/-! ## What is entered as derived -/

/-- A settlement in between entered the first type as derived from the second. -/
def Entered (calls : List Call) (t b : TypeId) : Prop :=
  ∃ before, before ++ [.settle] <+: calls ∧ (session o (before ++ [.settle])).catalog.Enters t b

/-- The types that the definition of a record came with as derived. -/
def carried (calls : List Call) (b : TypeId) : List TypeId := ((session o (unsettled calls)).catalog.record b).derived

theorem Entered.has {t b : TypeId} (h : Entered o calls t b) : (session o calls).catalog.Has b := by
  obtain ⟨before, hbefore, -, hb, -⟩ := h
  have hinv := session_inv o (before ++ [.settle])
  exact (session_keeps_declared o hbefore (hinv.lookup_declared (hinv.mem_order.mp hb))).1

theorem entered_concat (calls : List Call) (call : Call) (t b : TypeId) :
    Entered o (calls ++ [call]) t b ↔
      Entered o calls t b ∨ call = .settle ∧ (session o (calls ++ [.settle])).catalog.Enters t b := by
  constructor
  · rintro ⟨before, hbefore, henters⟩
    rcases List.prefix_concat_iff.mp hbefore with heq | hpre
    · obtain ⟨rfl, hcall⟩ := List.append_inj' heq rfl
      exact Or.inr ⟨(List.singleton_inj.mp hcall).symm, henters⟩
    · exact Or.inl ⟨before, hpre, henters⟩
  · rintro (⟨before, hbefore, henters⟩ | ⟨rfl, henters⟩)
    · exact ⟨before, hbefore.trans (List.prefix_append _ _), henters⟩
    · exact ⟨calls, List.prefix_rfl, henters⟩

/-- What was entered as derived came with the definition, or was entered by a settlement in between, once. -/
theorem session_derived (hbasic : ∀ call ∈ calls, call.IsBasic) (b : TypeId) :
    Appends (carried o calls b) ((session o calls).catalog.record b).derived ∧
      ∀ t, t ∈ ((session o calls).catalog.record b).derived ↔ t ∈ carried o calls b ∨ Entered o calls t b := by
  induction calls using List.reverseRecOn with
  | nil =>
    refine ⟨.refl _, fun t => ⟨Or.inl, ?_⟩⟩
    rintro (h | ⟨before, hbefore, -⟩)
    · exact h
    · exact absurd (List.prefix_nil.mp hbefore) (List.append_ne_nil_of_right_ne_nil _ (List.cons_ne_nil _ _))
  | append_singleton calls call ih =>
    obtain ⟨happends, hmem⟩ := ih fun x hx => hbasic x (List.mem_append_left _ hx)
    simp only [entered_concat]
    rw [carried, unsettled_concat]
    cases hsettle : call.isSettle with
    | true =>
      obtain rfl := Call.eq_settle hsettle
      have hc := session_inv o calls
      rw [if_pos rfl, catalog_session_settle]
      refine ⟨hc.appends_settle happends, fun t => ?_⟩
      rw [hc.mem_derived_settle, hmem, or_assoc]
      simp only [true_and]
      rfl
    | false =>
      have htwin := session_twin o fun x hx => hbasic x (List.mem_append_left [call] hx)
      have hjoint := Call.joint htwin (hbasic call (List.mem_append_right _ List.mem_cons_self)) hsettle
      have hne : call ≠ .settle := by
        rintro rfl
        cases hsettle
      rw [if_neg Bool.false_ne_true, session_concat, session_concat]
      simp only [hne, false_and, or_false]
      rcases htwin.record_joint hjoint b with ⟨-, hrecord, hrecord'⟩ | ⟨hnew, hrecord⟩
      · rw [hrecord, hrecord']
        exact ⟨happends, hmem⟩
      · -- no settlement has known the new record yet
        rw [hrecord]
        refine ⟨.refl _, fun t => ⟨Or.inl, ?_⟩⟩
        rintro (h | hentered)
        · exact h
        · exact absurd hentered.has hnew

/-- A declared record keeps its bases: basic calls edit nothing. -/
theorem session_bases {before : List Call} {t : TypeId} {name : String} (ht : (session o before).catalog.Declared t name)
    (after : List Call) (hbasic : ∀ call ∈ after, call.IsBasic) :
    ((session o (before ++ after)).catalog.record t).bases = ((session o before).catalog.record t).bases := by
  induction after using List.reverseRecOn with
  | nil => rw [List.append_nil]
  | append_singleton after call ih =>
    have hd := session_keeps_declared o (List.prefix_append before after) ht
    have htwin := Catalog.Twin.refl (session o (before ++ after)).catalog
    rw [← ih fun x hx => hbasic x (List.mem_append_left _ hx), ← List.append_assoc]
    cases hsettle : call.isSettle with
    | true =>
      obtain rfl := Call.eq_settle hsettle
      rw [catalog_session_settle]
      exact (htwin.settle (session_inv o _)).bases_eq t
    | false =>
      have hjoint := Call.joint htwin (hbasic call (List.mem_append_right _ List.mem_cons_self)) hsettle
      rw [session_concat]
      rcases htwin.record_joint hjoint t with ⟨-, hrecord, -⟩ | ⟨hnew, -⟩
      · rw [hrecord]
      · exact absurd hd.1 hnew

/-- A type that was entered still derives from a base that is still declared. -/
theorem Entered.derives (hbasic : ∀ call ∈ calls, call.IsBasic) {t b : TypeId} (h : Entered o calls t b)
    (hb : b ∈ (session o calls).catalog.order) : (session o calls).catalog.settle.2.Derives t b := by
  have hc := session_inv o calls
  obtain ⟨before, ⟨after, rfl⟩, ht, -, hne, base, hbase, hcanonical⟩ := h
  have hs := session_inv o (before ++ [.settle])
  refine ⟨hne, base, ?_, ?_⟩
  · rw [((Catalog.Twin.refl _).settle hc).bases_eq, session_bases o (hs.lookup_declared (hs.mem_order.mp ht)) after]
    · exact hbase
    · exact fun x hx => hbasic x (List.mem_append_right _ hx)
  · have hkeeps := session_keeps_redirects o (List.prefix_append (before ++ [.settle]) after)
    apply (hkeeps.trans hc.keeps_settle).canonical_eq hc.settle hcanonical
    rw [hc.mem_order, ← hc.lookup_settle] at hb
    exact hc.settle.next_of_lookup hb

/-- A settlement in between entered a type as derived from another, and it is declared again afterwards, while the other is
not. -/
def EnteredEarly (calls : List Call) : Prop :=
  ∃ t b, Entered o calls t b ∧ t ∉ carried o calls b ∧ b ∈ (session o calls).catalog.order ∧
    t ∉ (session o calls).catalog.order

/-- Where handles stand for the same records, the same types are entered with a declared one, exactly if all that were entered in
between are still declared. -/
theorem derived_perm_iff (hbasic : ∀ call ∈ calls, call.IsBasic)
    (hcanonical : ∀ id, (session o calls).catalog.settle.2.canonical id =
      (session o (unsettled calls)).catalog.settle.2.canonical id) {b : TypeId} (hb : b ∈ (session o calls).catalog.order) :
    (((session o calls).catalog.settle.2.record b).derived.map (session o calls).catalog.settle.2.canonical).Perm
        (((session o (unsettled calls)).catalog.settle.2.record b).derived.map
          (session o (unsettled calls)).catalog.settle.2.canonical) ↔
      ∀ t, Entered o calls t b → t ∉ carried o calls b → t ∈ (session o calls).catalog.order := by
  have hc := session_inv o calls
  have hq := session_inv o (unsettled calls)
  have htwin := session_twin_settle o hbasic
  obtain ⟨happends, hmem⟩ := session_derived o hbasic b
  have henters : ∀ t, (session o calls).catalog.settle.2.Enters t b ↔
      (session o (unsettled calls)).catalog.settle.2.Enters t b := by
    intro t
    rw [Catalog.Enters, Catalog.Enters, htwin.order_eq, htwin.derives_iff hcanonical]
  have hsub : ∀ t ∈ ((session o (unsettled calls)).catalog.settle.2.record b).derived,
      t ∈ ((session o calls).catalog.settle.2.record b).derived := by
    intro t ht
    rw [hq.mem_derived_settle, ← henters] at ht
    rw [hc.mem_derived_settle, hmem, or_assoc]
    exact ht.imp id Or.inr
  rw [← funext hcanonical, Appends.perm_map_iff (hc.appends_settle happends) (hq.appends_settle (.refl _)) hsub]
  constructor
  · intro hall t hentered hnew
    have ht := hall t ((hc.mem_derived_settle t b).mpr (Or.inl ((hmem t).mpr (Or.inr hentered))))
    rcases (hq.mem_derived_settle t b).mp ht with hcarried | henter
    · exact absurd hcarried hnew
    · rw [← hc.order_settle]
      exact ((henters t).mpr henter).1
  · intro hall t ht
    rw [hq.mem_derived_settle, ← henters]
    rw [hc.mem_derived_settle, hmem] at ht
    by_cases hcarried : t ∈ carried o calls b
    · exact Or.inl hcarried
    · refine Or.inr ?_
      rcases ht with (h | hentered) | henter
      · exact absurd h hcarried
      · rw [Catalog.Enters, hc.order_settle]
        exact ⟨hall t hentered hcarried, hb, hentered.derives o hbasic hb⟩
      · exact henter

/-! ## The outcome -/

/-- Two settlements come to the same: handles stand for the same records, the same names are external, and the same types are
declared, with the same derived types as often. -/
structure SameOutcome (x y : Resolution × Recorder) : Prop where
  canonical_eq : ∀ id, x.2.catalog.canonical id = y.2.catalog.canonical id
  unresolved_eq : x.1.unresolved = y.1.unresolved
  order_eq : x.2.catalog.order = y.2.catalog.order
  derived_perm : ∀ b ∈ x.2.catalog.order,
    ((x.2.catalog.record b).derived.map x.2.catalog.canonical).Perm
      ((y.2.catalog.record b).derived.map y.2.catalog.canonical)

/-- Settled once, a type has each of its derived types once, unless its definition came with some. -/
theorem nodup_derived_of_carried_eq_nil {b : TypeId} (h : carried o calls b = []) :
    (((session o (unsettled calls)).catalog.settle.2.record b).derived.map
      (session o (unsettled calls)).catalog.settle.2.canonical).Nodup := by
  have hq := session_inv o (unsettled calls)
  obtain ⟨new, hnew, hnodup, -⟩ := hq.appends_settle (Appends.refl (carried o calls b))
  rw [h, List.nil_append] at hnew
  have hself : ∀ t ∈ new, (session o (unsettled calls)).catalog.settle.2.canonical t = t := by
    intro t ht
    rw [← hnew, hq.mem_derived_settle] at ht
    rcases ht with hcarried | ⟨horder, -⟩
    · rw [carried] at h
      rw [h] at hcarried
      cases hcarried
    · exact Catalog.canonical_of_next_eq (hq.settle.next_of_lookup (hq.settle.mem_order.mp horder))
  rw [hnew, List.map_congr_left hself, List.map_id']
  exact hnodup

end outcome

/-- The settlements in between change nothing of what the last one comes to, exactly if none of them redirected a placeholder to the
type of a last part although the whole name is declared afterwards, and none entered a type as derived that is declared again
afterwards while its base is not. Without them, a type has each of its derived types once. -/
theorem interim_settlement_iff (o : Origin) {calls : List Call} (hbasic : ∀ call ∈ calls, call.IsBasic) :
    (SameOutcome (session o calls).settle (session o (unsettled calls)).settle ↔
      ¬RedirectedEarly o calls ∧ ¬EnteredEarly o calls) ∧
    ∀ b, carried o calls b = [] →
      (((session o (unsettled calls)).settle.2.catalog.record b).derived.map
        (session o (unsettled calls)).settle.2.catalog.canonical).Nodup := by
  have htwin := session_twin_settle o hbasic
  have horder := (session_inv o calls).order_settle
  refine ⟨⟨?_, ?_⟩, ?_⟩
  · intro hsame
    have hcanonical := hsame.canonical_eq
    have hperm := hsame.derived_perm
    simp only [Recorder.catalog_settle] at hcanonical hperm
    refine ⟨(canonical_eq_iff o hbasic).mp hcanonical, ?_⟩
    rintro ⟨t, b, hentered, hnew, hb, ht⟩
    exact ht ((derived_perm_iff o hbasic hcanonical hb).mp (hperm b (horder ▸ hb)) t hentered hnew)
  · rintro ⟨hredirected, hearly⟩
    have hcanonical := (canonical_eq_iff o hbasic).mpr hredirected
    refine ⟨?_, ?_, ?_, ?_⟩
    · simp only [Recorder.catalog_settle]
      exact hcanonical
    · exact htwin.unresolvedNames_eq hcanonical
    · simp only [Recorder.catalog_settle]
      exact htwin.order_eq
    · simp only [Recorder.catalog_settle, horder]
      intro b hb
      apply (derived_perm_iff o hbasic hcanonical hb).mpr
      intro t hentered hnew
      by_contra ht
      exact hearly ⟨t, b, hentered, hnew, hb, ht⟩
  · intro b hcarried
    simp only [Recorder.catalog_settle]
    exact nodup_derived_of_carried_eq_nil o hcarried

/-- A run whose settlement in between redirects a placeholder and enters a derived type, and changes nothing of the outcome. -/
theorem interim_settlement_iff_at_harmless :
    let calls : List Call := [.placeholder "P", .register { name := "C", bases := [⟨0⟩] }, .register { name := "P" }, .settle,
      .register { name := "D", bases := [⟨0⟩] }, .reference "E"]
    (∀ call ∈ calls, call.IsBasic) ∧ (session .empty calls).catalog.next ⟨0⟩ = ⟨2⟩ ∧
      SameOutcome (session .empty calls).settle (session .empty (unsettled calls)).settle := by
  intro calls
  have hbasic : ∀ call ∈ calls, call.IsBasic := by simp [calls, Call.IsBasic]
  have hbefore : ∀ {before}, before ++ [.settle] <+: calls → before = calls.take 3 := by
    rintro before ⟨after, h⟩
    simp [calls, List.append_assoc, List.append_eq_cons_iff, List.cons_eq_append_iff] at h
    exact h.1
  refine ⟨hbasic, by decide +kernel, ((interim_settlement_iff .empty hbasic).1).mpr ⟨?_, ?_⟩⟩
  · rintro ⟨before, name, p, part, hpre, hp, hnone, -⟩
    have htable : (session .empty (calls.take 3)).catalog.placeholders = [("P", ⟨0⟩)] := by decide +kernel
    have hdeclared : (session .empty (calls.take 3)).catalog.lookup "P" ≠ none := by decide +kernel
    rw [hbefore hpre] at hp hnone
    rw [htable] at hp
    by_cases hname : name = "P"
    · exact hdeclared (hname ▸ hnone)
    · rw [Table.get?, List.lookup_cons, beq_false_of_ne hname] at hp
      cases hp
  · rintro ⟨t, b, ⟨before, hpre, ht, -⟩, -, -, hnot⟩
    rw [hbefore hpre] at ht
    have horder : ∀ t ∈ (session .empty (calls.take 4)).catalog.order, t ∈ (session .empty calls).catalog.order := by
      decide +kernel
    exact hnot (horder t ht)

/-- Two runs whose settlement in between makes a difference. In the first `a::B` comes to mean the type `B` for the handle that stands
for it from before, although `a::B` is declared later. In the second the type `C` is entered with its base both times it is
declared. -/
theorem interim_settlement_changes_outcome :
    let redirected : List Call := [.placeholder "a::B", .register { name := "B" }, .settle, .register { name := "a::B" }]
    let entered : List Call := [.register { name := "P" }, .register { name := "C", bases := [⟨0⟩] }, .settle,
      .register { name := "C", bases := [⟨0⟩] }]
    ¬SameOutcome (session .empty redirected).settle (session .empty (unsettled redirected)).settle ∧
      ¬SameOutcome (session .empty entered).settle (session .empty (unsettled entered)).settle := by
  intro redirected entered
  constructor
  · intro h
    exact absurd (h.canonical_eq ⟨0⟩) (by decide +kernel)
  · intro h
    exact absurd (h.derived_perm ⟨0⟩ (by decide +kernel)).length_eq (by decide +kernel)

end HeaderAtlas
