import HeaderAtlas.Proofs.Catalog.Twin
import HeaderAtlas.Proofs.Enum.Grammar
import HeaderAtlas.Proofs.Session

/-!
# Reading only adds to a catalog

What a catalog holds when a header is read into it, it holds unchanged afterwards: records, redirects, the entries of its tables,
and its lists, which only get longer. A name may come to mean another record, but only one that was made meanwhile (`OnlyAdds`).
The edits made while reading go where redirects lead, so this rests on two facts: they are addressed to records that reading made
(`scan_adds`), and those records are not redirected.
-/

namespace HeaderAtlas

namespace Catalog

/-- The second catalog has all that the first has, in its place and unchanged. -/
structure OnlyAdds (c c' : Catalog) : Prop where
  records : c.records <+: c'.records
  redirect : c.redirect <+: c'.redirect
  length_redirect : c'.redirect.length = c'.records.length
  /-- The new records stand for themselves. -/
  redirect_new : ∀ i, c.records.length ≤ i → i < c'.records.length → c'.redirect[i]? = some ⟨i⟩
  placeholders : ∀ {name id}, c.placeholders.get? name = some id → c'.placeholders.get? name = some id
  literals : ∀ {name value}, c.literals.get? name = some value → c'.literals.get? name = some value
  functions : c.functions <+: c'.functions
  globals : c.globals <+: c'.globals
  superseded : c.superseded <+: c'.superseded
  /-- A name means what it meant, or one of the new records. -/
  lookup : ∀ name, c'.lookup name = c.lookup name ∨
    ∃ id, c'.lookup name = some id ∧ c.records.length ≤ id.index ∧ id.index < c'.records.length

namespace OnlyAdds

variable {c c' : Catalog}

theorem refl (h : c.redirect.length = c.records.length) : c.OnlyAdds c where
  records := List.prefix_rfl
  redirect := List.prefix_rfl
  length_redirect := h
  redirect_new _ hi hi' := absurd hi' (Nat.not_lt.mpr hi)
  placeholders h := h
  literals h := h
  functions := List.prefix_rfl
  globals := List.prefix_rfl
  superseded := List.prefix_rfl
  lookup _ := Or.inl rfl

/-- A handle that the first catalog did not give out stands for itself in the second. -/
theorem next_of_le (h : c.OnlyAdds c') {id : TypeId} (hid : c.records.length ≤ id.index) : c'.next id = id := by
  rw [next]
  by_cases hlt : id.index < c'.records.length
  · rw [h.redirect_new id.index hid hlt, Option.getD_some]
  · rw [List.getElem?_eq_none (by rw [h.length_redirect]; omega), Option.getD_none]

theorem canonical_of_le (h : c.OnlyAdds c') {id : TypeId} (hid : c.records.length ≤ id.index) : c'.canonical id = id := by
  rw [canonical]
  cases c'.redirect.length with
  | zero => rfl
  | succ n => rw [follow, if_pos (h.next_of_le hid)]

/-- Of two lists with one more entry each, the new records and their redirects, what is to be known of the redirects. -/
theorem redirect_concat (h : c.OnlyAdds c') (i : Nat) (hi : c.records.length ≤ i) (hi' : i < c'.records.length + 1) :
    (c'.redirect ++ [⟨c'.records.length⟩])[i]? = some ⟨i⟩ := by
  rw [← h.length_redirect] at hi' ⊢
  by_cases hlt : i < c'.redirect.length
  · rw [List.getElem?_append_left hlt]
    exact h.redirect_new i hi (h.length_redirect ▸ hlt)
  · obtain rfl : i = c'.redirect.length := by omega
    rw [List.getElem?_concat_length]

/-! ## One change -/

theorem register (h : c.OnlyAdds c') (d : TypeDef) : c.OnlyAdds (c'.register d).2 where
  records := records_register c' d ▸ h.records.trans (List.prefix_append ..)
  redirect := redirect_register c' d ▸ h.redirect.trans (List.prefix_append ..)
  length_redirect := by
    rw [redirect_register, records_register, List.length_append, List.length_append, h.length_redirect]
    rfl
  redirect_new i hi hi' := by
    rw [records_register, List.length_append] at hi'
    rw [redirect_register]
    exact h.redirect_concat i hi hi'
  placeholders hp := by
    rw [placeholders_register]
    exact h.placeholders hp
  literals hv := by
    rw [literals_register, get?_defineLiterals, h.literals hv, Option.some_or]
  functions := by
    rw [functions_register]
    exact h.functions
  globals := by
    rw [globals_register]
    exact h.globals
  superseded := superseded_register c' d ▸ h.superseded.trans (List.prefix_append ..)
  lookup name := by
    rw [lookup_register, records_register, List.length_append]
    by_cases hname : name = d.name
    · rw [if_pos hname]
      exact Or.inr ⟨_, rfl, h.records.length_le, Nat.lt_succ_self _⟩
    · rw [if_neg hname]
      rcases h.lookup name with hold | ⟨id, hid, hle, hlt⟩
      · exact Or.inl hold
      · exact Or.inr ⟨id, hid, hle, Nat.lt_succ_of_lt hlt⟩

theorem placeholder (h : c.OnlyAdds c') (name : String) : c.OnlyAdds (c'.placeholder name).2 := by
  rcases c'.placeholder_snd name with hsame | ⟨hnone, hhold⟩
  · rw [hsame]
    exact h
  · rw [hhold]
    exact {
      records := h.records.trans (List.prefix_append ..)
      redirect := h.redirect.trans (List.prefix_append ..)
      length_redirect := by
        rw [redirect_hold, records_hold, List.length_append, List.length_append, h.length_redirect]
        rfl
      redirect_new := fun i hi hi' => by
        rw [records_hold, List.length_append] at hi'
        exact h.redirect_concat i hi hi'
      placeholders := fun {other id} hp => by
        have hother := h.placeholders hp
        rw [get?_placeholders_hold, if_neg, hother]
        rintro rfl
        rw [hnone] at hother
        cases hother
      literals := h.literals
      functions := h.functions
      globals := h.globals
      superseded := h.superseded
      lookup := fun other => by
        rcases h.lookup other with hold | ⟨id, hid, hle, hlt⟩
        · exact Or.inl hold
        · refine Or.inr ⟨id, hid, hle, ?_⟩
          rw [records_hold, List.length_append]
          exact Nat.lt_succ_of_lt hlt }

/-- An edit of a new record hits that record, as it is not redirected. -/
theorem edit (h : c.OnlyAdds c') {id : TypeId} (hid : c.records.length ≤ id.index) (f : TypeDef → TypeDef) :
    c.OnlyAdds (c'.edit id f) := by
  rw [Catalog.edit, h.canonical_of_le hid]
  have hlength := length_records_setRecord c' id f
  exact {
    h with
    records := by
      rw [List.prefix_iff_getElem?]
      intro i hi
      have hne : id.index ≠ i := by omega
      simp only [setRecord, List.getElem?_modify, hne, if_false, List.prefix_iff_getElem?.mp h.records i hi]
      rfl
    length_redirect := h.length_redirect.trans hlength.symm
    redirect_new := fun i hi hi' => h.redirect_new i hi (hlength ▸ hi')
    lookup := fun name => by
      rw [hlength]
      exact h.lookup name }

/-- What one change does that spares the records of the first catalog. -/
theorem change (h : c.OnlyAdds c') {x : Change} (hx : x.Spares c.records.length) : c.OnlyAdds (x.apply c') := by
  cases x with
  | register d => exact h.register d
  | placeholder name => exact h.placeholder name
  | edit id e => exact h.edit hx e.apply
  | addFunction m => exact { h with functions := h.functions.trans (List.prefix_append ..) }
  | addGlobal p => exact { h with globals := h.globals.trans (List.prefix_append ..) }

end OnlyAdds

/-- Growth by changes that spare what is there only adds. -/
theorem Grows.onlyAdds {c c' : Catalog} (h : Grows (AddChange c.records.length) c c')
    (hc : c.redirect.length = c.records.length) : c.OnlyAdds c' := by
  induction h with
  | refl => exact .refl hc
  | change x _ hx ih => exact ih.change hx.2

end Catalog

/-- Reading the text of a header, whatever it is, changes nothing that the catalog holds: what is new in the catalog comes behind
what is there, and a name means another record only if that record is new. A catalog has one redirect for each of its records. -/
theorem scan_onlyAdds (r : Recorder) (options : ScanOptions) (source : String)
    (h : r.catalog.redirect.length = r.catalog.records.length) :
    r.catalog.OnlyAdds (r.scan options source).catalog :=
  (r.scan_adds options source).onlyAdds h

/-- A type with a placeholder for its base, read, settled and then declared again: the first record stays behind what is new. -/
theorem scan_onlyAdds_at_redeclaration :
    let before := session .empty [.scan {} "REFLECTED() struct A : B { };", .scan {} "REFLECTED() struct B { };", .settle]
    let header := "REFLECTED() struct A : B { REFLECTED() struct C { }; METHOD_CMD() A f(D d); };"
    before.catalog.redirect.length = before.catalog.records.length ∧ before.catalog.lookup "A" = some ⟨0⟩ ∧
      (before.scan {} header).catalog.lookup "A" = some ⟨3⟩ ∧ before.catalog.OnlyAdds (before.scan {} header).catalog := by
  intro before header
  have hlength : before.catalog.redirect.length = before.catalog.records.length := by decide +kernel
  exact ⟨hlength, by decide +kernel, by decide +kernel, scan_onlyAdds before {} header hlength⟩

end HeaderAtlas
