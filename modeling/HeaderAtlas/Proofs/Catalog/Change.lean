import HeaderAtlas.Catalog.Basic

/-!
# Changes of a catalog

Between two settlements a catalog changes in five ways only: a type is declared, a placeholder is made, the content of a record
is edited, a free function or a global is added. `Change` names them, and `Grows φ c c'` says that `c'` comes from `c` by changes
that all satisfy `φ`, one at a time. Before that, what each operation does to what can be read off a catalog: the records, the
redirects, the declared types, their order, the placeholders and the superseded pairs.
-/

namespace HeaderAtlas

namespace Table

variable {α : Type}

/-- Dropping the entries of one name leaves those of the others. -/
theorem get?_filter_ne (t : Table α) {name other : String} (h : other ≠ name) :
    get? (t.filter (·.1 != name)) other = t.get? other := by
  induction t with
  | nil => rfl
  | cons e t ih =>
    obtain ⟨key, a⟩ := e
    simp only [get?] at ih ⊢
    by_cases hk : key = name
    · subst hk
      rw [List.filter_cons_of_neg (by simp), ih, List.lookup_cons, beq_false_of_ne h]
    · rw [List.filter_cons_of_pos (by simp [hk]), List.lookup_cons, List.lookup_cons, ih]

/-- The entry that was set is read back, and the entries of other names are kept. -/
theorem get?_insert (t : Table α) (name other : String) (a : α) :
    (t.insert name a).get? other = if other = name then some a else t.get? other := by
  by_cases h : other = name
  · subst h
    rw [if_pos rfl]
    exact List.lookup_cons_self
  · rw [if_neg h, ← get?_filter_ne t h]
    simp only [get?, insert, List.lookup_cons, beq_false_of_ne h]

end Table

/-- Reading a list that has one more entry at its end. -/
theorem getD_concat {α : Type} (l : List α) (a b : α) (i : Nat) :
    (l ++ [a])[i]?.getD b = if i = l.length then a else l[i]?.getD b := by
  by_cases h : i = l.length
  · subst h
    rw [if_pos rfl, List.getElem?_concat_length, Option.getD_some]
  · rw [if_neg h, List.getElem?_append]
    split
    · rfl
    · rename_i hlt
      rw [List.getElem?_eq_none (by simp only [List.length_singleton]; omega), List.getElem?_eq_none (by omega)]

/-- Handles with one index are one handle. -/
theorem TypeId.eq_of_index_eq {a b : TypeId} (h : a.index = b.index) : a = b := by
  cases a
  cases b
  exact congrArg TypeId.mk h

namespace Catalog

/-! ## Declaring a type -/

/-- A declared type is the last record. -/
theorem records_register (c : Catalog) (d : TypeDef) : (c.register d).2.records = c.records ++ [d] := by
  unfold register
  cases c.lookup d.name <;> rfl

/-- A declared type stands for itself. -/
theorem redirect_register (c : Catalog) (d : TypeDef) :
    (c.register d).2.redirect = c.redirect ++ [⟨c.records.length⟩] := by
  unfold register
  cases c.lookup d.name <;> rfl

/-- Declaring a type makes no placeholder. -/
theorem placeholders_register (c : Catalog) (d : TypeDef) : (c.register d).2.placeholders = c.placeholders := by
  unfold register
  cases c.lookup d.name <;> rfl

/-- Declaring a type adds no function. -/
theorem functions_register (c : Catalog) (d : TypeDef) : (c.register d).2.functions = c.functions := by
  unfold register
  cases c.lookup d.name <;> rfl

/-- Declaring a type adds no global. -/
theorem globals_register (c : Catalog) (d : TypeDef) : (c.register d).2.globals = c.globals := by
  unfold register
  cases c.lookup d.name <;> rfl

/-- The name of a declared type means it from now on. -/
theorem names_register (c : Catalog) (d : TypeDef) :
    (c.register d).2.names = c.names.insert d.name ⟨c.records.length⟩ := by
  unfold register
  cases c.lookup d.name <;> rfl

/-- The name that is declared means the new record from now on. -/
theorem lookup_register (c : Catalog) (d : TypeDef) (name : String) :
    (c.register d).2.lookup name = if name = d.name then some ⟨c.records.length⟩ else c.lookup name := by
  rw [lookup, names_register, Table.get?_insert]
  rfl

/-- A declared type comes last; the type its name meant before is left out. -/
theorem order_register (c : Catalog) (d : TypeDef) :
    (c.register d).2.order = c.order.filter (fun id => c.lookup d.name != some id) ++ [⟨c.records.length⟩] := by
  unfold register
  cases h : c.lookup d.name with
  | none =>
    have hp : c.order.filter (fun id => none != some id) = c.order := List.filter_eq_self.mpr fun _ _ => rfl
    rw [hp]
    rfl
  | some old =>
    have hp : (fun id : TypeId => some old != some id) = (· != old) := by
      funext id
      simp only [bne, Option.some_beq_some, BEq.comm]
    rw [hp]
    rfl

/-- The type that a declared name meant before is superseded. -/
theorem mem_superseded_register (c : Catalog) (d : TypeDef) (a b : TypeId) :
    (a, b) ∈ (c.register d).2.superseded ↔
      (a, b) ∈ c.superseded ∨ (c.lookup d.name = some a ∧ b = ⟨c.records.length⟩) := by
  unfold register
  cases h : c.lookup d.name with
  | none => simp [alloc]
  | some old =>
    simp only [supersede, alloc, List.mem_append, List.mem_singleton, Prod.mk.injEq, Option.some.injEq]
    rw [eq_comm (a := old)]

/-- The records of a catalog that has got one more. -/
theorem record_concat {c c' : Catalog} {d : TypeDef} (h : c'.records = c.records ++ [d]) (id : TypeId) :
    c'.record id = if id.index = c.records.length then d else c.record id := by
  rw [record, h, getD_concat]
  rfl

/-- A new record is redirected to itself, as every handle without a record is. -/
theorem next_concat {c c' : Catalog} (h : c.redirect.length = c.records.length)
    (h' : c'.redirect = c.redirect ++ [⟨c.records.length⟩]) (id : TypeId) : c'.next id = c.next id := by
  rw [next, h', getD_concat, h, next]
  split
  · rename_i hid
    rw [List.getElem?_eq_none (by omega), Option.getD_none]
    exact TypeId.eq_of_index_eq hid.symm
  · rfl

/-! ## Making a placeholder -/

/-- The catalog with a placeholder for a name that has none. -/
def hold (c : Catalog) (name : String) : Catalog :=
  { c with
    records := c.records ++ [.placeholder name]
    redirect := c.redirect ++ [⟨c.records.length⟩]
    placeholders := c.placeholders.insert name ⟨c.records.length⟩ }

/-- A placeholder that was made is used again. -/
theorem placeholder_of_some {c : Catalog} {name : String} {id : TypeId} (h : c.placeholders.get? name = some id) :
    c.placeholder name = (id, c) := by
  rw [placeholder, h]

/-- A placeholder that is new has the next record. -/
theorem placeholder_of_none {c : Catalog} {name : String} (h : c.placeholders.get? name = none) :
    c.placeholder name = (⟨c.records.length⟩, c.hold name) := by
  rw [placeholder, h]
  rfl

/-- A name that has a placeholder keeps it, and any other gets one. -/
theorem placeholder_snd (c : Catalog) (name : String) :
    (c.placeholder name).2 = c ∨ c.placeholders.get? name = none ∧ (c.placeholder name).2 = c.hold name := by
  cases h : c.placeholders.get? name with
  | some id => exact Or.inl (by rw [placeholder_of_some h])
  | none => exact Or.inr ⟨rfl, by rw [placeholder_of_none h]⟩

/-- A new placeholder is the last record. -/
theorem records_hold (c : Catalog) (name : String) : (c.hold name).records = c.records ++ [.placeholder name] := rfl

/-- A new placeholder stands for itself. -/
theorem redirect_hold (c : Catalog) (name : String) : (c.hold name).redirect = c.redirect ++ [⟨c.records.length⟩] := rfl

/-! ## Editing a record -/

/-- Setting a record changes that one only, and only if it is there. -/
theorem record_setRecord (c : Catalog) (id : TypeId) (f : TypeDef → TypeDef) (i : TypeId) :
    (c.setRecord id f).record i = if i = id ∧ i.index < c.records.length then f (c.record i) else c.record i := by
  simp only [setRecord, record, List.getElem?_modify, Option.map_eq_map]
  by_cases hi : i.index < c.records.length
  · rw [List.getElem?_eq_getElem hi, Option.map_some, Option.getD_some, Option.getD_some]
    by_cases h : i = id
    · rw [if_pos (congrArg TypeId.index h.symm), if_pos ⟨h, hi⟩]
    · rw [if_neg (fun e => h (TypeId.eq_of_index_eq e.symm)), if_neg (fun e => h e.1)]
  · rw [List.getElem?_eq_none (by omega), if_neg (fun e => hi e.2)]
    rfl

/-- Setting a record leaves the number of records. -/
theorem length_records_setRecord (c : Catalog) (id : TypeId) (f : TypeDef → TypeDef) :
    (c.setRecord id f).records.length = c.records.length := List.length_modify ..

/-- An edit that changes nothing in the record changes nothing in the catalog. -/
theorem setRecord_of_eq {c : Catalog} {id : TypeId} {f : TypeDef → TypeDef} (h : f (c.record id) = c.record id) :
    c.setRecord id f = c := by
  have hrecords : c.records.modify id.index f = c.records := by
    apply List.ext_getElem?
    intro i
    rw [List.getElem?_modify]
    split
    · rename_i hi
      subst hi
      rw [record] at h
      cases hget : c.records[id.index]? with
      | none => rfl
      | some d =>
        rw [hget, Option.getD_some] at h
        exact congrArg some h
    · exact Option.map_id_apply
  rw [setRecord, hrecords]

/-- Where redirects lead depends on the redirects alone. -/
theorem follow_congr {c c' : Catalog} (h : ∀ id, c'.next id = c.next id) (n : Nat) (id : TypeId) :
    c'.follow n id = c.follow n id := by
  induction n generalizing id with
  | zero => rfl
  | succ n ih => rw [follow, follow, h, ih]

/-- What a handle stands for is a matter of redirects. -/
theorem canonical_congr {c c' : Catalog} (h : c'.redirect = c.redirect) (id : TypeId) :
    c'.canonical id = c.canonical id := by
  have hn : ∀ i, c'.next i = c.next i := fun i => by simp only [next, h]
  rw [canonical, h, follow_congr hn, canonical]

end Catalog

/-! ## Changes -/

/-- A change of what is known of a type: its name stays, and whether it is declared. -/
structure ContentEdit where
  apply : TypeDef → TypeDef
  name_apply : ∀ d, (apply d).name = d.name
  isComplete_apply : ∀ d, (apply d).flags.isComplete = d.flags.isComplete

/-- One change of a catalog. -/
inductive Change where
  | register (d : TypeDef)
  | placeholder (name : String)
  | edit (id : TypeId) (e : ContentEdit)
  | addFunction (m : Method)
  | addGlobal (p : Property)

/-- The catalog after a change. -/
def Change.apply (c : Catalog) : Change → Catalog
  | register d => (c.register d).2
  | placeholder name => (c.placeholder name).2
  | edit id e => c.edit id e.apply
  | addFunction m => c.addFunction m
  | addGlobal p => c.addGlobal p

namespace Catalog

/-- The second catalog comes from the first by changes that satisfy `φ`, one at a time. -/
inductive Grows (φ : Change → Prop) : Catalog → Catalog → Prop where
  | refl (c : Catalog) : Grows φ c c
  | change {c c' : Catalog} (x : Change) : Grows φ c c' → φ x → Grows φ c (x.apply c')

namespace Grows

variable {φ ψ : Change → Prop} {c c' c'' : Catalog}

/-- A catalog that grows twice grows. -/
theorem trans (h : Grows φ c c') (h' : Grows φ c' c'') : Grows φ c c'' := by
  induction h' with
  | refl => exact h
  | change x _ hx ih => exact ih.change x hx

/-- A catalog grows by one change. -/
theorem single (x : Change) (hx : φ x) : Grows φ c (x.apply c) := (Grows.refl c).change x hx

/-- Changes that satisfy more satisfy less. -/
theorem mono (hφ : ∀ x, φ x → ψ x) (h : Grows φ c c') : Grows ψ c c' := by
  induction h with
  | refl => exact .refl c
  | change x _ hx ih => exact ih.change x (hφ x hx)

/-- What every change keeps, growth keeps. -/
theorem keeps {P : Catalog → Prop} (hP : ∀ c x, φ x → P c → P (x.apply c)) (h : Grows φ c c') (hc : P c) : P c' := by
  induction h with
  | refl => exact hc
  | change x _ hx ih => exact hP _ x hx ih

/-- Records are never dropped. -/
theorem length_records_le (h : Grows φ c c') : c.records.length ≤ c'.records.length := by
  induction h with
  | refl => exact Nat.le_refl _
  | @change c' x _ _ ih =>
    refine Nat.le_trans ih ?_
    cases x with
    | register d => simp [Change.apply, records_register]
    | placeholder name =>
      rcases c'.placeholder_snd name with h | ⟨-, h⟩
      · simp [Change.apply, h]
      · simp [Change.apply, h, records_hold]
    | edit id e => exact Nat.le_of_eq (length_records_setRecord ..).symm
    | addFunction m => exact Nat.le_refl _
    | addGlobal p => exact Nat.le_refl _

/-- A reference to a name makes at most its placeholder. -/
theorem reference (name : String) (hφ : φ (.placeholder name)) : Grows φ c (c.reference name).2 := by
  unfold Catalog.reference
  split
  · exact .refl c
  · exact single (.placeholder name) hφ

end Grows

end Catalog

end HeaderAtlas
