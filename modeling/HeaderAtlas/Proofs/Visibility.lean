import HeaderAtlas.Proofs.Declaration.Piece
import HeaderAtlas.Proofs.Made

/-!
# Members that are not public

A session that is not told to read all members holds public ones only (`Catalog.Public`). In the body of a type the access of a member
is what the last access label in front of it says, or else what the kind of the type does (`Reader.BodyRun.access`); and a member that
is not public is passed over, with nothing recorded (`Reader.catalog_bodyTurn`).
-/

namespace HeaderAtlas

/-! ## What is recorded -/

theorem Shown.publicAccess {options : ScanOptions} {v : Visibility} (h : Shown options v) (hoptions : options.includePrivate = false) :
    v = .publicAccess :=
  h.resolve_right (Bool.eq_false_iff.mp hoptions)

namespace Catalog

/-- All members, functions and globals are public. -/
structure Public (c : Catalog) : Prop where
  property : ∀ t, ∀ p ∈ (c.record t).properties, p.modifiers.visibility = .publicAccess
  method : ∀ t, ∀ m ∈ (c.record t).methods, m.modifiers.visibility = .publicAccess
  function : ∀ m ∈ c.functions, m.modifiers.visibility = .publicAccess
  global : ∀ p ∈ c.globals, p.modifiers.visibility = .publicAccess

theorem Public.empty : Catalog.empty.Public where
  property _ _ hp := absurd hp List.not_mem_nil
  method _ _ hm := absurd hm List.not_mem_nil
  function _ hm := absurd hm List.not_mem_nil
  global _ hp := absurd hp List.not_mem_nil

/-- A step adds what the options let in. -/
theorem Public.step {options : ScanOptions} {c c' : Catalog} (h : c.Public) (hoptions : options.includePrivate = false)
    (hstep : ReadStep options c c') : c'.Public where
  property t p hp := ((hstep.record t).property_mem p hp).elim (h.property t p) (·.publicAccess hoptions)
  method t m hm := ((hstep.record t).method_mem m hm).elim (h.method t m) (·.2.2.1.publicAccess hoptions)
  function m hm := (hstep.function_mem m hm).elim (h.function m) (·.2.1.publicAccess hoptions)
  global p hp := (hstep.global_mem p hp).elim (h.global p) (·.publicAccess hoptions)

/-- What has the same members, functions and globals is public as well. -/
theorem Public.congr {c c' : Catalog} (h : c.Public)
    (hsame : ∀ t, (c'.record t).properties = (c.record t).properties ∧ (c'.record t).methods = (c.record t).methods)
    (hfunctions : c'.functions = c.functions) (hglobals : c'.globals = c.globals) : c'.Public where
  property t := (hsame t).1 ▸ h.property t
  method t := (hsame t).2 ▸ h.method t
  function := hfunctions ▸ h.function
  global := hglobals ▸ h.global

theorem Made.public {c : Catalog} (h : c.Made fun options => options.includePrivate = false) : c.Public := by
  induction h with
  | empty => exact .empty
  | step _ hoptions hstep ih => exact ih.step hoptions hstep
  | nest _ hnest ih =>
    refine ih.congr (fun t => ?_) rfl rfl
    obtain ⟨_, _, hrecord⟩ := hnest.keeps_nest t
    rw [hrecord]
    exact ⟨rfl, rfl⟩
  | same _ hsame ih =>
    refine ih.congr (fun t => ?_) hsame.functions_eq hsame.globals_eq
    obtain ⟨_, _, hrecord⟩ := hsame.record t
    rw [hrecord]
    exact ⟨rfl, rfl⟩

end Catalog

/-! ## What is passed over -/

namespace Reader

/-- The access that an item of a body sets for what follows it. -/
def BodyItem.access? : BodyItem → Option Visibility
  | access visibility => some visibility
  | _ => none

/-- The access behind items of a body: that of the last label among them, or else the one at the start. -/
def accessBehind (start : Visibility) (items : List BodyItem) : Visibility := (items.filterMap BodyItem.access?).getLast?.getD start

theorem accessBehind_concat (start : Visibility) (items : List BodyItem) (item : BodyItem) :
    accessBehind start (items ++ [item]) = item.access?.getD (accessBehind start items) := by
  rw [accessBehind, List.filterMap_append, List.getLast?_append]
  cases h : item.access? with
  | none => simp [h, accessBehind]
  | some visibility => simp [h]

variable {options : ScanOptions} {r r' : Reader} {id owner : TypeId} {depth : Nat} {items : List BodyItem} {visibility : Visibility}

/-- Only a label changes the access. -/
theorem bodyTurn_fst (options : ScanOptions) (owner : TypeId) (depth : Nat) (visibility : Visibility) (r : Reader) :
    (bodyTurn options owner depth visibility r).1 = (bodyItem r.cursor).access?.getD visibility := by
  unfold bodyTurn
  cases bodyItem r.cursor with
  | type =>
    dsimp only
    split <;> rfl
  | _ => rfl

/-- Where members that are not public are passed over, a turn records nothing but types and described properties. -/
theorem catalog_bodyTurn (hvisibility : visibility ≠ .publicAccess) (hoptions : options.includePrivate = false)
    (htype : bodyItem r.cursor ≠ .type) (hdescribed : bodyItem r.cursor ≠ .describedProperty) :
    (bodyTurn options owner depth visibility r).2.catalog = r.catalog := by
  unfold bodyTurn
  cases hitem : bodyItem r.cursor with
  | type => exact absurd hitem htype
  | describedProperty => exact absurd hitem hdescribed
  | member =>
    have hhidden : ¬(visibility = .publicAccess ∨ options.includePrivate = true) := by
      rw [hoptions]
      exact fun h => h.elim hvisibility Bool.false_ne_true
    dsimp only
    rw [takeVisible, if_neg hhidden]
    rfl
  | _ => rfl

/-- The access at the start of the body of the struct or class in front. -/
def bodyAccess (r : Reader) : Visibility := if r.cursor.seesWord "class" then .privateAccess else .publicAccess

/-- In reading the struct or class in front, behind some items of its body: the access of what follows, and the reader there. -/
inductive BodyRun (options : ScanOptions) (depth : Nat) (r : Reader) (id : TypeId) :
    List BodyItem → Visibility → Reader → Prop where
  | head (hword : r.cursor.seesWordOf ["struct", "class"] = true)
    (hhead : (takeTypeHeader options (r.cursor.seesWord "class") r).1 = .follows id) :
    BodyRun options depth r id [] r.bodyAccess (takeTypeHeader options (r.cursor.seesWord "class") r).2
  | turn {items : List BodyItem} {visibility : Visibility} {r' : Reader} :
    BodyRun options depth r id items visibility r' → r'.cursor.atEnd = false → bodyItem r'.cursor ≠ .close →
      BodyRun options depth r id (items ++ [bodyItem r'.cursor]) (bodyTurn options id (depth + 1) visibility r').1
        (bodyTurn options id (depth + 1) visibility r').2

/-- The access of what follows is that of the last label, or else the one that the kind of the type gives. -/
theorem BodyRun.access (h : BodyRun options depth r id items visibility r') : visibility = accessBehind r.bodyAccess items := by
  induction h with
  | head => rfl
  | turn _ _ _ ih => rw [bodyTurn_fst, accessBehind_concat, ← ih]

/-- The rest of the body is read from where reading has come. -/
theorem BodyRun.takeReflected_eq (h : BodyRun options depth r id items visibility r') (traits : Traits) :
    takeReflected options depth traits r =
      (some id, ((takeBody options id (depth + 1) visibility r').pass ';').addTraits id traits) := by
  induction h with
  | head hword hhead =>
    rw [Reader.takeReflected_eq, if_pos hword]
    dsimp only
    rw [hhead]
    rfl
  | turn _ hend hclose ih =>
    rw [ih, takeBody_turn hend (Bool.eq_false_iff.mpr fun hsees => hclose ((bodyItem_close_iff _).mpr hsees))]

end Reader

open Reader (BodyItem BodyRun accessBehind bodyItem bodyTurn takeBody takeReflected)

/-- In a session that reads public members only, all members, functions and globals are public. And wherever reading has come in the
body of a type, however deep that is nested, a member that the labels in front make private or protected is passed over: the catalog
stays as it is, and the rest of the body is read from behind the member. -/
theorem private_members_left_out (o : Origin) (calls : List Call) (h : ∀ call ∈ calls, call.BringsNone)
    (hscan : ∀ options source, Call.scan options source ∈ calls → options.includePrivate = false) :
    (session o calls).catalog.Public ∧
      ∀ {options : ScanOptions} {depth : Nat} {r r' : Reader} {id : TypeId} {items : List BodyItem} {visibility : Visibility},
        options.includePrivate = false → BodyRun options depth r id items visibility r' →
        accessBehind r.bodyAccess items ≠ .publicAccess → r'.cursor.atEnd = false →
        bodyItem r'.cursor ∉ [.close, .type, .describedProperty] →
        let turn := bodyTurn options id (depth + 1) visibility r'
        turn.2.catalog = r'.catalog ∧ ∀ traits : Traits, takeReflected options depth traits r =
          (some id, ((takeBody options id (depth + 1) turn.1 turn.2).pass ';').addTraits id traits) := by
  refine ⟨(session_made (φ := fun options => options.includePrivate = false) rfl o calls h hscan).public, ?_⟩
  intro options depth r r' id items visibility hoptions hbody haccess hend hitem
  simp only [List.mem_cons, List.not_mem_nil, or_false, not_or] at hitem
  obtain ⟨hclose, htype, hdescribed⟩ := hitem
  -- the access that the turn goes by is the one that the labels say
  refine ⟨Reader.catalog_bodyTurn ?_ hoptions htype hdescribed, (hbody.turn hend hclose).takeReflected_eq⟩
  rw [hbody.access]
  exact haccess

/-- A class with a member that its kind makes private, and a type nested in it with a public member and one that a label makes
protected; and the place in front of a protected member, behind its label. -/
theorem private_members_left_out_of_nested :
    let calls : List Call := [.scan {} "REFLECTED() class A { PROPERTY() A a; REFLECTED() struct B { PROPERTY() A b;
      protected: PROPERTY() A c; }; };"]
    let c := (session .empty calls).catalog
    let r : Reader := { catalog := .empty, cursor := .ofText "struct B { protected: PROPERTY() B c; };" }
    ((∀ call ∈ calls, call.BringsNone) ∧ ∀ options source, Call.scan options source ∈ calls → options.includePrivate = false) ∧
      (c.records.map fun d => (d.name, d.properties.map Property.name)) = [("A", []), ("B", ["b"])] ∧ c.Public ∧
      ∃ visibility r', BodyRun {} 0 r ⟨0⟩ [.access .protectedAccess] visibility r' ∧ bodyItem r'.cursor = .member ∧
        (bodyTurn {} ⟨0⟩ 1 visibility r').2.catalog = r'.catalog := by
  intro calls c r
  have hcalls : (∀ call ∈ calls, call.BringsNone) ∧
      ∀ options source, Call.scan options source ∈ calls → options.includePrivate = false := by
    simp +contextual [calls, Call.BringsNone]
  have hread : (c.records.map fun d => (d.name, d.properties.map Property.name)) = [("A", []), ("B", ["b"])] := by decide +kernel
  obtain ⟨hpublic, hleft⟩ := private_members_left_out .empty calls hcalls.1 hcalls.2
  have hplaces : let head := Reader.takeTypeHeader {} (r.cursor.seesWord "class") r
      let label := bodyTurn {} ⟨0⟩ 1 r.bodyAccess head.2
      (r.cursor.seesWordOf ["struct", "class"] = true ∧ head.1 = .follows ⟨0⟩) ∧
        (head.2.cursor.atEnd = false ∧ bodyItem head.2.cursor = .access .protectedAccess) ∧
        label.2.cursor.atEnd = false ∧ bodyItem label.2.cursor = .member := by decide +kernel
  obtain ⟨⟨hword, hhead⟩, ⟨hend, hlabel⟩, hend', hmember⟩ := hplaces
  have hstart : BodyRun {} 0 r ⟨0⟩ [] r.bodyAccess _ := .head hword hhead
  have hbody := hstart.turn hend (by simp [hlabel])
  rw [hlabel, List.nil_append] at hbody
  refine ⟨hcalls, hread, hpublic, _, _, hbody, hmember, ?_⟩
  exact (hleft rfl hbody (by decide) hend' (by simp [hmember])).1

end HeaderAtlas
