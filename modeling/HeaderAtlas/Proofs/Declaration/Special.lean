import HeaderAtlas.Proofs.Declaration.Mention

/-!
# What a method is recorded with

A method keeps its parameters, their names and their defaults in three lists, and says by its decorations whether it is a constructor
or destructor. That the lists say the same, that a constructor or destructor is named for the type it is declared in and that it gives
back nothing is `Method.Formed`. The parts of it are read in different places: the name and the type of a constructor or destructor by
the type expression (`TypeExpr.Gives`), the parameters one by one (`Parameter.Paired`), and the words behind them, which leave all
this alone. Names of records do not change (`Catalog.KeepsNames`), so what was true when a method was recorded stays true.
-/

namespace HeaderAtlas

open Catalog (Grows)

/-! ## Catalogs that keep names -/

namespace Catalog

/-- The second catalog has the records of the first under the same names. -/
def KeepsNames (c c' : Catalog) : Prop := ∀ {id}, c.Has id → c'.Has id ∧ (c'.record id).name = (c.record id).name

theorem Grows.keepsNames {φ : Change → Prop} {c c' : Catalog} (h : Grows φ c c') : c.KeepsNames c' := by
  intro id hid
  refine h.keeps (P := fun x => x.Has id ∧ (x.record id).name = (c.record id).name) ?_ ⟨hid, rfl⟩
  intro x change _ hx
  have hextends := x.extends_change change
  exact ⟨hextends.has hx.1, (hextends.name_eq hx.1).trans hx.2⟩

/-- The handle is that of a type named `void`, used as it is. -/
structure Void (c : Catalog) (type : TypeId) (args : List TemplateArg) (shape : Shape) : Prop where
  has : c.Has type
  name : (c.record type).name = "void"
  args : args = []
  shape : shape = {}

theorem Void.keepsNames {c c' : Catalog} {type : TypeId} {args : List TemplateArg} {shape : Shape} (h : c.Void type args shape)
    (hc : c.KeepsNames c') : c'.Void type args shape :=
  ⟨(hc h.has).1, (hc h.has).2.trans h.name, h.args, h.shape⟩

/-- What a name is taken for is a type of that name, declared or not. -/
theorem Inv.name_reference {c : Catalog} (hc : c.Inv) (name : String) :
    (c.reference name).2.Has (c.reference name).1 ∧ ((c.reference name).2.record (c.reference name).1).name = name := by
  unfold reference
  split
  · rename_i id hid
    exact ⟨(hc.lookup_declared hid).1, (hc.lookup_declared hid).2.1⟩
  · have hheld := (hc.change (.placeholder name)).placeholder (c.get?_placeholder name)
    exact ⟨hheld.1, hheld.2.1⟩

end Catalog

/-! ## Decorations -/

namespace Decorations

/-- It is a constructor or destructor. -/
def isSpecial (d : Decorations) : Bool := d.isConstructor || d.isDestructor

/-- What is decorated so has, if it is a constructor or destructor, the name that this is given in the body of a type. -/
structure Names (d : Decorations) (c : Catalog) (context : Option TypeId) (name : String) : Prop where
  one : ¬(d.isConstructor = true ∧ d.isDestructor = true)
  constructor : d.isConstructor = true → ∃ t, context = some t ∧ name = (c.record t).name
  destructor : d.isDestructor = true → ∃ t, context = some t ∧ name = "~" ++ (c.record t).name

variable {d d' : Decorations} {c c' : Catalog} {context : Option TypeId} {name : String}

/-- What is no constructor or destructor may have any name. -/
theorem names_of_not_special (h : d.isSpecial = false) : d.Names c context name := by
  obtain ⟨hconstructor, hdestructor⟩ := Bool.or_eq_false_iff.mp h
  exact ⟨by simp [hconstructor], by simp [hconstructor], by simp [hdestructor]⟩

/-- Only two of the decorations matter. -/
theorem Names.congr (h : d.Names c context name) (hconstructor : d'.isConstructor = d.isConstructor)
    (hdestructor : d'.isDestructor = d.isDestructor) : d'.Names c context name := by
  obtain ⟨hone, hc, hd⟩ := h
  rw [← hconstructor, ← hdestructor] at hone
  exact ⟨hone, hconstructor ▸ hc, hdestructor ▸ hd⟩

theorem Names.keepsNames (h : d.Names c context name) (hc : c.KeepsNames c') (hcontext : ∀ t, context = some t → c.Has t) :
    d.Names c' context name := by
  refine ⟨h.one, ?_, ?_⟩
  · intro hd
    obtain ⟨t, ht, hname⟩ := h.constructor hd
    exact ⟨t, ht, hname.trans (hc (hcontext t ht)).2.symm⟩
  · intro hd
    obtain ⟨t, ht, hname⟩ := h.destructor hd
    exact ⟨t, ht, hname.trans (congrArg ("~" ++ ·) (hc (hcontext t ht)).2.symm)⟩

end Decorations

/-! ## Type expressions -/

namespace Cursor

/-- The words in front of a type say neither what pointer it is nor that it is a constructor or destructor. -/
theorem takeQualifiers_keeps (m : Modifiers) (c : Cursor) :
    (takeQualifiers m c).1.shape = m.shape ∧ (takeQualifiers m c).1.decorations.isSpecial = m.decorations.isSpecial := by
  have hqualify : ∀ (m m' : Modifiers) (word : String), m.qualify? word = some m' →
      m'.shape = m.shape ∧ m'.decorations.isSpecial = m.decorations.isSpecial := by
    intro m m' word h
    unfold Modifiers.qualify? at h
    split at h <;> cases h <;> exact ⟨rfl, rfl⟩
  fun_induction takeQualifiers m c with
  | case1 => exact ⟨rfl, rfl⟩
  | case2 m c word _ m' h ih => exact ⟨ih.1.trans (hqualify m m' word h).1, ih.2.trans (hqualify m m' word h).2⟩
  | case3 => exact ⟨rfl, rfl⟩

theorem shape_takeTypeHead (c : Cursor) : c.takeTypeHead.1.modifiers.shape = {} := by
  rw [takeTypeHead]
  split <;> exact (takeQualifiers_keeps _ _).1

theorem isSpecial_takeTypeHead (c : Cursor) : c.takeTypeHead.1.modifiers.decorations.isSpecial = false := by
  rw [takeTypeHead]
  split <;> exact (takeQualifiers_keeps _ _).2

end Cursor

/-- A type expression that is read in the body of a type says, if it is a constructor or destructor of that type, how this is
called and that it gives back nothing. -/
structure TypeExpr.Gives (e : TypeExpr) (c : Catalog) (context : Option TypeId) (name : String) : Prop where
  names : e.modifiers.decorations.Names c context name
  void : e.modifiers.decorations.isSpecial = true → ∃ v, e.type = some v ∧ c.Void v e.templateArgs e.modifiers.shape

/-- What is no constructor or destructor may be called anything. -/
theorem TypeExpr.gives_of_not_special {e : TypeExpr} (h : e.modifiers.decorations.isSpecial = false) (c : Catalog)
    (context : Option TypeId) (name : String) : e.Gives c context name :=
  ⟨Decorations.names_of_not_special h, fun hspecial => absurd (h.symm.trans hspecial) Bool.false_ne_true⟩

theorem TypeExpr.Gives.keepsNames {e : TypeExpr} {c c' : Catalog} {context : Option TypeId} {name : String}
    (h : e.Gives c context name) (hc : c.KeepsNames c') (hcontext : ∀ t, context = some t → c.Has t) :
    e.Gives c' context name := by
  refine ⟨h.names.keepsNames hc hcontext, ?_⟩
  intro hspecial
  obtain ⟨v, hv, hvoid⟩ := h.void hspecial
  exact ⟨v, hv, hvoid.keepsNames hc⟩

namespace Reader

/-- The type's own name in front of a parenthesis gives a constructor or destructor of the type. -/
theorem special_gives {r : Reader} (hr : r.catalog.Inv) {context : Option TypeId} {word : String} {behind : Cursor}
    (hs : r.atSpecial context word behind = true) {head : TypeHead} (hhead : head.modifiers.decorations.isSpecial = false)
    (hshape : head.modifiers.shape = {}) :
    (r.special head word).1.Gives (r.special head word).2.catalog context (r.special head word).1.name := by
  simp only [atSpecial, Bool.and_eq_true, Option.isSome_iff_exists, beq_iff_eq] at hs
  obtain ⟨⟨⟨t, rfl⟩, hlookup⟩, -⟩ := hs
  obtain ⟨hconstructor, hdestructor⟩ := Bool.or_eq_false_iff.mp hhead
  have ht := hr.lookup_declared hlookup
  have hgrows := (adds_refer r "void").reads
  have hname : ((r.special head word).2.catalog.record t).name = word := (hgrows.keepsNames ht.1).2.trans ht.2.1
  have hvoid : (r.special head word).2.catalog.Void (r.refer "void").1 [] {} := by
    obtain ⟨hhas, hname⟩ := hr.name_reference "void"
    rw [← catalog_refer, ← refer_fst] at hhas hname
    exact ⟨hhas, hname, rfl, rfl⟩
  refine ⟨?_, fun _ => ⟨_, rfl, ?_⟩⟩
  · cases hd : head.isDestructor with
    | true =>
      simp only [special, hd, if_true]
      exact ⟨by simp [hconstructor], by simp [hconstructor], fun _ => ⟨t, rfl, congrArg ("~" ++ ·) hname.symm⟩⟩
    | false =>
      simp only [special, hd, Bool.false_eq_true, if_false]
      exact ⟨by simp [hdestructor], fun _ => ⟨t, rfl, hname.symm⟩, by simp [hdestructor]⟩
  · exact { hvoid with shape := hshape }

/-- A type expression gives a constructor or destructor only of the type in whose body it stands. -/
theorem takeType_gives {r : Reader} (hr : r.catalog.Inv) (context : Option TypeId) :
    (takeType context r).1.Gives (takeType context r).2.catalog context (takeType context r).1.name := by
  have hspecial := r.cursor.isSpecial_takeTypeHead
  cases hword : r.cursor.takeTypeHead.1.word with
  | none =>
    rw [takeType_of_none hword]
    exact TypeExpr.gives_of_not_special hspecial _ _ _
  | some word =>
    rw [takeType_of_some hword]
    dsimp only
    split
    · rename_i hs
      exact special_gives (r := r.moveTo r.cursor.takeTypeHead.2) hr hs hspecial r.cursor.shape_takeTypeHead
    · split
      · exact TypeExpr.gives_of_not_special hspecial _ _ _
      · exact TypeExpr.gives_of_not_special hspecial _ _ _

end Reader

/-! ## Parameters -/

/-- A parameter is a property of its name and with its default. -/
structure Parameter.Paired (p : Parameter) : Prop where
  name : p.property.name = p.name.getD ""
  defaultText : p.property.defaultText = p.defaultText

namespace Reader

theorem name_use (r : Reader) (e : TypeExpr) (name : String) : (r.use e name).1.name = name := by
  unfold use
  split <;> rfl

theorem paired_takeParameter {r : Reader} {p : Parameter} (h : r.takeParameter.1 = some p) : p.Paired := by
  unfold takeParameter at h
  dsimp only at h
  split at h
  · cases h
  · obtain rfl := Option.some.inj h
    refine ⟨?_, rfl⟩
    dsimp only
    split
    · exact name_use _ _ _
    · exact name_use _ _ _

/-- Every parameter of a list is, however the list is written. -/
theorem paired_takeParameters (r : Reader) : ∀ p ∈ (takeParameters r).1, p.Paired := by
  fun_induction takeParameters r with
  | case1 => exact fun p hp => absurd hp List.not_mem_nil
  | case2 => exact fun p hp => absurd hp List.not_mem_nil
  | case3 => exact fun p hp => absurd hp List.not_mem_nil
  | case4 _ _ _ _ _ ih => exact ih
  | case5 r _ _ _ _ _ _ ih =>
    intro p hp
    rcases List.mem_append.mp hp with hfirst | hother
    · exact paired_takeParameter (Option.mem_toList.mp hfirst)
    · exact ih p hother

end Reader

/-! ## Methods -/

/-- The lists of the parameters of a method say the same, and a constructor or destructor is named for the type it is declared in
and gives back nothing. -/
structure Method.Formed (m : Method) (c : Catalog) : Prop where
  paramNames : m.params.map Property.name = m.paramNames.map (·.getD "")
  defaults : m.params.map Property.defaultText = m.defaults
  names : m.modifiers.decorations.Names c m.declaring m.name
  void : m.modifiers.decorations.isSpecial = true →
    c.Void m.returnValue.type m.returnValue.templateArgs m.returnValue.modifiers.shape

theorem Method.Formed.keepsNames {m : Method} {c c' : Catalog} (h : m.Formed c) (hc : c.KeepsNames c')
    (hdeclaring : ∀ t, m.declaring = some t → c.Has t) : m.Formed c' where
  paramNames := h.paramNames
  defaults := h.defaults
  names := h.names.keepsNames hc hdeclaring
  void hspecial := (h.void hspecial).keepsNames hc

/-- The words behind the parameters of a method do not say who may see it, nor that it is a constructor or destructor. -/
theorem Cursor.takeSpecifiers_keeps (m : Modifiers) (c : Cursor) :
    (c.takeSpecifiers m).1.visibility = m.visibility ∧
      (c.takeSpecifiers m).1.decorations.isConstructor = m.decorations.isConstructor ∧
        (c.takeSpecifiers m).1.decorations.isDestructor = m.decorations.isDestructor := by
  fun_induction Cursor.takeSpecifiers m c with
  | case1 => exact ⟨rfl, rfl, rfl⟩
  | case2 _ _ _ _ ih => exact ih
  | case3 _ _ _ _ _ ih => exact ih
  | case4 _ _ _ _ _ _ ih => exact ih
  | case5 _ _ _ _ _ _ _ ih => exact ih
  | case6 _ _ _ _ _ _ _ _ ih => exact ih
  | case7 _ _ _ _ _ _ _ _ _ _ ih => exact ih
  | case8 => exact ⟨rfl, rfl, rfl⟩
  | case9 _ _ _ _ _ _ _ _ _ _ _ ih => exact ih
  | case10 => exact ⟨rfl, rfl, rfl⟩
  | case11 => exact ⟨rfl, rfl, rfl⟩

namespace Reader

/-- The method that is recorded: its head, what it gives back, its parameters, and what is said behind them. -/
def recordedMethod (scope : Scope) (head : MemberHead) (result : Property) (params : List Parameter) (modifiers : Modifiers) :
    Method :=
  { name := head.name
    declaring := scope.enclosing
    returnValue := { result with modifiers := returnModifiers result.modifiers }
    params := params.map Parameter.property
    paramNames := params.map Parameter.name
    defaults := params.map Parameter.defaultText
    modifiers
    traits := head.traits
    apiWord := head.apiWord
    callingConvention := head.convention }

/-- A method is recorded as its head, its parameters and the words behind them say. -/
theorem formed_recordedMethod {r : Reader} {c : Catalog} {scope : Scope} {head : MemberHead}
    (hgives : head.type.Gives c scope.enclosing head.name) {params : List Parameter} (hparams : ∀ p ∈ params, p.Paired)
    (behind : Cursor) :
    (recordedMethod scope head (r.use head.type "").1 params
      (behind.takeSpecifiers (methodModifiers scope head.type.modifiers)).1).Formed c := by
  obtain ⟨-, hconstructor, hdestructor⟩ := behind.takeSpecifiers_keeps (methodModifiers scope head.type.modifiers)
  refine ⟨?_, ?_, hgives.names.congr hconstructor hdestructor, ?_⟩
  · simp only [recordedMethod, List.map_map]
    exact List.map_congr_left fun p hp => (hparams p hp).name
  · simp only [recordedMethod, List.map_map]
    exact List.map_congr_left fun p hp => (hparams p hp).defaultText
  · intro hspecial
    simp only [recordedMethod, Decorations.isSpecial, hconstructor, hdestructor] at hspecial
    obtain ⟨v, htype, hvoid⟩ := hgives.void hspecial
    simp only [recordedMethod, use, htype]
    exact hvoid

end Reader

end HeaderAtlas
