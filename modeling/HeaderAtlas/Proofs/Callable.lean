import HeaderAtlas.Proofs.Made

/-!
# Methods and functions

Every method of a record says that it is declared there and every function that it is declared nowhere; the lists of parameters, of
their names and of their defaults say the same; and a constructor or destructor is named for its type and gives back nothing
(`session_callables`). A method is recorded so (`Method.Formed`), and stays so because records keep their names.
-/

namespace HeaderAtlas

namespace Catalog

variable {c c' : Catalog} {options : ScanOptions} {owner child : TypeId}

/-- A name of one part is the name of whatever stands for the record: only a name of several parts may mean another. -/
theorem Inv.name_eq_of_one_part (hc : c.Inv) {id : TypeId} (hone : ∀ part, ¬IsLastPart (c.record id).name part) :
    c.name id = (c.record id).name := by
  by_cases hn : c.next id = id
  · rw [name, get, canonical_of_next_eq hn]
  · have hlink := hc.links hn
    rw [name, get, (hc.declared_canonical_of_next_ne hn).2.1]
    by_cases hplaceholder : c.IsPlaceholder id
    · rcases hlink.meant hplaceholder with hwhole | hpart
      · exact hwhole
      · exact absurd hpart (hone _)
    · exact (hlink.later hplaceholder).1

theorem Void.name_eq (hc : c.Inv) {type : TypeId} {args : List TemplateArg} {shape : Shape} (h : c.Void type args shape) :
    c.name type = "void" := by
  refine (hc.name_eq_of_one_part ?_).trans h.name
  intro part hpart
  rw [h.name] at hpart
  have hsegment := (lastSegment?_eq_some_iff _ _).mpr hpart
  cases hsegment

/-- Methods are declared in the type that holds them and functions nowhere, and all are recorded as their declarations say. -/
structure Callable (c : Catalog) : Prop where
  method : ∀ t, ∀ m ∈ (c.record t).methods, m.declaring = some t ∧ m.Formed c
  function : ∀ m ∈ c.functions, m.declaring = none ∧ m.Formed c

namespace Callable

theorem empty : Catalog.empty.Callable :=
  ⟨fun _ _ hm => absurd hm List.not_mem_nil, fun _ hm => absurd hm List.not_mem_nil⟩

/-- Under the same names, methods and functions that were recorded stay as they are; new ones are to be recorded so. -/
theorem keepsNames (h : c.Callable) (hc : c.KeepsNames c')
    (hmethod : ∀ t, ∀ m ∈ (c'.record t).methods, m ∈ (c.record t).methods ∨ c.Has t ∧ m.declaring = some t ∧ m.Formed c)
    (hfunction : ∀ m ∈ c'.functions, m ∈ c.functions ∨ m.declaring = none ∧ m.Formed c) : c'.Callable := by
  refine ⟨?_, ?_⟩
  · intro t m hm
    obtain ⟨ht, hdeclaring, hformed⟩ : c.Has t ∧ m.declaring = some t ∧ m.Formed c := by
      rcases hmethod t m hm with hold | hnew
      · refine ⟨?_, h.method t m hold⟩
        -- a handle without a record reads as a type without methods
        by_contra ht
        rw [record_of_not_has ht] at hold
        exact List.not_mem_nil hold
      · exact hnew
    refine ⟨hdeclaring, hformed.keepsNames hc ?_⟩
    intro t' ht'
    rw [← Option.some.inj (hdeclaring.symm.trans ht')]
    exact ht
  · intro m hm
    obtain ⟨hdeclaring, hformed⟩ : m.declaring = none ∧ m.Formed c := (hfunction m hm).elim (h.function m) id
    refine ⟨hdeclaring, hformed.keepsNames hc ?_⟩
    intro t ht
    cases hdeclaring.symm.trans ht

end Callable

theorem Made.callable {φ : ScanOptions → Prop} (h : c.Made φ) : c.Callable := by
  induction h with
  | empty => exact .empty
  | step _ _ hstep ih =>
    refine ih.keepsNames hstep.grows.keepsNames ?_ ?_
    · intro t m hm
      exact ((hstep.record t).method_mem m hm).imp_right fun hnew => ⟨hnew.1, hnew.2.1, hnew.2.2.2⟩
    · intro m hm
      exact (hstep.function_mem m hm).imp_right fun hnew => ⟨hnew.1, hnew.2.2⟩
  | nest _ hnest ih =>
    refine ih.keepsNames hnest.grows.keepsNames ?_ fun m hm => Or.inl hm
    intro t m hm
    obtain ⟨_, _, hrecord⟩ := hnest.keeps_nest t
    rw [hrecord] at hm
    exact Or.inl hm
  | same _ hsame ih =>
    refine ih.keepsNames hsame.keepsNames ?_ fun m hm => Or.inl (hsame.functions_eq ▸ hm)
    intro t m hm
    obtain ⟨_, _, hrecord⟩ := hsame.record t
    rw [hrecord] at hm
    exact Or.inl hm

end Catalog

/-- The lists of the parameters of a method, of their names and of their defaults say the same, place by place. -/
structure Method.ListsAgree (m : Method) : Prop where
  length_paramNames : m.paramNames.length = m.params.length
  length_defaults : m.defaults.length = m.params.length
  param : ∀ (i : Nat) (p : Property), m.params[i]? = some p →
    m.paramNames[i]?.map (·.getD "") = some p.name ∧ m.defaults[i]? = some p.defaultText

theorem Method.Formed.listsAgree {m : Method} {c : Catalog} (h : m.Formed c) : m.ListsAgree := by
  refine ⟨?_, ?_, ?_⟩
  · have hlength := congrArg List.length h.paramNames
    rw [List.length_map, List.length_map] at hlength
    exact hlength.symm
  · rw [← h.defaults, List.length_map]
  · intro i p hp
    rw [← List.getElem?_map, ← h.paramNames, ← h.defaults, List.getElem?_map, List.getElem?_map, hp]
    exact ⟨rfl, rfl⟩

/-- Whatever headers a session reads, a method of a record is declared there and a function nowhere; the lists of their parameters
agree; a method is no constructor and destructor at once, either is named for the type that the record is of, and gives back a plain
`void`. -/
theorem session_callables (o : Origin) (calls : List Call) (h : ∀ call ∈ calls, call.BringsNone) :
    let c := (session o calls).catalog
    (∀ t : TypeId, ∀ m ∈ (c.record t).methods,
      m.declaring = some t ∧ m.ListsAgree ∧
      let d := m.modifiers.decorations
      ¬(d.isConstructor = true ∧ d.isDestructor = true) ∧
      (d.isConstructor = true → m.name = (c.record t).name) ∧
      (d.isDestructor = true → m.name = "~" ++ (c.record t).name) ∧
      (d.isConstructor = true ∨ d.isDestructor = true →
        c.name m.returnValue.type = "void" ∧ m.returnValue.templateArgs = [] ∧ m.returnValue.modifiers.shape = {})) ∧
    ∀ m ∈ c.functions, m.declaring = none ∧ m.ListsAgree := by
  have hmade := session_made (φ := fun _ => True) trivial o calls h fun _ _ _ => trivial
  have hcallable := hmade.callable
  refine ⟨?_, fun m hm => ⟨(hcallable.function m hm).1, (hcallable.function m hm).2.listsAgree⟩⟩
  intro t m hm
  obtain ⟨hdeclaring, hformed⟩ := hcallable.method t m hm
  have hnames := hformed.names
  rw [hdeclaring] at hnames
  refine ⟨hdeclaring, hformed.listsAgree, hnames.one, ?_, ?_, ?_⟩
  · intro hconstructor
    obtain ⟨_, ⟨⟩, hname⟩ := hnames.constructor hconstructor
    exact hname
  · intro hdestructor
    obtain ⟨_, ⟨⟩, hname⟩ := hnames.destructor hdestructor
    exact hname
  · intro hspecial
    have hvoid := hformed.void (Bool.or_eq_true_iff.mpr hspecial)
    exact ⟨hvoid.name_eq hmade.inv, hvoid.args, hvoid.shape⟩

/-- A constructor whose second parameter has no name, a destructor, and a function. -/
theorem session_callables_of_special :
    let calls : List Call := [.scan {} "REFLECTED() struct A { METHOD_CMD() A(A x = 3, A*); METHOD_CMD() virtual ~A(); };
      METHOD_CMD() A& f(A);", .settle]
    let c := (session .empty calls).catalog
    (∀ call ∈ calls, call.BringsNone) ∧
      (∃ m ∈ (c.record ⟨0⟩).methods, (m.modifiers.decorations.isConstructor = true ∧ m.paramNames = [some "x", none]) ∧
        m.declaring = some ⟨0⟩ ∧ m.ListsAgree ∧ m.name = (c.record ⟨0⟩).name ∧ c.name m.returnValue.type = "void") ∧
      (∃ m ∈ (c.record ⟨0⟩).methods, m.modifiers.decorations.isDestructor = true ∧ m.name = "~" ++ (c.record ⟨0⟩).name) ∧
      ∃ m ∈ c.functions, m.name = "f" ∧ m.declaring = none := by
  intro calls c
  have hcalls : ∀ call ∈ calls, call.BringsNone := by simp [calls, Call.BringsNone]
  have hread : (∃ m ∈ (c.record ⟨0⟩).methods,
        m.modifiers.decorations.isConstructor = true ∧ m.paramNames = [some "x", none]) ∧
      (∃ m ∈ (c.record ⟨0⟩).methods, m.modifiers.decorations.isDestructor = true) ∧ ∃ m ∈ c.functions, m.name = "f" := by
    decide +kernel
  obtain ⟨⟨m, hm, hconstructor⟩, ⟨m', hm', hdestructor⟩, ⟨f, hf, hname⟩⟩ := hread
  obtain ⟨hmethods, hfunctions⟩ := session_callables .empty calls hcalls
  obtain ⟨hdeclaring, hlists, -, hnamed, -, hvoid⟩ := hmethods ⟨0⟩ m hm
  obtain ⟨-, -, -, -, hnamed', -⟩ := hmethods ⟨0⟩ m' hm'
  exact ⟨hcalls, ⟨m, hm, hconstructor, hdeclaring, hlists, hnamed hconstructor.1, (hvoid (Or.inl hconstructor.1)).1⟩,
    ⟨m', hm', hdestructor, hnamed' hdestructor⟩, f, hf, hname, (hfunctions f hf).1⟩

end HeaderAtlas
