import HeaderAtlas.Proofs.Declaration.Stepwise

/-!
# Stored handles have records

In a session that reads headers and settles its catalog, every handle that is stored anywhere is that of a record, and so is every
handle that its redirects lead to (`session_storedHandles`). Calls that look a name up may come between; calls that bring in a
record from outside may not, for such a record may hold any handle.
-/

namespace HeaderAtlas

namespace Catalog

variable {c : Catalog}

/-- A reference makes a placeholder at most, which holds no handles. -/
theorem Closed.reference (h : c.Closed) (name : String) : (c.reference name).2.Closed := by
  unfold Catalog.reference
  split
  · exact h
  · exact h.placeholder name

/-- The invariant of catalogs holds, and the handles in records, functions and globals have records. -/
structure Sound (c : Catalog) : Prop where
  inv : c.Inv
  unambiguous : c.Unambiguous
  closed : c.Closed

/-- Changes keep a catalog sound if the handles they store have records. -/
theorem Sound.grows {c' : Catalog} {φ : Change → Prop} (h : c.Sound) (hg : Grows φ c c') (hclosed : c'.Closed) : c'.Sound :=
  ⟨hg.keeps (fun _ x _ hc => hc.change x) h.inv, hg.keeps (fun _ x _ hc => hc.change x) h.unambiguous, hclosed⟩

/-- Settlement keeps a catalog sound. -/
theorem Sound.settle (h : c.Sound) : c.settle.2.Sound :=
  ⟨h.inv.settle, h.unambiguous.settle h.inv, h.closed.settle h.inv⟩

/-- A type known from the start is declared without any handle. -/
theorem Sound.registerInternal (h : c.Sound) (name : String) (code : Option String) (isPrimitive isTemplate : Bool) :
    (c.register (internalType name code isPrimitive isTemplate)).2.Sound := by
  have hgrows : Grows (fun _ => True) c (c.register (internalType name code isPrimitive isTemplate)).2 :=
    .single (.register _) trivial
  exact h.grows hgrows (h.closed.register fun id hid => absurd hid List.not_mem_nil)

/-- An aggregate holds the handle of its component type, which has a record. -/
theorem Sound.addAggregate (h : c.Sound) (a : Aggregate) : (c.addAggregate a).Sound := by
  have hregistered := h.registerInternal a.name (some a.code) true false
  refine h.grows (c.addAggregate_grows a) ?_
  unfold Catalog.addAggregate
  dsimp only
  generalize c.register (internalType a.name (some a.code) true false) = made at hregistered ⊢
  have hcomponent := (hregistered.inv.name_reference a.component).1
  refine (hregistered.closed.reference a.component).setRecord _ ?_
  intro d id hid
  simp only [TypeDef.handles, TypeDef.links, List.mem_append, List.mem_flatMap, List.mem_map] at hid ⊢
  rcases hid with (hlinks | ⟨p, hp | ⟨name, -, rfl⟩, hid⟩) | hmethods
  · exact Or.inl (Or.inl (Or.inl hlinks))
  · exact Or.inl (Or.inl (Or.inr ⟨p, hp, hid⟩))
  · rw [Property.handles, Option.toList_none, List.nil_append, handlesOfArgs, List.mem_singleton] at hid
    rw [hid]
    exact Or.inr hcomponent
  · exact Or.inl (Or.inr hmethods)

/-- What keeps a catalog sound each time does so one after the other. -/
theorem Sound.foldl {α : Type} {f : Catalog → α → Catalog} (hf : ∀ c a, c.Sound → (f c a).Sound) (l : List α) :
    ∀ c, Sound c → (l.foldl f c).Sound := by
  induction l with
  | nil => exact fun c hc => hc
  | cons a l ih => exact fun c hc => ih _ (hf c a hc)

/-- A session begins with a sound catalog. -/
theorem sound_origin (o : Origin) : o.catalog.Sound := by
  have hempty : empty.Sound := ⟨inv_empty, ⟨.nil, .nil⟩, closed_empty⟩
  cases o with
  | empty => exact hempty
  | builtin =>
    refine Sound.foldl (fun c t hc => hc.registerInternal t.1 t.2 false true) _ _ ?_
    refine Sound.foldl (fun c name hc => hc.registerInternal name none false false) _ _ ?_
    refine Sound.foldl (fun c a hc => hc.addAggregate a) _ _ ?_
    exact Sound.foldl (fun c p hc => hc.registerInternal p.1 p.2 true false) _ _ hempty

end Catalog

/-- The call brings in no record from outside. -/
def Call.BringsNone : Call → Prop
  | register _ => False
  | edit _ _ => False
  | _ => True

/-- A call that brings in no record from outside keeps the catalog sound. -/
theorem Call.sound {call : Call} (h : call.BringsNone) (r : Recorder) (hr : r.catalog.Sound) : (call.run r).catalog.Sound := by
  cases call with
  | register d => exact h.elim
  | edit id e => exact h.elim
  | reference name =>
    rw [run, Recorder.catalog_reference]
    exact hr.grows (φ := fun _ => True) (.reference name trivial) (hr.closed.reference name)
  | placeholder name =>
    exact hr.grows (φ := fun _ => True) (.single (.placeholder name) trivial) (hr.closed.placeholder name)
  | scan options source =>
    exact hr.grows (r.scan_grows options source) ((r.scan_steps options source hr.inv).closed hr.closed)
  | settle =>
    rw [run, Recorder.catalog_settle]
    exact hr.settle

/-- Whatever headers a session reads, and whenever it settles its catalog, every stored handle has a record, its redirects stay among
the records, and the record it stands for is there to be read. -/
theorem session_storedHandles (o : Origin) (calls : List Call) (h : ∀ call ∈ calls, call.BringsNone) :
    let c := (session o calls).catalog
    ∀ id ∈ c.storedHandles, c.Has id ∧ (∀ n, (c.follow n id).index < c.redirect.length) ∧
      c.records[(c.canonical id).index]? = some (c.get id) := by
  intro c id hid
  have hsound : c.Sound :=
    Recorder.perform_keeps_of_mem calls (fun call hcall r hr => Call.sound (h call hcall) r hr) _ (Catalog.sound_origin o)
  have hhas := hsound.closed.has_of_mem_storedHandles hsound.inv hsound.unambiguous hid
  refine ⟨hhas, ?_, ?_⟩
  · intro n
    rw [hsound.inv.length_redirect]
    exact Catalog.follow_keeps (P := c.Has) (fun _ => hsound.inv.has_next) n id hhas
  · have hcanonical : (c.canonical id).index < c.records.length := hsound.inv.has_canonical hhas
    rw [Catalog.get, Catalog.record, List.getElem?_eq_getElem hcanonical, Option.getD_some]

/-- A handle two template arguments deep, stored before its type is declared and redirected since. -/
theorem session_storedHandles_in_arguments :
    let calls : List Call := [.scan {} "REFLECTED() struct A { PROPERTY() Map<8, List<Late*>> x; };",
      .scan {} "REFLECTED() class Late { }; REFLECTED() class List { }; REFLECTED() class Map { };", .settle]
    let c := (session .empty calls).catalog
    (∀ call ∈ calls, call.BringsNone) ∧ (⟨1⟩ ∈ c.storedHandles ∧ c.canonical ⟨1⟩ = ⟨4⟩) ∧
      c.records[(c.canonical ⟨1⟩).index]? = some (c.get ⟨1⟩) := by
  intro calls c
  have hcalls : ∀ call ∈ calls, call.BringsNone := by simp [calls, Call.BringsNone]
  have hstored : ⟨1⟩ ∈ c.storedHandles ∧ c.canonical ⟨1⟩ = ⟨4⟩ := by decide +kernel
  exact ⟨hcalls, hstored, (session_storedHandles .empty calls hcalls ⟨1⟩ hstored.1).2.2⟩

end HeaderAtlas
