import HeaderAtlas.Catalog.Builtin
import HeaderAtlas.Proofs.Declaration.Growth

/-!
# Sessions

A session begins with the empty catalog or with the catalog of the types known from the start, and makes calls in any order and
any number: types are declared, referred to and edited, headers are read, the catalog is settled. What a session keeps is proved
from what one change and one settlement keep (`session_keeps`); between two settlements a session only grows its catalog
(`perform_grows`).
-/

namespace HeaderAtlas

open Catalog (Grows)

/-- What a session begins with. -/
inductive Origin where
  | empty
  | builtin
  deriving DecidableEq, Repr

/-- The catalog a session begins with. -/
def Origin.catalog : Origin → Catalog
  | empty => .empty
  | builtin => .builtin

/-- One call of a session. -/
inductive Call where
  | register (d : TypeDef)
  | reference (name : String)
  | placeholder (name : String)
  | edit (id : TypeId) (e : ContentEdit)
  | scan (options : ScanOptions) (source : String)
  | settle

/-- The recorder after a call. -/
def Call.run (r : Recorder) : Call → Recorder
  | register d => (r.register d).2
  | reference name => (r.reference name).2
  | placeholder name => (r.placeholder name).2
  | edit id e => r.change fun c => c.edit id e.apply
  | scan options source => r.scan options source
  | settle => r.settle.2

/-- The recorder after calls, from the first to the last. -/
def Recorder.perform (r : Recorder) (calls : List Call) : Recorder := calls.foldl Call.run r

/-- The recorder of a session after its calls. -/
def session (o : Origin) (calls : List Call) : Recorder := Recorder.perform { catalog := o.catalog } calls

/-- The call is no settlement, and what it declares or edits satisfies `φ`. -/
def Call.Within (φ : Change → Prop) : Call → Prop
  | register d => φ (.register d)
  | edit id e => φ (.edit id e)
  | settle => False
  | _ => True

/-- Calls are performed part by part. -/
theorem Recorder.perform_append (r : Recorder) (calls rest : List Call) :
    r.perform (calls ++ rest) = (r.perform calls).perform rest := List.foldl_append

/-- A session goes on from what its first calls have made. -/
theorem session_append (o : Origin) (calls rest : List Call) :
    session o (calls ++ rest) = (session o calls).perform rest := Recorder.perform_append _ calls rest

/-- A recorder settles its catalog. -/
theorem Recorder.catalog_settle (r : Recorder) : r.settle.2.catalog = r.catalog.settle.2 := by
  unfold settle
  dsimp only
  split <;> rfl

theorem Recorder.settle_fst (r : Recorder) : r.settle.1 = r.catalog.settle.1 := rfl

/-! ## What one call does -/

/-- A call that is no settlement grows the catalog. -/
theorem Call.grows {φ : Change → Prop} (hread : ∀ x, ReadChange x → φ x) (r : Recorder) (call : Call)
    (h : call.Within φ) : Grows φ r.catalog (call.run r).catalog := by
  cases call with
  | register d => exact Grows.single (.register d) h
  | reference name =>
    rw [run, Recorder.catalog_reference]
    exact Grows.reference name (hread _ (.placeholder name))
  | placeholder name => exact Grows.single (.placeholder name) (hread _ (.placeholder name))
  | edit id e => exact Grows.single (.edit id e) h
  | scan options source => exact (r.scan_grows options source).mono hread
  | settle => exact h.elim

/-- Every call is a settlement or within what nothing restricts. -/
theorem Call.within_or_settle (call : Call) : call.Within (fun _ => True) ∨ call = .settle := by
  cases call with
  | settle => exact Or.inr rfl
  | _ => exact Or.inl trivial

/-! ## What a session keeps -/

/-- Calls without a settlement grow the catalog. -/
theorem Recorder.perform_grows {φ : Change → Prop} (hread : ∀ x, ReadChange x → φ x) (calls : List Call)
    (h : ∀ call ∈ calls, call.Within φ) : ∀ r : Recorder, Grows φ r.catalog (r.perform calls).catalog := by
  induction calls with
  | nil => intro r; exact .refl _
  | cons call calls ih =>
    intro r
    have hcall := call.grows hread r (h call List.mem_cons_self)
    exact hcall.trans (ih (fun x hx => h x (List.mem_cons_of_mem call hx)) (call.run r))

/-- What every change and every settlement keeps, calls keep. -/
theorem Recorder.perform_keeps {P : Catalog → Prop} (hchange : ∀ c (x : Change), P c → P (x.apply c))
    (hsettle : ∀ c : Catalog, P c → P c.settle.2) (calls : List Call) :
    ∀ r : Recorder, P r.catalog → P (r.perform calls).catalog := by
  induction calls with
  | nil => intro r h; exact h
  | cons call calls ih =>
    intro r h
    apply ih (call.run r)
    rcases call.within_or_settle with hcall | rfl
    · exact (call.grows (fun _ _ => trivial) r hcall).keeps (fun c x _ => hchange c x) h
    · rw [Call.run, Recorder.catalog_settle]
      exact hsettle _ h

/-- What each of the calls keeps, all of them keep. -/
theorem Recorder.perform_keeps_of_mem {P : Catalog → Prop} (calls : List Call)
    (h : ∀ call ∈ calls, ∀ r : Recorder, P r.catalog → P (call.run r).catalog) :
    ∀ r : Recorder, P r.catalog → P (r.perform calls).catalog := by
  induction calls with
  | nil => exact fun r hr => hr
  | cons call calls ih =>
    obtain ⟨hcall, hcalls⟩ := List.forall_mem_cons.mp h
    exact fun r hr => ih hcalls (call.run r) (hcall r hr)

/-- What grows a catalog each time grows it one after the other. -/
theorem Catalog.Grows.foldl {α : Type} {φ : Change → Prop} {f : Catalog → α → Catalog} (hf : ∀ c a, Grows φ c (f c a))
    (l : List α) : ∀ c, Grows φ c (l.foldl f c) := by
  induction l with
  | nil => intro c; exact .refl c
  | cons a l ih =>
    intro c
    rw [List.foldl_cons]
    exact (hf c a).trans (ih _)

/-- An aggregate is declared, refers to its component type and gets its properties. -/
theorem Catalog.addAggregate_grows (c : Catalog) (a : Catalog.Aggregate) : Grows ReadChange c (c.addAggregate a) := by
  unfold addAggregate
  dsimp only
  have h : Grows ReadChange c (c.register (internalType a.name (some a.code) true false)).2 :=
    Grows.single (.register _) (.declare _ rfl rfl)
  exact Grows.edit (h.trans (Grows.reference _ (.placeholder _))) _ _ (fun _ => rfl) (fun _ => rfl) (fun _ => rfl)

/-- The types known from the start are declared as those of a header are. -/
theorem Origin.grows (o : Origin) : Grows ReadChange .empty o.catalog := by
  cases o with
  | empty => exact .refl _
  | builtin =>
    have hinternal : ∀ (c : Catalog) (name : String) (code : Option String) (isPrimitive isTemplate : Bool),
        Grows ReadChange c (c.register (Catalog.internalType name code isPrimitive isTemplate)).2 :=
      fun c _ _ _ _ => Grows.single (.register _) (.declare _ rfl rfl)
    exact (((Grows.foldl (fun c _ => hinternal c _ _ _ _) _ _).trans (Grows.foldl Catalog.addAggregate_grows _ _)).trans
      (Grows.foldl (fun c _ => hinternal c _ _ _ _) _ _)).trans (Grows.foldl (fun c _ => hinternal c _ _ _ _) _ _)

/-- What the empty catalog has and every change and every settlement keeps, every session has. -/
theorem session_keeps {P : Catalog → Prop} (hempty : P .empty) (hchange : ∀ c (x : Change), P c → P (x.apply c))
    (hsettle : ∀ c : Catalog, P c → P c.settle.2) (o : Origin) (calls : List Call) : P (session o calls).catalog :=
  Recorder.perform_keeps hchange hsettle calls _ (o.grows.keeps (fun c x _ => hchange c x) hempty)

end HeaderAtlas
