import Mathlib.Logic.Relation
import HeaderAtlas.Proofs.TypeText.Grammar

/-!
# Agreement of signatures

What agreement compares of a signature is written down as its key: for each use of a type its qualifiers, its shape, the type that
stands for its handle, and the keys of its template arguments, however deep they are (`Catalog.argKey`). Two signatures agree if
their keys are the same (`Catalog.sameSignature_iff`). So agreement is an equivalence, a handle may be replaced by another one of the
same type (`Method.Rehandled`), and what is spelled from the key alone is the same for signatures that agree.
-/

namespace HeaderAtlas

open Relation (ReflTransGen)

/-! ## Keys -/

/-- What agreement compares of a template argument. -/
inductive ArgKey where
  | int (value : Int64)
  | type (qualifiers : Qualifiers) (shape : Shape) (type : TypeId) (args : List ArgKey)

namespace Catalog

variable {c : Catalog}

mutual

/-- The key of a template argument. -/
def argKey (c : Catalog) : TemplateArg → ArgKey
  | .int value => .int value
  | .type { type, modifiers, templateArgs, .. } =>
    .type modifiers.qualifiers modifiers.shape (c.canonical type) (c.argKeys templateArgs)

/-- The keys of template arguments. -/
def argKeys (c : Catalog) : List TemplateArg → List ArgKey
  | [] => []
  | a :: rest => c.argKey a :: c.argKeys rest

end

/-- The key of the use of a type. -/
def typeKey (c : Catalog) (p : Property) : ArgKey := c.argKey (.type p)

/-- What agreement compares of a method. -/
structure SignatureKey where
  isConst : Bool
  result : ArgKey
  params : List ArgKey

/-- The key of a method. -/
def signatureKey (c : Catalog) (m : Method) : SignatureKey :=
  ⟨m.modifiers.qualifiers.isConst, c.typeKey m.returnValue, m.params.map c.typeKey⟩

/-- The keys of arguments are taken one by one. -/
theorem argKeys_eq_map (args : List TemplateArg) : c.argKeys args = args.map c.argKey := by
  induction args with
  | nil => rw [argKeys, List.map_nil]
  | cons a args ih => rw [argKeys, ih, List.map_cons]

/-- The key of a use: qualifiers, shape, the type its handle stands for, and the keys of its arguments. -/
theorem typeKey_eq (p : Property) :
    c.typeKey p = .type p.modifiers.qualifiers p.modifiers.shape (c.canonical p.type) (p.templateArgs.map c.argKey) := by
  cases p
  rw [typeKey, argKey, argKeys_eq_map]

mutual

/-- Arguments agree if their keys are the same, by induction on both. -/
theorem sameArg_iff : ∀ a b : TemplateArg, c.sameArg a b = true ↔ c.argKey a = c.argKey b
  | .int x, .int y => by simp [sameArg, argKey]
  | .type ⟨_, s, m, as, _, _, _, _⟩, .type ⟨_, t, n, bs, _, _, _, _⟩ => by
    simp only [sameArg, argKey, Bool.and_eq_true, beq_iff_eq, same, sameArgs_iff as bs, ArgKey.type.injEq, and_assoc]
  | .int _, .type ⟨_, _, _, _, _, _, _, _⟩ => by simp [sameArg, argKey]
  | .type ⟨_, _, _, _, _, _, _, _⟩, .int _ => by simp [sameArg, argKey]

/-- Lists of arguments agree if their keys are the same. -/
theorem sameArgs_iff : ∀ as bs : List TemplateArg, c.sameArgs as bs = true ↔ c.argKeys as = c.argKeys bs
  | [], [] => by simp [sameArgs, argKeys]
  | a :: as, b :: bs => by
    simp only [sameArgs, argKeys, Bool.and_eq_true, List.cons.injEq, sameArg_iff a b, sameArgs_iff as bs]
  | [], _ :: _ => by simp [sameArgs, argKeys]
  | _ :: _, [] => by simp [sameArgs, argKeys]

end

/-- Uses agree if their keys are the same. -/
theorem sameType_iff (p q : Property) : c.sameType p q = true ↔ c.typeKey p = c.typeKey q := sameArg_iff _ _

/-- Lists of uses agree if their keys are the same. -/
theorem sameTypes_iff (ps qs : List Property) : c.sameTypes ps qs = true ↔ ps.map c.typeKey = qs.map c.typeKey := by
  induction ps generalizing qs with
  | nil => cases qs <;> simp [sameTypes]
  | cons p ps ih =>
    cases qs with
    | nil => simp [sameTypes]
    | cons q qs => simp only [sameTypes, Bool.and_eq_true, sameType_iff, ih, List.map_cons, List.cons.injEq]

/-- Two signatures agree if and only if their keys are the same. -/
theorem sameSignature_iff (m n : Method) : c.sameSignature m n = true ↔ c.signatureKey m = c.signatureKey n := by
  simp only [sameSignature, signatureKey, Bool.and_eq_true, beq_iff_eq, sameType_iff, sameTypes_iff, SignatureKey.mk.injEq,
    and_assoc]

end Catalog

/-! ## Handles of the same type -/

/-- One handle in the use of a type is replaced by a handle that stands for the same type. -/
inductive Property.Rehandled (c : Catalog) : Property → Property → Prop where
  | type (p : Property) {id : TypeId} (h : c.canonical id = c.canonical p.type) : Rehandled c p { p with type := id }
  | argument (p : Property) {q q' : Property} {front back : List TemplateArg}
      (hargs : p.templateArgs = front ++ .type q :: back) (h : Rehandled c q q') :
      Rehandled c p { p with templateArgs := front ++ .type q' :: back }

/-- One handle in a signature is replaced by a handle that stands for the same type. -/
inductive Method.Rehandled (c : Catalog) : Method → Method → Prop where
  | result (m : Method) {p : Property} (h : m.returnValue.Rehandled c p) : Rehandled c m { m with returnValue := p }
  | parameter (m : Method) {p p' : Property} {front back : List Property} (hparams : m.params = front ++ p :: back)
      (h : p.Rehandled c p') : Rehandled c m { m with params := front ++ p' :: back }

namespace Catalog

variable {c : Catalog}

/-- Another handle of the same type gives the same key. -/
theorem typeKey_eq_of_rehandled {p q : Property} (h : p.Rehandled c q) : c.typeKey q = c.typeKey p := by
  induction h with
  | type p h => rw [typeKey_eq, typeKey_eq, h]
  | @argument p q q' front back hargs _ ih =>
    have hq : c.argKey (.type q') = c.argKey (.type q) := ih
    rw [typeKey_eq, typeKey_eq, hargs, List.map_append, List.map_append, List.map_cons, List.map_cons, hq]

/-- A signature has the same key with another handle of the same type. -/
theorem signatureKey_eq_of_rehandled {m n : Method} (h : m.Rehandled c n) : c.signatureKey n = c.signatureKey m := by
  cases h with
  | result h => rw [signatureKey, signatureKey, typeKey_eq_of_rehandled h]
  | parameter hparams h =>
    rw [signatureKey, signatureKey, hparams, List.map_append, List.map_append, List.map_cons, List.map_cons,
      typeKey_eq_of_rehandled h]

/-- A signature has the same key however many of its handles are replaced, one after the other. -/
theorem signatureKey_eq_of_reflTransGen {m n : Method} (h : ReflTransGen (Method.Rehandled c) m n) :
    c.signatureKey n = c.signatureKey m := by
  induction h with
  | refl => rfl
  | tail _ h ih => exact (signatureKey_eq_of_rehandled h).trans ih

/-! ## Spelling -/

/-- What is the same for all that have the same key is the same for lists of the same keys. -/
theorem map_eq_of_map_eq {α β γ : Type} {key : α → β} {text : α → γ} {as : List α}
    (h : ∀ a ∈ as, ∀ b, key a = key b → text a = text b) :
    ∀ {bs : List α}, as.map key = bs.map key → as.map text = bs.map text := by
  induction as with
  | nil =>
    intro bs hkeys
    rw [List.map_eq_nil_iff.mp hkeys.symm]
  | cons a as ih =>
    intro bs hkeys
    obtain ⟨ha, has⟩ := List.forall_mem_cons.mp h
    obtain ⟨b, bs, rfl, hkey, hrest⟩ := List.map_eq_cons_iff.mp hkeys.symm
    rw [List.map_cons, List.map_cons, ha b hkey.symm, ih has hrest.symm]

/-- Arguments with one key are spelled alike. -/
theorem argText_eq_of_argKey_eq (a : TemplateArg) : ∀ b, c.argKey a = c.argKey b → c.argText true a = c.argText true b := by
  induction a using TemplateArg.induction with
  | hint value =>
    intro b h
    cases b with
    | int other =>
      rw [argKey, argKey, ArgKey.int.injEq] at h
      rw [h]
    | type q => cases h.trans (c.typeKey_eq q)
  | htype p ih =>
    intro b h
    cases b with
    | int other => cases h.symm.trans (c.typeKey_eq p)
    | type q =>
      have hkeys := ((c.typeKey_eq p).symm.trans h).trans (c.typeKey_eq q)
      obtain ⟨hqualifiers, hshape, htype, hargs⟩ := ArgKey.type.inj hkeys
      have hname : c.name p.type = c.name q.type := by rw [name, name, get, get, htype]
      have hlead : leadText p.modifiers = leadText q.modifiers := by rw [leadText, leadText, hqualifiers]
      have htail : tailText p.modifiers = tailText q.modifiers := by rw [tailText, tailText, hshape]
      rw [argText_type, argText_type, hname, hlead, htail, map_eq_of_map_eq ih hargs]

/-- Uses with one key are spelled alike. -/
theorem typeText_eq_of_typeKey_eq {p q : Property} (h : c.typeKey p = c.typeKey q) : c.typeText true p = c.typeText true q :=
  argText_eq_of_argKey_eq _ _ h

/-- Agreement of signatures, in any catalog. It is an equivalence, it does not change when handles in the signatures are replaced by
handles of the same types, one after another, and signatures that agree are spelled alike. -/
theorem sameSignature_congruence (c : Catalog) :
    Equivalence (fun m n => c.sameSignature m n = true) ∧
      (∀ m m' n n', ReflTransGen (Method.Rehandled c) m m' → ReflTransGen (Method.Rehandled c) n n' →
        c.sameSignature m' n' = c.sameSignature m n) ∧
      ∀ m n, c.sameSignature m n = true → c.returnText m = c.returnText n ∧ c.callText m = c.callText n := by
  refine ⟨?_, ?_, ?_⟩
  · simp only [sameSignature_iff]
    exact ⟨fun _ => rfl, Eq.symm, Eq.trans⟩
  · intro m m' n n' hm hn
    rw [Bool.eq_iff_iff, sameSignature_iff, sameSignature_iff, signatureKey_eq_of_reflTransGen hm,
      signatureKey_eq_of_reflTransGen hn]
  · intro m n h
    obtain ⟨hconst, hresult, hparams⟩ := SignatureKey.mk.inj ((sameSignature_iff m n).mp h)
    refine ⟨typeText_eq_of_typeKey_eq hresult, ?_⟩
    rw [callText, callText, hconst, map_eq_of_map_eq (fun _ _ _ => typeText_eq_of_typeKey_eq) hparams]

end Catalog

end HeaderAtlas
