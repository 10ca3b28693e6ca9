import HeaderAtlas.Catalog.Signature
import HeaderAtlas.Proofs.Enum.Grammar
import HeaderAtlas.Proofs.Member.Grammar
import HeaderAtlas.Proofs.Token.Chunk
import HeaderAtlas.Proofs.Token.Word

/-!
# The tokens of a spelled type

The spelling of a type is cut into the tokens one expects (`cuts_argText`), as far as it can be spelled at all (`Spellable`): the
names of types are words joined by `::` that stand for themselves, and no integer is the least one, which has no digits of its own
behind a minus.
-/

namespace HeaderAtlas

/-! ## Template arguments -/

mutual

/-- The uses of types in a template argument: its own, and those in the arguments of that one. -/
def TemplateArg.uses : TemplateArg → List Property
  | .int _ => []
  | .type p@{ templateArgs, .. } => p :: usesOfArgs templateArgs

/-- The uses of types in template arguments, at any depth. -/
def usesOfArgs : List TemplateArg → List Property
  | [] => []
  | a :: rest => a.uses ++ usesOfArgs rest

end

mutual

/-- The integers in a template argument, at any depth. -/
def TemplateArg.ints : TemplateArg → List Int64
  | .int value => [value]
  | .type { templateArgs, .. } => intsOfArgs templateArgs

/-- The integers in template arguments, at any depth. -/
def intsOfArgs : List TemplateArg → List Int64
  | [] => []
  | a :: rest => a.ints ++ intsOfArgs rest

end

/-- The uses in an argument are uses in the list. -/
theorem mem_usesOfArgs {args : List TemplateArg} {a : TemplateArg} (ha : a ∈ args) {p : Property} (hp : p ∈ a.uses) :
    p ∈ usesOfArgs args := by
  induction args with
  | nil => exact absurd ha List.not_mem_nil
  | cons b args ih =>
    rw [usesOfArgs, List.mem_append]
    rcases List.mem_cons.mp ha with rfl | ha
    · exact Or.inl hp
    · exact Or.inr (ih ha)

/-- The integers in an argument are integers in the list. -/
theorem mem_intsOfArgs {args : List TemplateArg} {a : TemplateArg} (ha : a ∈ args) {value : Int64} (hv : value ∈ a.ints) :
    value ∈ intsOfArgs args := by
  induction args with
  | nil => exact absurd ha List.not_mem_nil
  | cons b args ih =>
    rw [intsOfArgs, List.mem_append]
    rcases List.mem_cons.mp ha with rfl | ha
    · exact Or.inl hv
    · exact Or.inr (ih ha)

/-- A type argument is a use, and has those of its own arguments. -/
theorem TemplateArg.uses_type (p : Property) : (TemplateArg.type p).uses = p :: usesOfArgs p.templateArgs := by
  cases p
  rw [TemplateArg.uses]

/-- The integers of a type argument are those of its own arguments. -/
theorem TemplateArg.ints_type (p : Property) : (TemplateArg.type p).ints = intsOfArgs p.templateArgs := by
  cases p
  rw [TemplateArg.ints]

mutual

/-- Induction over template arguments: what holds of every integer, and of the use of a type if it holds of its arguments, holds of
every argument. -/
theorem TemplateArg.induction {P : TemplateArg → Prop} (hint : ∀ value, P (.int value))
    (htype : ∀ p : Property, (∀ a ∈ p.templateArgs, P a) → P (.type p)) : ∀ a, P a
  | .int value => hint value
  | .type ⟨_, _, _, args, _, _, _, _⟩ => htype _ (TemplateArg.induction_args hint htype args)

/-- Induction on arguments, which are nested in lists: integers, and types whose arguments have the property. -/
theorem TemplateArg.induction_args {P : TemplateArg → Prop} (hint : ∀ value, P (.int value))
    (htype : ∀ p : Property, (∀ a ∈ p.templateArgs, P a) → P (.type p)) : ∀ args : List TemplateArg, ∀ a ∈ args, P a
  | [] => fun _ h => absurd h List.not_mem_nil
  | a :: args => List.forall_mem_cons.mpr ⟨TemplateArg.induction hint htype a, TemplateArg.induction_args hint htype args⟩

end

/-! ## What can be spelled -/

/-- The words that do not name a type where one may be named. -/
def typeKeywords : List String := qualifierWords ++ ["class", "struct", "typename"] ++ nonTypeWords

/-- A word that stands for itself: an identifier that is not folded into the name of a primitive type. -/
structure IsSolid (word : String) : Prop where
  identifier : isIdentifier word = true
  ne_short : word ≠ "short"
  ne_long : word ≠ "long"

instance (word : String) : Decidable (IsSolid word) :=
  decidable_of_iff (isIdentifier word = true ∧ word ≠ "short" ∧ word ≠ "long")
    ⟨fun h => ⟨h.1, h.2.1, h.2.2⟩, fun h => ⟨h.identifier, h.ne_short, h.ne_long⟩⟩

/-- The name can be written where a type is named: it is made of words that stand for themselves, joined by `::`, and does not begin
with a keyword. -/
def IsTypeName (name : String) : Prop :=
  ∃ first parts, name = qualifiedName first parts ∧ first ∉ typeKeywords ∧ ∀ word ∈ first :: parts, IsSolid word

/-- The argument can be spelled: so can the names of its types, and no integer in it is the least one. -/
def Catalog.Spellable (c : Catalog) (a : TemplateArg) : Prop :=
  (∀ p ∈ a.uses, IsTypeName (c.name p.type)) ∧ Int64.minValue ∉ a.ints

/-- The arguments of a type that can be spelled can be spelled. -/
theorem Catalog.Spellable.arg {c : Catalog} {p : Property} (h : c.Spellable (.type p)) {a : TemplateArg}
    (ha : a ∈ p.templateArgs) : c.Spellable a := by
  rw [Catalog.Spellable, TemplateArg.uses_type, TemplateArg.ints_type] at h
  exact ⟨fun q hq => h.1 q (List.mem_cons_of_mem _ (mem_usesOfArgs ha hq)), fun hmin => h.2 (mem_intsOfArgs ha hmin)⟩

/-- An argument can be spelled by the names in it and its integers. -/
theorem Catalog.Spellable.of_names {c : Catalog} {a : TemplateArg} {names : List String}
    (hnames : (a.uses.map fun p => c.name p.type) = names) (hall : ∀ name ∈ names, IsTypeName name)
    (hints : Int64.minValue ∉ a.ints) : c.Spellable a :=
  ⟨fun _ hp => hall _ (hnames ▸ List.mem_map_of_mem hp), hints⟩

/-! ## Tokens -/

/-- The tokens of a name. -/
def nameKinds (name : String) : List Token.Kind := (tokensFrom .start name.toList).map Token.kind

/-- The tokens of an integer. -/
def intKinds (value : Int64) : List Token.Kind :=
  match value.toInt with
  | .ofNat n => [.int (.ofNat n)]
  | .negSucc n => [.mark '-', .int (.ofNat (n + 1))]

/-- The tokens in front of the name of a type. -/
def leadKinds (m : Modifiers) : List Token.Kind := if m.qualifiers.isConst then [.word "const"] else []

/-- The tokens behind the name of a type and its arguments. -/
def tailKinds (s : Shape) : List Token.Kind :=
  List.replicate s.pointerDepth (.mark '*') ++ (if s.isReference then [.mark '&'] else []) ++
    if s.isConstPointer then [.word "const"] else []

/-- The tokens of arguments between angle brackets; none when there are no arguments. -/
def bracketKinds (args : List (List Token.Kind)) : List Token.Kind :=
  if args.isEmpty then [] else .mark '<' :: ([Token.Kind.mark ','].intercalate args ++ [.mark '>'])

namespace Catalog

mutual

/-- The tokens of a spelled template argument. -/
def argKinds (c : Catalog) : TemplateArg → List Token.Kind
  | .int value => intKinds value
  | .type { type, modifiers, templateArgs, .. } =>
    leadKinds modifiers ++ nameKinds (c.name type) ++ bracketKinds (c.argsKinds templateArgs) ++ tailKinds modifiers.shape

/-- The tokens of spelled template arguments, argument by argument. -/
def argsKinds (c : Catalog) : List TemplateArg → List (List Token.Kind)
  | [] => []
  | a :: rest => c.argKinds a :: c.argsKinds rest

end

variable (c : Catalog)

/-- The tokens of a type: `const`, its name, its arguments in brackets, and its shape. -/
theorem argKinds_type (p : Property) :
    c.argKinds (.type p) =
      leadKinds p.modifiers ++ nameKinds (c.name p.type) ++ bracketKinds (p.templateArgs.map c.argKinds) ++
        tailKinds p.modifiers.shape := by
  have hmap : ∀ args, c.argsKinds args = args.map c.argKinds := by
    intro args
    induction args with
    | nil => rw [argsKinds, List.map_nil]
    | cons a args ih => rw [argsKinds, List.map_cons, ih]
  cases p
  rw [argKinds, hmap]

/-- The text of a type has the same parts. -/
theorem argText_type (p : Property) :
    c.argText true (.type p) =
      leadText p.modifiers ++ c.name p.type ++ bracketed (p.templateArgs.map (c.argText true)) ++ tailText p.modifiers := by
  have hmap : ∀ args, c.argTexts true args = args.map (c.argText true) := by
    intro args
    induction args with
    | nil => rw [argTexts, List.map_nil]
    | cons a args ih => rw [argTexts, List.map_cons, ih]
  cases p
  rw [argText, hmap, if_pos rfl, if_pos rfl]

end Catalog

/-! ## Cutting -/

/-- A qualified name is its first word, and each part behind `::`. -/
theorem toList_qualifiedName (first : String) (parts : List String) :
    (qualifiedName first parts).toList = first.toList ++ parts.flatMap fun part => ':' :: ':' :: part.toList := by
  induction parts generalizing first with
  | nil => rw [List.flatMap_nil, List.append_nil, qualifiedName, List.foldl_nil]
  | cons part parts ih =>
    rw [qualifiedName, List.foldl_cons, ← qualifiedName, ih, String.toList_append, String.toList_append, List.flatMap_cons,
      List.append_assoc, List.append_assoc]
    rfl

/-- The parts of a name are cut into two marks and a word each. -/
theorem cuts_parts (parts : List String) {rest : List Char} (h : ∀ part ∈ parts, IsSolid part) (hrest : breaks rest = true) :
    Cuts (Enumeration.partKinds parts) (parts.flatMap fun part => ':' :: ':' :: part.toList) rest ∧
      breaks ((parts.flatMap fun part => ':' :: ':' :: part.toList) ++ rest) = true := by
  induction parts with
  | nil => exact ⟨.nil rest, hrest⟩
  | cons part parts ih =>
    obtain ⟨hpart, hparts⟩ := List.forall_mem_cons.mp h
    obtain ⟨hcuts, hbreaks⟩ := ih hparts
    have hcolon : ∀ rest, Cuts [.mark ':'] [':'] rest := fun _ => (oneToken_mark rfl rfl).cuts
    have hword := (oneToken_word hpart.identifier hbreaks).cuts
    exact ⟨((hcolon _).append ((hcolon _).append hword)).append hcuts, rfl⟩

/-- A qualified name is cut into its words and the marks between them. -/
theorem cuts_qualifiedName {first : String} {parts : List String} (h : ∀ word ∈ first :: parts, IsSolid word) {rest : List Char}
    (hrest : breaks rest = true) :
    Cuts (.word first :: Enumeration.partKinds parts) (qualifiedName first parts).toList rest := by
  obtain ⟨hfirst, hparts⟩ := List.forall_mem_cons.mp h
  obtain ⟨hcuts, hbreaks⟩ := cuts_parts parts hparts hrest
  rw [toList_qualifiedName]
  exact (oneToken_word hfirst.identifier hbreaks).cuts.append hcuts

/-- The tokens of a qualified name are its words and the marks between them. -/
theorem nameKinds_qualifiedName {first : String} {parts : List String} (h : ∀ word ∈ first :: parts, IsSolid word) :
    nameKinds (qualifiedName first parts) = .word first :: Enumeration.partKinds parts := by
  have hcuts : Cuts _ _ [] := cuts_qualifiedName h rfl
  obtain ⟨ts, hkinds, htokens⟩ := hcuts .start
  rw [nameKinds, ← hkinds, ← List.append_nil (qualifiedName first parts).toList, htokens, tokensFrom_nil, List.append_nil]

namespace IsTypeName

variable {name : String}

/-- The name of a type is cut into its tokens. -/
theorem cuts (h : IsTypeName name) {rest : List Char} (hrest : breaks rest = true) : Cuts (nameKinds name) name.toList rest := by
  obtain ⟨first, parts, rfl, -, hwords⟩ := h
  rw [nameKinds_qualifiedName hwords]
  exact cuts_qualifiedName hwords hrest

/-- A name begins with a letter or an underscore. -/
theorem head (h : IsTypeName name) : ∃ c cs, name.toList = c :: cs ∧ Text.isWordStart c = true := by
  obtain ⟨first, parts, rfl, -, hwords⟩ := h
  have hfirst := (hwords first List.mem_cons_self).identifier
  unfold isIdentifier at hfirst
  rw [toList_qualifiedName]
  split at hfirst
  · cases hfirst
  · rename_i c cs hcs
    exact ⟨c, cs ++ _, by rw [hcs]; rfl, (Bool.and_eq_true_iff.mp hfirst).1⟩

end IsTypeName

/-- An integer that is not the least one is cut into its digits, with a minus in front if it is negative. -/
theorem cuts_int {value : Int64} (h : value ≠ .minValue) {rest : List Char} (hrest : breaks rest = true) :
    Cuts (intKinds value) (toString value.toInt).toList rest := by
  have hlow : -(2 : Int) ^ 63 < value.toInt := by
    have hle := value.le_toInt
    have hne : value.toInt ≠ -2 ^ 63 := fun heq => h (Int64.toInt_inj.mp (heq.trans Int64.toInt_minValue.symm))
    omega
  unfold intKinds
  cases hvalue : value.toInt with
  | ofNat n =>
    have hhigh : (n : Int) < 2 ^ 63 := lt_of_eq_of_lt hvalue.symm value.toInt_lt
    rw [toList_toString_ofNat]
    exact (oneToken_int (by change n < 2 ^ 63; omega) hrest).cuts
  | negSucc n =>
    rw [hvalue] at hlow
    rw [toList_toString_negSucc]
    have hminus : OneToken (.mark '-') ['-'] (Nat.toDigits 10 (n + 1) ++ rest) := oneToken_mark rfl rfl
    exact hminus.cuts.append (oneToken_int (by change n + 1 < 2 ^ 63; omega) hrest).cuts

/-- A spelled argument does not begin with `<`. -/
theorem Catalog.head?_argText {c : Catalog} {a : TemplateArg} (h : c.Spellable a) :
    ∃ d ds, (c.argText true a).toList = d :: ds ∧ d ≠ '<' := by
  cases a with
  | int value =>
    rw [argText]
    cases value.toInt with
    | ofNat n =>
      obtain ⟨d, ds, hds⟩ := List.exists_cons_of_ne_nil (Nat.toDigits_ne_nil (n := n) (b := 10))
      have hdigit : d.isDigit = true :=
        Nat.isDigit_of_mem_toDigits (by decide) (by decide) (hds ▸ List.mem_cons_self)
      exact ⟨d, ds, (toList_toString_ofNat n).trans hds, by rintro rfl; cases hdigit⟩
    | negSucc n => exact ⟨'-', _, String.toList_append, by decide⟩
  | type p =>
    obtain ⟨d, ds, hds, hstart⟩ := (h.1 p (by rw [TemplateArg.uses_type]; exact List.mem_cons_self)).head
    rw [argText_type, leadText]
    split
    · exact ⟨'c', _, by rw [String.toList_append, String.toList_append, String.toList_append]; rfl, by decide⟩
    · refine ⟨d, _, by rw [String.toList_append, String.toList_append, String.toList_append, hds]; rfl, ?_⟩
      rintro rfl
      cases hstart

/-- What stands in front of a type is cut into its tokens. -/
theorem cuts_lead (m : Modifiers) (rest : List Char) : Cuts (leadKinds m) (Catalog.leadText m).toList rest := by
  unfold leadKinds Catalog.leadText
  split
  · have hword : OneToken (.word "const") "const".toList ([' '] ++ rest) := oneToken_word (by decide) rfl
    exact hword.cuts.append (.blank rest)
  · exact .nil rest

/-- What stands behind a type is cut into its tokens, and nothing in front goes on with it. -/
theorem cuts_tail (m : Modifiers) {rest : List Char} (hrest : breaks rest = true) :
    Cuts (tailKinds m.shape) (Catalog.tailText m).toList rest ∧ breaks ((Catalog.tailText m).toList ++ rest) = true := by
  have hstars : ∀ (n : Nat) (rest : List Char), Cuts (List.replicate n (.mark '*')) (List.replicate n '*') rest := by
    intro n
    induction n with
    | zero => exact fun rest => .nil rest
    | succ n ih =>
      intro rest
      have hstar : OneToken (.mark '*') ['*'] (List.replicate n '*' ++ rest) := oneToken_mark rfl rfl
      exact hstar.cuts.append (ih rest)
  have hreference : ∀ (isReference : Bool) (rest : List Char),
      Cuts (if isReference then [.mark '&'] else []) (if isReference then "&" else "").toList rest := by
    intro isReference rest
    cases isReference with
    | true => exact (oneToken_mark rfl rfl).cuts
    | false => exact .nil rest
  have hpointer : ∀ isConstPointer : Bool,
      Cuts (if isConstPointer then [.word "const"] else []) (if isConstPointer then " const" else "").toList rest := by
    intro isConstPointer
    cases isConstPointer with
    | true => exact (Cuts.blank _).append (oneToken_word (by decide) hrest).cuts
    | false => exact .nil rest
  rw [tailKinds, Catalog.tailText, String.toList_append, String.toList_append, String.toList_ofList]
  refine ⟨((hstars _ _).append (hreference _ _)).append (hpointer _), ?_⟩
  cases m.shape.pointerDepth with
  | succ n => rfl
  | zero =>
    cases m.shape.isReference with
    | true => rfl
    | false =>
      cases m.shape.isConstPointer with
      | true => rfl
      | false => exact hrest

/-- The brackets around arguments, in front of what does not go on with a word. -/
theorem Catalog.cuts_bracketed {c : Catalog} {args : List TemplateArg} (hargs : ∀ a ∈ args, c.Spellable a) {rest : List Char}
    (h : ∀ a ∈ args, ∀ rest, breaks rest = true → Cuts (c.argKinds a) (c.argText true a).toList rest) (hrest : breaks rest = true) :
    Cuts (bracketKinds (args.map c.argKinds)) (bracketed (args.map (c.argText true))).toList rest ∧
      breaks ((bracketed (args.map (c.argText true))).toList ++ rest) = true := by
  cases args with
  | nil => exact ⟨.nil rest, hrest⟩
  | cons a args =>
    obtain ⟨d, ds, hds, hd⟩ := head?_argText (hargs a List.mem_cons_self)
    have htext : (bracketed ((a :: args).map (c.argText true))).toList =
        '<' :: ([',', ' '].intercalate ((a :: args).map fun a => (c.argText true a).toList) ++ ['>']) := by
      rw [bracketed, List.map_cons, List.isEmpty_cons, if_neg Bool.false_ne_true, String.toList_append, String.toList_append,
        String.toList_intercalate, ← List.map_cons, List.map_map]
      rfl
    have hhead : ∃ es, [',', ' '].intercalate ((a :: args).map fun a => (c.argText true a).toList) = d :: es := by
      cases args with
      | nil => exact ⟨ds, by rw [List.map_singleton, List.intercalate_singleton, hds]⟩
      | cons b args => exact ⟨_, by rw [List.map_cons, List.map_cons, List.intercalate_cons_cons, hds]; rfl⟩
    have hclose : Cuts [.mark '>'] ['>'] rest := (oneToken_mark rfl rfl).cuts
    have hentries : Cuts _ _ (['>'] ++ rest) := cuts_intercalate (a :: args) h rfl
    rw [htext]
    refine ⟨(OneToken.cuts (oneToken_mark rfl ?_)).append (hentries.append hclose), rfl⟩
    obtain ⟨es, hes⟩ := hhead
    rw [hes]
    simpa using hd

/-- A spelled argument is cut into its tokens. -/
theorem Catalog.cuts_argText {c : Catalog} (a : TemplateArg) :
    c.Spellable a → ∀ rest, breaks rest = true → Cuts (c.argKinds a) (c.argText true a).toList rest := by
  induction a using TemplateArg.induction with
  | hint value =>
    intro h rest hrest
    have hmin := h.2
    rw [TemplateArg.ints, List.mem_singleton] at hmin
    rw [argKinds, argText]
    exact cuts_int (Ne.symm hmin) hrest
  | htype p ih =>
    intro h rest hrest
    have hname := h.1 p (by rw [TemplateArg.uses_type]; exact List.mem_cons_self)
    obtain ⟨htail, hbreaks⟩ := cuts_tail p.modifiers hrest
    obtain ⟨hargs, hbreaks⟩ := cuts_bracketed (fun a ha => h.arg ha) (fun a ha => ih a ha (h.arg ha)) hbreaks
    rw [argKinds_type, argText_type, String.toList_append, String.toList_append, String.toList_append]
    have hfront := (cuts_lead p.modifiers _).append (hname.cuts hbreaks)
    exact (hfront.append hargs).append htail

/-! ## Folding -/

/-- A pointer that does not change is a pointer, in every use of a type in the argument. -/
def TemplateArg.Upright (a : TemplateArg) : Prop :=
  ∀ p ∈ a.uses, p.modifiers.shape.isConstPointer = true → 0 < p.modifiers.shape.pointerDepth

/-- The arguments of an upright type are upright. -/
theorem TemplateArg.Upright.arg {p : Property} (h : (TemplateArg.type p).Upright) {a : TemplateArg} (ha : a ∈ p.templateArgs) :
    a.Upright := by
  rw [Upright, TemplateArg.uses_type] at h
  exact fun q hq => h q (List.mem_cons_of_mem _ (mem_usesOfArgs ha hq))

/-- Marks are not folded. -/
theorem unfolded_of_marks {kinds : List Token.Kind} (h : ∀ kind ∈ kinds, kind.word? = none) (next : Option String) :
    Unfolded kinds next := by
  induction kinds with
  | nil => trivial
  | cons kind kinds ih =>
    obtain ⟨hkind, hkinds⟩ := List.forall_mem_cons.mp h
    refine ⟨?_, ih hkinds⟩
    intro name hname
    rw [hkind] at hname
    cases hname

/-- A solid word is not folded. -/
theorem IsSolid.unfolded {word : String} (h : IsSolid word) : Unfolded [.word word] none := by
  refine ⟨?_, trivial⟩
  rintro _ ⟨⟩
  exact ⟨h.ne_short, h.ne_long, Or.inr rfl⟩

/-- The parts of a name are not folded, and begin with no word. -/
theorem unfolded_parts (parts : List String) (h : ∀ part ∈ parts, IsSolid part) :
    Unfolded (Enumeration.partKinds parts) none ∧ wordAhead (Enumeration.partKinds parts) none = none := by
  induction parts with
  | nil => exact ⟨trivial, rfl⟩
  | cons part parts ih =>
    obtain ⟨hpart, hparts⟩ := List.forall_mem_cons.mp h
    obtain ⟨hunfolded, hahead⟩ := ih hparts
    refine ⟨?_, rfl⟩
    have hhead : Unfolded ([.mark ':', .mark ':'] ++ [.word part]) none :=
      (unfolded_append _ _ _).mpr ⟨unfolded_of_marks (by simp [Token.Kind.word?]) _, hpart.unfolded⟩
    have hall := (unfolded_append ([.mark ':', .mark ':'] ++ [.word part]) (Enumeration.partKinds parts) none).mpr
    rw [hahead] at hall
    exact hall ⟨hhead, hunfolded⟩

/-- The name of a type is not folded. -/
theorem IsTypeName.unfolded {name : String} (h : IsTypeName name) : Unfolded (nameKinds name) none := by
  obtain ⟨first, parts, rfl, -, hwords⟩ := h
  obtain ⟨hfirst, hparts⟩ := List.forall_mem_cons.mp hwords
  obtain ⟨hunfolded, hahead⟩ := unfolded_parts parts hparts
  rw [nameKinds_qualifiedName hwords]
  have hall := (unfolded_append [.word first] (Enumeration.partKinds parts) none).mpr
  rw [hahead] at hall
  exact hall ⟨hfirst.unfolded, hunfolded⟩

/-- What stands behind a type is not folded. -/
theorem unfolded_tailKinds (s : Shape) : Unfolded (tailKinds s) none := by
  rw [tailKinds, unfolded_append]
  refine ⟨unfolded_of_marks ?_ _, ?_⟩
  · intro kind hkind
    rcases List.mem_append.mp hkind with hstar | hreference
    · rw [List.eq_of_mem_replicate hstar]
      rfl
    · split at hreference
      · rw [List.mem_singleton.mp hreference]
        rfl
      · exact absurd hreference List.not_mem_nil
  · split
    · exact IsSolid.unfolded ⟨by decide, by decide, by decide⟩
    · trivial

/-- No word stands right behind the name of a type and its arguments. -/
theorem wordAhead_bracketKinds (args : List (List Token.Kind)) {s : Shape} (hs : s.isConstPointer = true → 0 < s.pointerDepth) :
    wordAhead (bracketKinds args ++ tailKinds s) none = none := by
  unfold bracketKinds
  split
  · rw [List.nil_append, tailKinds]
    cases hdepth : s.pointerDepth with
    | succ n => rfl
    | zero =>
      have hpointer : s.isConstPointer = false := Bool.eq_false_iff.mpr fun hp => absurd (hs hp) (by omega)
      rw [hpointer]
      cases s.isReference <;> rfl
  · rfl

/-- No word of a spelled argument is folded. -/
theorem Catalog.unfolded_argKinds {c : Catalog} (a : TemplateArg) :
    c.Spellable a → a.Upright → Unfolded (c.argKinds a) none := by
  induction a using TemplateArg.induction with
  | hint value =>
    intro _ _
    rw [argKinds, intKinds]
    split <;> exact unfolded_of_marks (by simp [Token.Kind.word?]) none
  | htype p ih =>
    intro h hup
    have hmem : p ∈ (TemplateArg.type p).uses := by rw [TemplateArg.uses_type]; exact List.mem_cons_self
    have hargs : Unfolded (bracketKinds (p.templateArgs.map c.argKinds)) (wordAhead (tailKinds p.modifiers.shape) none) := by
      unfold bracketKinds
      split
      · trivial
      · refine (unfolded_append [.mark '<'] _ _).mpr ⟨unfolded_of_marks (by simp [Token.Kind.word?]) _, ?_⟩
        refine (unfolded_append _ [.mark '>'] _).mpr ⟨?_, unfolded_of_marks (by simp [Token.Kind.word?]) _⟩
        exact unfolded_intercalate p.templateArgs fun a ha => ih a ha (h.arg ha) (hup.arg ha)
    have hlead : ∀ next, Unfolded (leadKinds p.modifiers) next := by
      intro next
      unfold leadKinds
      split
      · refine ⟨?_, trivial⟩
        rintro _ ⟨⟩
        exact ⟨by decide, by decide, Or.inl (by decide)⟩
      · trivial
    have hahead := wordAhead_bracketKinds (p.templateArgs.map c.argKinds) (hup p hmem)
    rw [wordAhead_append] at hahead
    rw [argKinds_type, unfolded_append, unfolded_append, unfolded_append, hahead]
    exact ⟨⟨⟨hlead _, (h.1 p hmem).unfolded⟩, hargs⟩, unfolded_tailKinds _⟩

end HeaderAtlas
