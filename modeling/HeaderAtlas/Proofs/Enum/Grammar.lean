import HeaderAtlas.Declaration.EnumBody
import HeaderAtlas.Proofs.Session

/-!
# The grammar of enums

An annotated enum as it is written, and what it says. A value is a tree: operands joined by operators, the operators of one level
of parentheses taken from the left. `Operand.kinds`, `Value.kinds` and `Declaration.kinds` spell the trees in tokens, `Operand.eval`
and `Value.eval` give their meaning, and `Denotes` says which values a list of entries has.

A name in a value may be that of an entry in another enum. The entries that the enums of a catalog have defined are kept as a list
from the first to the last (`Catalog.Defines`); every session has one.
-/

namespace HeaderAtlas

namespace Enumeration

/-! ## Syntax -/

/-- What joins two operands. -/
inductive Operator where
  | shift
  | union
  deriving DecidableEq, Repr

mutual

/-- An operand of a value. -/
inductive Operand where
  | int (value : Int64)
  | minus (operand : Operand)
  /-- A name with its parts behind `::`. The word `FLAG` is no name. -/
  | name (first : String) (parts : List String) (h : first ≠ "FLAG")
  | flag (bit : Value)
  | group (value : Value)

/-- A value: an operand, or a value to which an operator joins one more operand. -/
inductive Value where
  | operand (operand : Operand)
  | join (value : Value) (operator : Operator) (operand : Operand)

end

/-- An entry of an enum, with its value if it has one. -/
structure Entry where
  name : String
  value : Option Value

/-- An annotated enum. Without the word `class` in front its name is not a word that could stand there. -/
structure Declaration where
  isScoped : Bool
  name : String
  entries : List Entry
  entries_ne_nil : entries ≠ []
  name_of_unscoped : isScoped = false → name ≠ "class" ∧ name ≠ "struct"

/-! ## Spelling -/

/-- The token of an operator. -/
def Operator.kind : Operator → Token.Kind
  | shift => .shiftLeft
  | union => .mark '|'

/-- The tokens of the parts of a name. -/
def partKinds (parts : List String) : List Token.Kind := parts.flatMap fun part => [.mark ':', .mark ':', .word part]

mutual

/-- The tokens of an operand. -/
def Operand.kinds : Operand → List Token.Kind
  | .int value => [.int value]
  | .minus operand => .mark '-' :: operand.kinds
  | .name first parts _ => .word first :: partKinds parts
  | .flag bit => .word "FLAG" :: .mark '(' :: (bit.kinds ++ [.mark ')'])
  | .group value => .mark '(' :: (value.kinds ++ [.mark ')'])

/-- The tokens of a value. -/
def Value.kinds : Value → List Token.Kind
  | .operand operand => operand.kinds
  | .join value operator operand => value.kinds ++ operator.kind :: operand.kinds

end

/-- The tokens of an entry. -/
def Entry.kinds (e : Entry) : List Token.Kind :=
  .word e.name ::
    match e.value with
    | some value => .mark '=' :: value.kinds
    | none => []

/-- The tokens of entries, with the marks between them. -/
def entryKinds (entries : List Entry) : List Token.Kind := [Token.Kind.mark ','].intercalate (entries.map Entry.kinds)

/-- The tokens of an enum, from its marker to the `}` that closes it. -/
def Declaration.kinds (d : Declaration) : List Token.Kind :=
  [.word "REFLECTED", .mark '(', .mark ')', .word "enum"] ++ (if d.isScoped then [.word "class"] else []) ++
    [.word d.name, .mark '{'] ++ entryKinds d.entries ++ [.mark '}']

/-! ## Meaning -/

/-- A value times the power of two of another, in 64 bits that wrap; nothing is left of it beyond 0 to 63. -/
def scaled (value amount : Int64) : Int64 :=
  if 0 ≤ amount.toInt ∧ amount.toInt ≤ 63 then .ofInt (value.toInt * Int.pow 2 amount.toInt.toNat) else 0

/-- An operator applied. -/
def Operator.apply : Operator → Int64 → Int64 → Int64
  | shift, value, amount => scaled value amount
  | union, value, other => value ||| other

mutual

/-- The value of an operand where names have the given values; a name counts by its last part. -/
def Operand.eval (names : String → Int64) : Operand → Int64
  | .int value => value
  | .minus operand => -(operand.eval names)
  | .name first parts _ => names (parts.getLastD first)
  | .flag bit => scaled 1 (bit.eval names)
  | .group value => value.eval names

/-- The value of a value where names have the given values. -/
def Value.eval (names : String → Int64) : Value → Int64
  | .operand operand => operand.eval names
  | .join value operator operand => operator.apply (value.eval names) (operand.eval names)

end

/-- The first entry of a name. -/
def first? (values : List EnumValue) (name : String) : Option Int64 :=
  (values.find? (·.name == name)).map EnumValue.value

/-- What a name means behind the entries `prior` of its enum and the entries `outer` of earlier enums. -/
def meaning (outer prior : List EnumValue) (name : String) : Int64 :=
  ((first? prior name).or (first? outer name)).getD 0

/-- The value of an entry behind the entries `prior` of its enum. -/
def Entry.valueAfter (outer prior : List EnumValue) (e : Entry) : Int64 :=
  match e.value with
  | some value => value.eval (meaning outer prior)
  | none => (prior.getLast?.map (·.value + 1)).getD 0

/-- The type an enum declares if its entries have these values. -/
def Declaration.type (d : Declaration) (values : List EnumValue) : TypeDef :=
  { name := d.name, flags := { isScopedEnum := d.isScoped }, enumValues := values }

/-- The entries have these names and values: each entry's value is told by the entries in front of it. -/
structure Denotes (outer : List EnumValue) (entries : List Entry) (values : List EnumValue) : Prop where
  length_eq : values.length = entries.length
  getElem?_eq : ∀ (i : Nat) (e : Entry), entries[i]? = some e →
    values[i]? = some ⟨e.name, e.valueAfter outer (values.take i)⟩

/-- The values of entries behind the entries `prior`, one after another. -/
def valuesAfter (outer : List EnumValue) : List EnumValue → List Entry → List EnumValue
  | prior, [] => prior
  | prior, e :: entries => valuesAfter outer (prior ++ [⟨e.name, e.valueAfter outer prior⟩]) entries

theorem prefix_valuesAfter (outer : List EnumValue) (entries : List Entry) :
    ∀ prior, prior <+: valuesAfter outer prior entries := by
  induction entries with
  | nil => exact fun prior => List.prefix_refl prior
  | cons e entries ih => exact fun prior => (List.prefix_append prior _).trans (ih _)

/-- Entry by entry, behind entries that are there already. -/
theorem valuesAfter_spec (outer : List EnumValue) (entries : List Entry) :
    ∀ prior, (valuesAfter outer prior entries).length = prior.length + entries.length ∧
      ∀ (i : Nat) (e : Entry), entries[i]? = some e →
        (valuesAfter outer prior entries)[prior.length + i]? =
          some ⟨e.name, e.valueAfter outer ((valuesAfter outer prior entries).take (prior.length + i))⟩ := by
  induction entries with
  | nil => exact fun prior => ⟨rfl, fun i e h => nomatch h⟩
  | cons e entries ih =>
    intro prior
    have hprefix := prefix_valuesAfter outer (e :: entries) prior
    obtain ⟨hlength, hget⟩ := ih (prior ++ [⟨e.name, e.valueAfter outer prior⟩])
    have hnext := prefix_valuesAfter outer entries (prior ++ [⟨e.name, e.valueAfter outer prior⟩])
    rw [valuesAfter] at hprefix ⊢
    generalize valuesAfter outer (prior ++ [⟨e.name, e.valueAfter outer prior⟩]) entries = values at *
    rw [List.length_append, List.length_singleton] at hlength hget
    refine ⟨by rw [hlength, List.length_cons]; omega, ?_⟩
    intro i e' he'
    cases i with
    | zero =>
      obtain rfl : e = e' := Option.some.inj he'
      rw [Nat.add_zero, ← List.prefix_iff_eq_take.mp hprefix]
      obtain ⟨rest, rfl⟩ := hnext
      rw [List.append_assoc, List.getElem?_append_right (Nat.le_refl _), Nat.sub_self]
      rfl
    | succ i =>
      have := hget i e' he'
      rwa [Nat.add_assoc, Nat.add_comm 1 i] at this

/-- Entries have the values they get one after another. -/
theorem denotes_valuesAfter (outer : List EnumValue) (entries : List Entry) :
    Denotes outer entries (valuesAfter outer [] entries) := by
  obtain ⟨hlength, hget⟩ := valuesAfter_spec outer entries []
  simp only [List.length_nil, Nat.zero_add] at hlength hget
  exact ⟨hlength, hget⟩

/-- Entries have no other values. -/
theorem Denotes.eq_valuesAfter {outer : List EnumValue} {entries : List Entry} {values : List EnumValue}
    (h : Denotes outer entries values) : values = valuesAfter outer [] entries := by
  have h' := denotes_valuesAfter outer entries
  generalize valuesAfter outer [] entries = values' at h'
  -- the values agree up to every place, because those in front of a place tell the one at it
  have htake : ∀ n, values.take n = values'.take n := by
    intro n
    induction n with
    | zero => rw [List.take_zero, List.take_zero]
    | succ n ih =>
      rw [List.take_add_one, List.take_add_one, ih]
      cases he : entries[n]? with
      | some e => rw [h.getElem?_eq n e he, h'.getElem?_eq n e he, ih]
      | none =>
        have hn : entries.length ≤ n := List.getElem?_eq_none_iff.mp he
        rw [List.getElem?_eq_none (h.length_eq ▸ hn), List.getElem?_eq_none (h'.length_eq ▸ hn)]
  have hall := htake entries.length
  rwa [← h.length_eq, List.take_length, h.length_eq, ← h'.length_eq, List.take_length] at hall

/-! ## Shifts -/

theorem shiftLeft_of_lt (value : Int64) {n : Nat} (hn : n < 64) :
    value <<< Int64.ofInt n = .ofInt (value.toInt * Int.pow 2 n) := by
  have hmod : ∀ n : Nat, n < 64 → ((BitVec.ofInt 64 n).smod 64).toNat = n := by decide +kernel
  have hpow : ∀ n < 64, BitVec.ofInt 64 (Int.pow 2 n) = BitVec.twoPow 64 n := by decide +kernel
  apply Int64.toBitVec_inj.mp
  calc (value <<< Int64.ofInt n).toBitVec
      = value.toBitVec <<< ((BitVec.ofInt 64 n).smod 64).toNat := by
        rw [Int64.toBitVec_shiftLeft, BitVec.shiftLeft_eq', Int64.toBitVec_ofInt]
    _ = value.toBitVec * BitVec.twoPow 64 n := by rw [hmod n hn, BitVec.shiftLeft_eq_mul_twoPow]
    _ = BitVec.ofInt 64 (value.toInt * Int.pow 2 n) := by
        rw [BitVec.ofInt_mul, hpow n hn, ← Int64.toInt_toBitVec, BitVec.ofInt_toInt]
    _ = (Int64.ofInt (value.toInt * Int.pow 2 n)).toBitVec := (Int64.toBitVec_ofInt _).symm

theorem shiftedLeft_eq_scaled (value amount : Int64) : shiftedLeft value amount = scaled value amount := by
  have hrange : (0 ≤ amount ∧ amount < 64) ↔ 0 ≤ amount.toInt ∧ amount.toInt ≤ 63 := by
    have h64 : (64 : Int64).toInt = 63 + 1 := rfl
    rw [Int64.le_iff_toInt_le, Int64.lt_iff_toInt_lt, h64]
    exact and_congr_right fun _ => Int.lt_add_one_iff
  unfold shiftedLeft scaled
  by_cases h : 0 ≤ amount.toInt ∧ amount.toInt ≤ 63
  · obtain ⟨n, hn⟩ := Int.eq_ofNat_of_zero_le h.1
    have hamount : amount = Int64.ofInt n := by rw [← hn, Int64.ofInt_toInt]
    have hlt : n < 64 := by omega
    rw [if_pos h, if_pos (hrange.mpr h), hn, Int.toNat_natCast, hamount, shiftLeft_of_lt value hlt]
  · rw [if_neg h, if_neg (mt hrange.mp h)]

end Enumeration

/-! ## The entries of earlier enums -/

/-- The enum entries that a change defines. -/
def Change.defined : Change → List EnumValue
  | register d => d.enumValues
  | _ => []

/-- The enums declared in the catalog so far have defined these entries, from the first to the last. -/
inductive Catalog.Defines : Catalog → List EnumValue → Prop where
  | empty : Defines .empty []
  | change {c : Catalog} {values : List EnumValue} (h : Defines c values) (x : Change) :
    Defines (x.apply c) (values ++ x.defined)
  | settle {c : Catalog} {values : List EnumValue} (h : Defines c values) : Defines c.settle.2 values

namespace Catalog

open Enumeration (first?)

theorem get?_insertNew (t : Table Int64) (name other : String) (value : Int64) :
    (t.insertNew name value).get? other = (t.get? other).or (if name = other then some value else none) := by
  unfold Table.insertNew
  split
  · rename_i h
    by_cases hname : name = other
    · subst hname
      rw [Option.or_of_isSome h]
    · rw [if_neg hname, Option.or_none]
  · simp only [Table.get?, List.lookup_append, List.lookup_cons, List.lookup_nil]
    by_cases hname : name = other
    · simp [hname]
    · simp [hname, beq_false_of_ne (Ne.symm hname)]

/-- A name keeps the value it has; else it gets that of its first entry. -/
theorem get?_defineLiterals (values : List EnumValue) (name : String) :
    ∀ t : Table Int64, (defineLiterals t values).get? name = (t.get? name).or (first? values name) := by
  induction values with
  | nil => exact fun t => (Option.or_none).symm
  | cons v values ih =>
    intro t
    have hcons : first? (v :: values) name = (if v.name = name then some v.value else none).or (first? values name) := by
      unfold first?
      by_cases h : v.name = name <;> simp [h]
    rw [hcons, ← Option.or_assoc, ← get?_insertNew]
    exact ih _

theorem literals_register (c : Catalog) (d : TypeDef) :
    (c.register d).2.literals = defineLiterals c.literals d.enumValues := by
  unfold register
  cases c.lookup d.name <;> rfl

/-- Only a declaration defines entries. -/
theorem literals_change (c : Catalog) (x : Change) : (x.apply c).literals = defineLiterals c.literals x.defined := by
  cases x with
  | register d => exact c.literals_register d
  | placeholder name =>
    rcases c.placeholder_snd name with h | ⟨-, h⟩
    · rw [Change.apply, h]
      rfl
    · rw [Change.apply, h]
      rfl
  | edit id e => rfl
  | addFunction m => rfl
  | addGlobal p => rfl

theorem foldl_keeps {α β γ : Type} {g : β → γ} {f : β → α → β} (hf : ∀ b a, g (f b a) = g b) (l : List α) :
    ∀ b, g (l.foldl f b) = g b := by
  induction l with
  | nil => exact fun b => rfl
  | cons a l ih => exact fun b => (ih _).trans (hf b a)

theorem literals_settle (c : Catalog) : c.settle.2.literals = c.literals := by
  have hplaceholder : ∀ (s : Catalog × Nat) (i : Nat), (settlePlaceholder s i).1.literals = s.1.literals := by
    intro s i
    unfold settlePlaceholder
    dsimp only
    split
    · rfl
    · split
      · split <;> rfl
      · rfl
  have hsuperseded : ∀ (s : Catalog × Nat) (pair : TypeId × TypeId),
      (settleSuperseded s pair).1.literals = s.1.literals := by
    intro s pair
    unfold settleSuperseded
    split <;> rfl
  have hbase : ∀ (id : TypeId) (c : Catalog) (base : TypeId), (linkBase id c base).literals = c.literals := by
    intro id c base
    unfold linkBase
    dsimp only
    split <;> rfl
  have hbases : ∀ (c : Catalog) (id : TypeId), (c.linkBases id).literals = c.literals :=
    fun c id => foldl_keeps (g := Catalog.literals) (hbase id) _ c
  have hredirects : c.settleRedirects.1.literals = c.literals :=
    (foldl_keeps (g := fun s : Catalog × Nat => s.1.literals) hsuperseded _ _).trans
      (foldl_keeps (g := fun s : Catalog × Nat => s.1.literals) hplaceholder _ (c, 0))
  exact (foldl_keeps (g := Catalog.literals) hbases _ c.settleRedirects.1).trans hredirects

/-- A name has the value of the first entry that was defined with it. -/
theorem Defines.literal? {c : Catalog} {values : List EnumValue} (h : c.Defines values) (name : String) :
    c.literal? name = first? values name := by
  induction h with
  | empty => rfl
  | @change c values h x ih =>
    have happend : first? (values ++ x.defined) name = (first? values name).or (first? x.defined name) := by
      simp only [first?, List.find?_append, Option.map_or]
    rw [happend, ← ih, Catalog.literal?, literals_change, get?_defineLiterals]
    rfl
  | @settle c values h ih => rw [Catalog.literal?, literals_settle, ← ih, Catalog.literal?]

end Catalog

/-- The enums of every session have defined some entries. -/
theorem session_defines (o : Origin) (calls : List Call) : ∃ values, (session o calls).catalog.Defines values := by
  refine session_keeps (P := fun c => ∃ values, c.Defines values) ⟨[], .empty⟩ ?_ ?_ o calls
  · rintro c x ⟨values, h⟩
    exact ⟨values ++ x.defined, h.change x⟩
  · rintro c ⟨values, h⟩
    exact ⟨values, h.settle⟩

end HeaderAtlas
