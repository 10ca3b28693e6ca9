import HeaderAtlas.Proofs.Enum.Reading

/-!
# Precedence in values

To a compiler `<<` binds tighter than `|`: a value is a union of terms, and a term is an operand with the shifts behind it
(`Expression`, `Term`, `Factor`). `Expression.flat` is the same text as the grammar of `HeaderAtlas.Proofs.Enum.Grammar` has it,
with the operators of one level taken from the left, and every value is the flat form of an expression.

Taken from the left, a shift behind a `|` moves all that stands before it on its level (`Term.eval_joined`). What is read is
therefore the value of the expression where behind a `|` shifts stand in parentheses only (`Expression.grouped`). Elsewhere the terms
in front are moved up with the last one.
-/

namespace HeaderAtlas

namespace Enumeration

/-! ## Syntax -/

mutual

/-- What operators join. -/
inductive Factor where
  | int (value : Int64)
  | minus (factor : Factor)
  /-- A name with its parts behind `::`. The word `FLAG` is no name. -/
  | name (first : String) (parts : List String) (h : first ≠ "FLAG")
  | flag (bit : Expression)
  | group (value : Expression)

/-- A factor, or a term shifted by a factor. -/
inductive Term where
  | factor (factor : Factor)
  | shift (term : Term) (amount : Factor)

/-- A term, or an expression to which `|` joins one more term. -/
inductive Expression where
  | term (term : Term)
  | union (front : Expression) (last : Term)

end

mutual

/-- A factor as an operand. -/
def Factor.operand : Factor → Operand
  | .int value => .int value
  | .minus f => .minus f.operand
  | .name first parts h => .name first parts h
  | .flag e => .flag e.flat
  | .group e => .group e.flat

/-- A term as a value. -/
def Term.flat : Term → Value
  | .factor f => .operand f.operand
  | .shift t amount => .join t.flat .shift amount.operand

/-- A term written behind a value and `|`. -/
def Term.joined (value : Value) : Term → Value
  | .factor f => .join value .union f.operand
  | .shift t amount => .join (t.joined value) .shift amount.operand

/-- An expression as a value: the same tokens, with all operators of a level alike. -/
def Expression.flat : Expression → Value
  | .term t => t.flat
  | .union front last => last.joined front.flat

end

/-- A shift behind an expression belongs to its last term. -/
def Expression.shiftLast (amount : Factor) : Expression → Expression
  | .term t => .term (.shift t amount)
  | .union front last => .union front (.shift last amount)

theorem Expression.flat_shiftLast (amount : Factor) (e : Expression) :
    (e.shiftLast amount).flat = .join e.flat .shift amount.operand := by
  cases e with
  | term t => rw [shiftLast, Expression.flat, Term.flat, Expression.flat]
  | union front last => rw [shiftLast, Expression.flat, Term.joined, Expression.flat]

mutual

theorem exists_operand_eq : ∀ o : Operand, ∃ f : Factor, f.operand = o
  | .int value => ⟨.int value, by rw [Factor.operand]⟩
  | .minus operand => by
    obtain ⟨f, hf⟩ := exists_operand_eq operand
    exact ⟨.minus f, by rw [Factor.operand, hf]⟩
  | .name first parts h => ⟨.name first parts h, by rw [Factor.operand]⟩
  | .flag bit => by
    obtain ⟨e, he⟩ := exists_flat_eq bit
    exact ⟨.flag e, by rw [Factor.operand, he]⟩
  | .group value => by
    obtain ⟨e, he⟩ := exists_flat_eq value
    exact ⟨.group e, by rw [Factor.operand, he]⟩

/-- Every value is the flat form of an expression. -/
theorem exists_flat_eq : ∀ v : Value, ∃ e : Expression, e.flat = v
  | .operand operand => by
    obtain ⟨f, hf⟩ := exists_operand_eq operand
    exact ⟨.term (.factor f), by rw [Expression.flat, Term.flat, hf]⟩
  | .join value operator operand => by
    obtain ⟨e, he⟩ := exists_flat_eq value
    obtain ⟨f, hf⟩ := exists_operand_eq operand
    cases operator with
    | shift => exact ⟨e.shiftLast f, by rw [Expression.flat_shiftLast, he, hf]⟩
    | union => exact ⟨.union e (.factor f), by rw [Expression.flat, Term.joined, he, hf]⟩

end

/-! ## Meaning -/

/-- A value shifted by an amount, in 64 bits that wrap. -/
def shifted (value amount : Int64) : Int64 := .ofInt (value.toInt * Int.pow 2 amount.toInt.toNat)

mutual

/-- The value of a factor where names have the given values. -/
def Factor.value (names : String → Int64) : Factor → Int64
  | .int value => value
  | .minus f => -(f.value names)
  | .name first parts _ => names (parts.getLastD first)
  | .flag e => shifted 1 (e.value names)
  | .group e => e.value names

/-- The value of a term: each `<<` shifts what stands before it in the term. -/
def Term.value (names : String → Int64) : Term → Int64
  | .factor f => f.value names
  | .shift t amount => shifted (t.value names) (amount.value names)

/-- The value of an expression: the union of its terms. -/
def Expression.value (names : String → Int64) : Expression → Int64
  | .term t => t.value names
  | .union front last => front.value names ||| last.value names

end

/-- The amounts a term is shifted by, from the first to the last. -/
def Term.amounts (names : String → Int64) : Term → List Int64
  | .factor _ => []
  | .shift t amount => t.amounts names ++ [amount.value names]

/-- An amount that 64 bits can be shifted by. -/
def isAmount (amount : Int64) : Bool := 0 ≤ amount.toInt ∧ amount.toInt ≤ 63

mutual

/-- All shifts in a factor are by amounts from 0 to 63. -/
def Factor.inRange (names : String → Int64) : Factor → Bool
  | .int _ => true
  | .minus f => f.inRange names
  | .name _ _ _ => true
  | .flag e => e.inRange names && isAmount (e.value names)
  | .group e => e.inRange names

/-- All shifts in a term are by amounts from 0 to 63. -/
def Term.inRange (names : String → Int64) : Term → Bool
  | .factor f => f.inRange names
  | .shift t amount => t.inRange names && amount.inRange names && isAmount (amount.value names)

/-- All shifts in an expression are by amounts from 0 to 63. -/
def Expression.inRange (names : String → Int64) : Expression → Bool
  | .term t => t.inRange names
  | .union front last => front.inRange names && last.inRange names

end

/-- The term is not shifted. -/
def Term.isFactor : Term → Bool
  | .factor _ => true
  | .shift _ _ => false

mutual

/-- In no parentheses of the factor a `<<` stands behind a `|`. -/
def Factor.grouped : Factor → Bool
  | .int _ => true
  | .minus f => f.grouped
  | .name _ _ _ => true
  | .flag e => e.grouped
  | .group e => e.grouped

/-- In no parentheses of the term a `<<` stands behind a `|`. -/
def Term.grouped : Term → Bool
  | .factor f => f.grouped
  | .shift t amount => t.grouped && amount.grouped

/-- On no level of the expression a `<<` stands behind a `|`. -/
def Expression.grouped : Expression → Bool
  | .term t => t.grouped
  | .union front last => front.grouped && last.grouped && last.isFactor

end

/-! ## What is read -/

theorem scaled_eq_shifted (value : Int64) {amount : Int64} (h : isAmount amount = true) :
    scaled value amount = shifted value amount :=
  if_pos (of_decide_eq_true h)

/-- A shift of a union shifts both of its parts. -/
theorem shifted_or (a b : Int64) {amount : Int64} (h : isAmount amount = true) :
    shifted (a ||| b) amount = shifted a amount ||| shifted b amount := by
  obtain ⟨hnonneg, hle⟩ := of_decide_eq_true h
  obtain ⟨n, hn⟩ := Int.eq_ofNat_of_zero_le hnonneg
  have hlt : n < 64 := by omega
  have hamount : amount = .ofInt n := by rw [← hn, Int64.ofInt_toInt]
  have hshift : ∀ value, shifted value amount = value <<< amount := by
    intro value
    rw [shifted, hn, Int.toNat_natCast, hamount, shiftLeft_of_lt value hlt]
  rw [hshift, hshift, hshift, Int64.shiftLeft_or]

mutual

/-- A factor is read with its value if in no parentheses of it a `<<` stands behind a `|`. -/
theorem Factor.eval_operand {names : String → Int64} :
    ∀ f : Factor, f.grouped = true → f.inRange names = true → f.operand.eval names = f.value names
  | .int _, _, _ => by rw [Factor.operand, Operand.eval, Factor.value]
  | .minus f, hg, hr => by
    rw [Factor.grouped] at hg
    rw [Factor.inRange] at hr
    rw [Factor.operand, Operand.eval, Factor.value, Factor.eval_operand f hg hr]
  | .name _ _ _, _, _ => by rw [Factor.operand, Operand.eval, Factor.value]
  | .flag e, hg, hr => by
    rw [Factor.grouped] at hg
    rw [Factor.inRange, Bool.and_eq_true] at hr
    rw [Factor.operand, Operand.eval, Factor.value, Expression.eval_flat e hg hr.1, scaled_eq_shifted 1 hr.2]
  | .group e, hg, hr => by
    rw [Factor.grouped] at hg
    rw [Factor.inRange] at hr
    rw [Factor.operand, Operand.eval, Factor.value, Expression.eval_flat e hg hr]

/-- A term is read with its value if in no parentheses of it a `<<` stands behind a `|`. -/
theorem Term.eval_flat {names : String → Int64} :
    ∀ t : Term, t.grouped = true → t.inRange names = true → t.flat.eval names = t.value names
  | .factor f, hg, hr => by
    rw [Term.grouped] at hg
    rw [Term.inRange] at hr
    rw [Term.flat, Value.eval, Term.value, Factor.eval_operand f hg hr]
  | .shift t amount, hg, hr => by
    rw [Term.grouped, Bool.and_eq_true] at hg
    rw [Term.inRange, Bool.and_eq_true, Bool.and_eq_true] at hr
    obtain ⟨⟨hterm, hamount⟩, hrange⟩ := hr
    rw [Term.flat, Value.eval, Operator.apply, Term.value, Term.eval_flat t hg.1 hterm,
      Factor.eval_operand amount hg.2 hamount, scaled_eq_shifted _ hrange]

/-- An expression is read with its value if on no level of it a `<<` stands behind a `|`. -/
theorem Expression.eval_flat {names : String → Int64} :
    ∀ e : Expression, e.grouped = true → e.inRange names = true → e.flat.eval names = e.value names
  | .term t, hg, hr => by
    rw [Expression.grouped] at hg
    rw [Expression.inRange] at hr
    rw [Expression.flat, Expression.value, Term.eval_flat t hg hr]
  | .union front (.factor f), hg, hr => by
    rw [Expression.grouped, Bool.and_eq_true, Bool.and_eq_true, Term.grouped] at hg
    rw [Expression.inRange, Bool.and_eq_true, Term.inRange] at hr
    rw [Expression.flat, Term.joined, Value.eval, Operator.apply, Expression.value, Term.value,
      Expression.eval_flat front hg.1.1 hr.1, Factor.eval_operand f hg.1.2 hr.2]
  | .union _ (.shift _ _), hg, _ => by
    rw [Expression.grouped, Bool.and_eq_true] at hg
    cases hg.2

end

/-- A term behind `|` is joined with its value, and what stands before the `|` is shifted by all amounts of the term. -/
theorem Term.eval_joined {names : String → Int64} (v : Value) :
    ∀ t : Term, t.grouped = true → t.inRange names = true →
      (t.joined v).eval names = (t.amounts names).foldl shifted (v.eval names) ||| t.value names
  | .factor f, hg, hr => by
    rw [Term.grouped] at hg
    rw [Term.inRange] at hr
    rw [Term.joined, Value.eval, Operator.apply, Term.amounts, List.foldl_nil, Term.value, f.eval_operand hg hr]
  | .shift t amount, hg, hr => by
    rw [Term.grouped, Bool.and_eq_true] at hg
    rw [Term.inRange, Bool.and_eq_true, Bool.and_eq_true] at hr
    obtain ⟨⟨hterm, hamount⟩, hrange⟩ := hr
    rw [Term.joined, Value.eval, Operator.apply, Term.eval_joined v t hg.1 hterm, amount.eval_operand hg.2 hamount,
      scaled_eq_shifted _ hrange, shifted_or _ _ hrange, Term.amounts, List.foldl_append, List.foldl_cons, List.foldl_nil,
      Term.value]

/-- What is read of an expression that is grouped up to its last `|`. -/
theorem Expression.eval_flat_union {names : String → Int64} {front : Expression} {last : Term} (hfront : front.grouped = true)
    (hlast : last.grouped = true) (hr : (Expression.union front last).inRange names = true) :
    (Expression.union front last).flat.eval names =
      (last.amounts names).foldl shifted (front.value names) ||| last.value names := by
  rw [Expression.inRange, Bool.and_eq_true] at hr
  rw [Expression.flat, Term.eval_joined _ last hlast hr.2, Expression.eval_flat front hfront hr.1]

end Enumeration

open Enumeration

namespace Reader

/-- The values of an enum's entries, by precedence. Every entry's value is an expression. If all its shifts are by 0 to 63, it is
recorded with the value of the expression where on no level a `<<` stands behind a `|`. Where this fails at the last `|` only, the
last term is recorded as it should be, and what stands before it is shifted by the amounts of the last term. The enum is declared
with these values, and reading goes on behind it. -/
theorem enum_value_by_precedence (options : ScanOptions) (d : Declaration) {outer : List EnumValue} {r : Reader}
    {rest : List Token} (hdefines : r.catalog.Defines outer) (h : r.cursor.Faces d.kinds rest) :
    ∃ values : List EnumValue, r.Declares options (d.type values) (Cursor.afterMark ';' rest) ∧
      ∀ (i : Nat) (name : String) (v : Value), d.entries[i]? = some ⟨name, some v⟩ →
        let names := meaning outer (values.take i)
        (∃ e : Expression, e.flat = v) ∧
        (∀ e : Expression, e.flat = v → e.inRange names = true → e.grouped = true →
          values[i]? = some ⟨name, e.value names⟩) ∧
        (∀ (front : Expression) (last : Term), (Expression.union front last).flat = v →
          (Expression.union front last).inRange names = true → front.grouped = true → last.grouped = true →
          values[i]? = some ⟨name, (last.amounts names).foldl shifted (front.value names) ||| last.value names⟩) := by
  have hdenotes := denotes_valuesAfter outer d.entries
  refine ⟨valuesAfter outer [] d.entries, declares_faces options d hdefines h, ?_⟩
  intro i name v hentry names
  have hvalue : (valuesAfter outer [] d.entries)[i]? = some ⟨name, v.eval names⟩ :=
    hdenotes.getElem?_eq i ⟨name, some v⟩ hentry
  refine ⟨exists_flat_eq v, ?_, ?_⟩
  · rintro e rfl hrange hgrouped
    rw [hvalue, e.eval_flat hgrouped hrange]
  · rintro front last rfl hrange hfront hlast
    rw [hvalue, Expression.eval_flat_union hfront hlast hrange]

/-- `(1 << Bit | 2) << 4 | FLAG(Bit)` -/
def wideExpression : Expression :=
  .union
    (.term (.shift (.factor (.group (.union
      (.term (.shift (.factor (.int 1)) (.name "Bit" [] (by decide)))) (.factor (.int 2))))) (.int 4)))
    (.factor (.flag (.term (.factor (.name "Bit" [] (by decide))))))

/-- `enum Mask { Bit = 3, Wide = (1 << Bit | 2) << 4 | FLAG(Bit), Moved = Bit | 2 << 3 }` -/
def maskDeclaration : Declaration where
  isScoped := false
  name := "Mask"
  entries :=
    [⟨"Bit", some (Expression.term (.factor (.int 3))).flat⟩, ⟨"Wide", some wideExpression.flat⟩,
      ⟨"Moved", some (Expression.union (.term (.factor (.name "Bit" [] (by decide)))) (.shift (.factor (.int 2)) (.int 3))).flat⟩]
  entries_ne_nil := List.cons_ne_nil _ _
  name_of_unscoped _ := by decide

/-- A reader in front of the enum `Mask`, in the empty catalog. -/
def maskReader : Reader where
  catalog := .empty
  cursor := .ofText "REFLECTED() enum Mask { Bit = 3, Wide = (1 << Bit | 2) << 4 | FLAG(Bit), Moved = Bit | 2 << 3 };"

theorem enum_value_by_precedence_at_mask :
    let names := meaning [] [⟨"Bit", 3⟩]
    maskReader.catalog.Defines [] ∧ maskReader.cursor.Faces maskDeclaration.kinds (maskReader.cursor.unread.drop 35) ∧
      wideExpression.inRange names = true ∧ wideExpression.grouped = true ∧ wideExpression.value names = 168 ∧
      ∃ values : List EnumValue,
        (takeHeader {} maskReader).catalog = (maskReader.catalog.register (maskDeclaration.type values)).2 ∧
        (takeHeader {} maskReader).cursor = maskReader.cursor.before [] ∧
        values[1]? = some ⟨"Wide", 168⟩ ∧ values[2]? = some ⟨"Moved", 24⟩ := by
  have hfaces : maskReader.cursor.Faces maskDeclaration.kinds (maskReader.cursor.unread.drop 35) :=
    ⟨maskReader.cursor.unread.take 35, by decide +kernel, (List.take_append_drop 35 _).symm⟩
  have hwide : wideExpression.inRange (meaning [] [⟨"Bit", 3⟩]) = true ∧ wideExpression.grouped = true ∧
      wideExpression.value (meaning [] [⟨"Bit", 3⟩]) = 168 := by
    decide +kernel
  obtain ⟨hrange, hgrouped, hvalue⟩ := hwide
  obtain ⟨values, hdeclares, hvalues⟩ := enum_value_by_precedence {} maskDeclaration .empty hfaces
  obtain ⟨hcatalog, hcursor⟩ := hdeclares.whole (by decide +kernel)
  have hfirst : values[0]? = some ⟨"Bit", 3⟩ :=
    (hvalues 0 "Bit" _ rfl).2.1 (.term (.factor (.int 3))) rfl rfl rfl
  have hone : values.take 1 = [⟨"Bit", 3⟩] := by
    rewrite [List.take_add_one, hfirst]
    rfl
  have hsecond : values[1]? = some ⟨"Wide", 168⟩ := by
    have h := (hvalues 1 "Wide" _ rfl).2.1 wideExpression rfl
    rw [hone] at h
    rw [h hrange hgrouped, hvalue]
  have htwo : values.take 2 = [⟨"Bit", 3⟩, ⟨"Wide", 168⟩] := by
    rewrite [List.take_add_one, hone, hsecond]
    rfl
  have hthird : values[2]? = some ⟨"Moved", 24⟩ := by
    have h := (hvalues 2 "Moved" _ rfl).2.2 (.term (.factor (.name "Bit" [] (by decide)))) (.shift (.factor (.int 2)) (.int 3)) rfl
    rw [htwo] at h
    rw [h (by decide +kernel) (by decide +kernel) (by decide +kernel)]
    decide +kernel
  exact ⟨.empty, hfaces, hrange, hgrouped, hvalue, values, hcatalog, hcursor, hsecond, hthird⟩

/-- In `1 | 2 << 3` the shift belongs to the 2, so the value is 17; what is recorded is 24. -/
theorem union_moved_by_shift :
    let e : Expression := .union (.term (.factor (.int 1))) (.shift (.factor (.int 2)) (.int 3))
    let source := "REFLECTED() enum E { A = 1 | 2 << 3 };"
    (Cursor.ofText source).unread.map Token.kind =
        [.word "REFLECTED", .mark '(', .mark ')', .word "enum", .word "E", .mark '{', .word "A", .mark '='] ++ e.flat.kinds ++
          [.mark '}', .mark ';'] ∧
      e.inRange (meaning [] []) = true ∧ e.value (meaning [] []) = 17 ∧
      ((session .empty [.scan {} source]).catalog.find? "E").map TypeDef.enumValues = some [⟨"A", 24⟩] := by
  decide +kernel

end Reader

end HeaderAtlas
