import HeaderAtlas.Proofs.Declaration.Turn
import HeaderAtlas.Proofs.Enum.Grammar

/-!
# Reading an enum

An enum that is spelled as the grammar has it is read as the grammar means it. The statements about values leave open what stands
behind the value (`Cursor.Faces`), so that they can be used at any depth; all they ask of it is that it does not go on with the
parts of a name.
-/

namespace HeaderAtlas

open Enumeration

namespace Cursor

/-! ## Tokens in front of a cursor -/

/-- The cursor in front of these tokens. -/
def before (c : Cursor) (ts : List Token) : Cursor := { c with unread := ts }

/-- Tokens of these kinds stand in front of the cursor, and `rest` behind them. -/
def Faces (c : Cursor) (kinds : List Token.Kind) (rest : List Token) : Prop :=
  ∃ ts : List Token, ts.map Token.kind = kinds ∧ c.unread = ts ++ rest

variable {c : Cursor} {kind : Token.Kind} {kinds kinds' : List Token.Kind} {rest : List Token}

/-- A cursor that faces no kinds is in front of the rest. -/
theorem Faces.eq_before (h : c.Faces [] rest) : c = c.before rest := by
  obtain ⟨ts, hts, hunread⟩ := h
  obtain rfl := List.map_eq_nil_iff.mp hts
  rw [before, ← List.nil_append rest, ← hunread]

/-- The first of the tokens, and the cursor behind it. -/
theorem Faces.cons (h : c.Faces (kind :: kinds) rest) :
    c.atEnd = false ∧ c.peek.kind = kind ∧ c.advance.Faces kinds rest := by
  obtain ⟨ts, hts, hunread⟩ := h
  obtain ⟨t, ts, rfl, rfl, rfl⟩ := List.map_eq_cons_iff.mp hts
  refine ⟨?_, ?_, ts, rfl, ?_⟩
  · rw [atEnd, hunread]
    rfl
  · rw [peek, hunread]
    rfl
  · rw [advance, hunread]
    rfl

/-- Tokens in two parts: the second part stands in front of the cursor behind the first one. -/
theorem Faces.append (h : c.Faces (kinds ++ kinds') rest) :
    ∃ rest', c.Faces kinds rest' ∧ (c.before rest').Faces kinds' rest := by
  obtain ⟨ts, hts, hunread⟩ := h
  obtain ⟨ts₁, ts₂, rfl, rfl, rfl⟩ := List.map_eq_append_iff.mp hts
  exact ⟨ts₂ ++ rest, ⟨ts₁, rfl, by rw [hunread, List.append_assoc]⟩, ts₂, rfl, rfl⟩

/-- The mark in front is the first kind. -/
theorem Faces.sees (h : c.Faces (kind :: kinds) rest) (symbol : Char) : c.sees symbol = (kind == .mark symbol) := by
  rw [Cursor.sees, Token.isMark, h.cons.2.1]

/-- The word in front is the first kind. -/
theorem Faces.seesWord (h : c.Faces (kind :: kinds) rest) (name : String) : c.seesWord name = (kind == .word name) := by
  rw [Cursor.seesWord, Token.isWord, h.cons.2.1]

/-- One token ahead is the one in front after a step. -/
theorem ahead_one (c : Cursor) : c.ahead 1 = c.advance.peek := by
  rw [ahead, List.drop_one]
  rfl

/-- A word in front is taken. -/
theorem takeWord_of_kind {word : String} (h : c.peek.kind = .word word) : c.takeWord = (some word, c.advance) := by
  rw [takeWord, Token.word?, h]
  rfl

/-- The parts of a name are read up to what does not go on with `:`. -/
theorem takeParts_faces (parts : List String) :
    ∀ c : Cursor, c.Faces (partKinds parts) rest → (c.before rest).sees ':' = false →
      c.takeParts = (parts, c.before rest) := by
  induction parts with
  | nil =>
    intro c h hrest
    have hc := h.eq_before
    rw [← hc] at hrest ⊢
    rw [takeParts, atScope, hrest]
    rfl
  | cons part parts ih =>
    intro c h hrest
    obtain ⟨-, hcolon, h₁⟩ := h.cons
    obtain ⟨-, hcolon₁, h₂⟩ := h₁.cons
    obtain ⟨-, hword, h₃⟩ := h₂.cons
    have hscope : c.atScope = true := by
      rw [atScope, ahead_one, Cursor.sees, Token.isMark, Token.isMark, hcolon, hcolon₁]
      rfl
    have htake := takeWord_of_kind hword
    rw [takeParts, if_pos hscope]
    split
    · rename_i part' h'
      rw [htake] at h' ⊢
      obtain rfl : part = part' := Option.some.inj h'
      rw [ih _ h₃ hrest]
      rfl
    · rename_i h'
      rw [htake] at h'
      cases h'

end Cursor

namespace Reader

/-- The second reader is the first one in front of these tokens; more may have been noted. -/
structure Leaves (r : Reader) (rest : List Token) (r' : Reader) : Prop where
  catalog_eq : r'.catalog = r.catalog
  cursor_eq : r'.cursor = r.cursor.before rest

/-- What is left twice is left. -/
theorem Leaves.trans {r r' r'' : Reader} {rest rest' : List Token} (h : r.Leaves rest r') (h' : r'.Leaves rest' r'') :
    r.Leaves rest' r'' :=
  ⟨h'.catalog_eq.trans h.catalog_eq, by rw [h'.cursor_eq, h.cursor_eq]; rfl⟩

/-- What stands behind a piece is faced when the piece is read. -/
theorem Leaves.faces {r r' : Reader} {rest : List Token} (h : r.Leaves rest r') {kinds : List Token.Kind}
    {rest' : List Token} (hfaces : (r.cursor.before rest).Faces kinds rest') : r'.cursor.Faces kinds rest' := by
  rw [h.cursor_eq]
  exact hfaces

/-- What a name means to a reader of this catalog behind the entries `prior`. -/
def known (c : Catalog) (prior : List EnumValue) (name : String) : Int64 :=
  ((first? prior name).or (c.literal? name)).getD 0

/-- The value of a name is the known one, and looking it up moves nothing. -/
theorem literal_spec (prior : List EnumValue) (r : Reader) (name : String) :
    (literal prior r name).1 = known r.catalog prior name ∧ (literal prior r name).2.catalog = r.catalog ∧
      (literal prior r name).2.cursor = r.cursor := by
  unfold literal known first?
  cases prior.find? (·.name == name) with
  | some entry => exact ⟨rfl, rfl, rfl⟩
  | none =>
    cases r.catalog.literal? name with
    | some value => exact ⟨rfl, rfl, rfl⟩
    | none => exact ⟨rfl, rfl, rfl⟩

/-- A mark in front is passed. -/
theorem leaves_pass {r : Reader} {symbol : Char} {rest : List Token} (h : r.cursor.Faces [.mark symbol] rest) :
    r.Leaves rest (r.pass symbol) := by
  obtain ⟨-, -, hadvance⟩ := h.cons
  have hsees : r.cursor.sees symbol = true := by
    rw [h.sees]
    exact beq_self_eq_true _
  refine ⟨rfl, ?_⟩
  rw [pass, Cursor.pass, if_pos hsees]
  exact hadvance.eq_before

/-! ## Values -/

/-- Inside parentheses a value ends where they close. -/
theorem takeOperations_closed (prior : List EnumValue) (value : Int64) {r : Reader} {rest : List Token}
    (h : r.cursor.Faces [.mark ')'] rest) : takeOperations prior value r = (value, r) := by
  obtain ⟨-, hkind, -⟩ := h.cons
  have hturn : operationTurn prior value r = none := by
    rw [operationTurn, hkind]
    rfl
  rw [takeOperations_eq, hturn]

/-- A value in parentheses, with the one that closes them, if the value is read up to there. -/
theorem takeGrouped_closed {prior : List EnumValue} {v : Value} {r : Reader} {rest : List Token}
    (hv : ∀ {rest' : List Token}, r.cursor.Faces v.kinds rest' → (r.cursor.before rest').sees ':' = false →
      ∃ r', r.Leaves rest' r' ∧ takeGrouped prior r = takeOperations prior (v.eval (known r.catalog prior)) r')
    (h : r.cursor.Faces (v.kinds ++ [.mark ')']) rest) :
    (takeGrouped prior r).1 = v.eval (known r.catalog prior) ∧ r.Leaves rest ((takeGrouped prior r).2.pass ')') := by
  obtain ⟨rest', hvalue, hclose⟩ := h.append
  obtain ⟨r', hleaves, hgrouped⟩ := hv hvalue (hclose.sees ':')
  have hclose' := hleaves.faces hclose
  rw [hgrouped, takeOperations_closed prior _ hclose']
  exact ⟨rfl, hleaves.trans (leaves_pass hclose')⟩

/-- The operator behind a value that has been read, and its operand, if that is read as it is meant. -/
theorem takeOperand_joined {prior : List EnumValue} {operator : Operator} {operand : Operand} {r r' : Reader}
    {rest rest' : List Token}
    (ho : r'.advance.cursor.Faces operand.kinds rest → (r'.advance.cursor.before rest).sees ':' = false →
      (takeOperand prior r'.advance).1 = operand.eval (known r'.advance.catalog prior) ∧
        r'.advance.Leaves rest (takeOperand prior r'.advance).2)
    (hleaves : r.Leaves rest' r') (hjoin : (r.cursor.before rest').Faces (operator.kind :: operand.kinds) rest)
    (hrest : (r.cursor.before rest).sees ':' = false) :
    r'.cursor.atEnd = false ∧ r'.cursor.peek.kind = operator.kind ∧
      (takeOperand prior r'.advance).1 = operand.eval (known r.catalog prior) ∧
      r.Leaves rest (takeOperand prior r'.advance).2 := by
  obtain ⟨hend, hkind, hadvance⟩ := (hleaves.faces hjoin).cons
  have hrest' : (r'.advance.cursor.before rest).sees ':' = false := by
    rw [advance, moveTo, hleaves.cursor_eq]
    exact hrest
  obtain ⟨hvalue, hoperand⟩ := ho hadvance hrest'
  rw [advance, moveTo, hleaves.catalog_eq] at hvalue
  refine ⟨hend, hkind, hvalue, hoperand.catalog_eq.trans hleaves.catalog_eq, ?_⟩
  rw [hoperand.cursor_eq, advance, moveTo, hleaves.cursor_eq]
  rfl

/-- The sign of an operator in parentheses is read with the operand behind it, and applied. -/
theorem operationTurn_of_kind {prior : List EnumValue} {value : Int64} {r : Reader} {operator : Operator}
    (h : r.cursor.peek.kind = operator.kind) :
    operationTurn prior value r =
      some (operator.apply value (takeOperand prior r.advance).1, (takeOperand prior r.advance).2) := by
  cases operator with
  | shift =>
    rw [Operator.apply, ← shiftedLeft_eq_scaled, operationTurn, h]
    rfl
  | union =>
    rw [operationTurn, h]
    rfl

mutual

/-- An operand is read as it is meant, up to what stands behind it. -/
theorem takeOperand_faces (prior : List EnumValue) :
    ∀ (o : Operand) {r : Reader} {rest : List Token}, r.cursor.Faces o.kinds rest →
      (r.cursor.before rest).sees ':' = false →
      (takeOperand prior r).1 = o.eval (known r.catalog prior) ∧ r.Leaves rest (takeOperand prior r).2
  | .int value, r, rest, h, _ => by
    rw [Operand.kinds] at h
    obtain ⟨-, hkind, hadvance⟩ := h.cons
    rw [takeOperand_eq, hkind, Operand.eval]
    exact ⟨rfl, rfl, hadvance.eq_before⟩
  | .minus operand, r, rest, h, hrest => by
    rw [Operand.kinds] at h
    obtain ⟨-, hkind, hadvance⟩ := h.cons
    obtain ⟨hvalue, hleaves⟩ := takeOperand_faces prior operand (r := r.advance) hadvance hrest
    rw [takeOperand_eq, hkind, Operand.eval]
    exact ⟨congrArg (-·) hvalue, hleaves.catalog_eq, hleaves.cursor_eq⟩
  | .name first parts hfirst, r, rest, h, hrest => by
    rw [Operand.kinds] at h
    obtain ⟨-, hkind, hadvance⟩ := h.cons
    have hitem : r.cursor.peek.kind.operandItem = .name first := by
      rw [hkind]
      exact if_neg hfirst
    obtain ⟨hvalue, hcatalog, hcursor⟩ := literal_spec prior (r.moveTo (r.cursor.before rest)) (parts.getLastD first)
    rw [takeOperand_eq, hitem, Cursor.takeParts_faces parts _ hadvance hrest, Operand.eval]
    exact ⟨hvalue, hcatalog, hcursor⟩
  | .flag bit, r, rest, h, _ => by
    rw [Operand.kinds] at h
    obtain ⟨-, hkind, hadvance⟩ := h.cons
    obtain ⟨-, -, hopened⟩ := hadvance.cons
    have hparen : r.advance.cursor.sees '(' = true := hadvance.sees '('
    obtain ⟨hvalue, hleaves⟩ := takeGrouped_closed (takeGrouped_faces prior bit (r := r.advance.advance)) hopened
    rw [takeOperand_eq, hkind, Operand.eval]
    simp only [Token.Kind.operandItem, if_true, hparen, shiftedLeft_eq_scaled]
    exact ⟨congrArg (scaled 1) hvalue, hleaves.catalog_eq, hleaves.cursor_eq⟩
  | .group value, r, rest, h, _ => by
    rw [Operand.kinds] at h
    obtain ⟨-, hkind, hopened⟩ := h.cons
    obtain ⟨hvalue, hleaves⟩ := takeGrouped_closed (takeGrouped_faces prior value (r := r.advance)) hopened
    rw [takeOperand_eq, hkind, Operand.eval]
    exact ⟨hvalue, hleaves.catalog_eq, hleaves.cursor_eq⟩

/-- A value inside parentheses is read as it is meant, and reading goes on with the operations behind it. -/
theorem takeGrouped_faces (prior : List EnumValue) :
    ∀ (v : Value) {r : Reader} {rest : List Token}, r.cursor.Faces v.kinds rest →
      (r.cursor.before rest).sees ':' = false →
      ∃ r', r.Leaves rest r' ∧ takeGrouped prior r = takeOperations prior (v.eval (known r.catalog prior)) r'
  | .operand operand, r, rest, h, hrest => by
    rw [Value.kinds] at h
    obtain ⟨hvalue, hleaves⟩ := takeOperand_faces prior operand h hrest
    rw [takeGrouped_eq, hvalue, Value.eval]
    exact ⟨_, hleaves, rfl⟩
  | .join value operator operand, r, rest, h, hrest => by
    rw [Value.kinds] at h
    obtain ⟨rest', hvalue, hjoin⟩ := h.append
    have hcolon : (operator.kind == .mark ':') = false := by cases operator <;> rfl
    obtain ⟨r', hleaves, hgrouped⟩ := takeGrouped_faces prior value hvalue ((hjoin.sees ':').trans hcolon)
    obtain ⟨-, hkind, hoperand, hleaves'⟩ := takeOperand_joined (takeOperand_faces prior operand) hleaves hjoin hrest
    rw [hgrouped, takeOperations_eq, operationTurn_of_kind hkind, hoperand, Value.eval]
    exact ⟨_, hleaves', rfl⟩

end

/-- No operator stops a value. -/
theorem not_stop_of_kind {c : Cursor} {operator : Operator} (h : c.peek.kind = operator.kind) :
    (c.sees ',' || c.sees '}') = false := by
  rw [Cursor.sees, Cursor.sees, Token.isMark, Token.isMark, h]
  cases operator <;> rfl

/-- The sign of an operator in a value is read with the operand behind it, and applied. -/
theorem valueTurn_of_kind {prior : List EnumValue} {value : Int64} {r : Reader} {operator : Operator}
    (h : r.cursor.peek.kind = operator.kind) :
    valueTurn prior (some value) r =
      (some (operator.apply value (takeOperand prior r.advance).1), (takeOperand prior r.advance).2) := by
  cases operator with
  | shift =>
    rw [Operator.apply, ← shiftedLeft_eq_scaled, valueTurn, h]
    rfl
  | union =>
    rw [valueTurn, h]
    rfl

/-- An operand begins as one. -/
theorem kinds_operand (o : Operand) : ∃ kind kinds, o.kinds = kind :: kinds ∧ kind.valueItem = .operand := by
  cases o with
  | int value => exact ⟨_, _, Operand.kinds.eq_1 value, rfl⟩
  | minus operand => exact ⟨_, _, Operand.kinds.eq_2 operand, rfl⟩
  | name first parts h => exact ⟨_, _, Operand.kinds.eq_3 first parts h, rfl⟩
  | flag bit => exact ⟨_, _, Operand.kinds.eq_4 bit, rfl⟩
  | group value => exact ⟨_, _, Operand.kinds.eq_5 value, rfl⟩

/-- The value of an entry is read as it is meant, and reading goes on behind it. -/
theorem takeEnumValue_faces (prior : List EnumValue) :
    ∀ (v : Value) {r : Reader} {rest : List Token}, r.cursor.Faces v.kinds rest →
      (r.cursor.before rest).sees ':' = false →
      ∃ r', r.Leaves rest r' ∧
        takeEnumValue prior none r = takeEnumValue prior (some (v.eval (known r.catalog prior))) r'
  | .operand operand, r, rest, h, hrest => by
    rw [Value.kinds] at h
    obtain ⟨hvalue, hleaves⟩ := takeOperand_faces prior operand h hrest
    obtain ⟨kind, kinds, hkinds, hitem⟩ := kinds_operand operand
    rw [hkinds] at h
    obtain ⟨hend, hkind, -⟩ := h.cons
    rw [← hkind] at hitem
    have hstop : ¬ (r.cursor.sees ',' || r.cursor.sees '}') = true := by
      rw [← valueItem_stop_iff, hitem]
      simp
    have hturn : valueTurn prior none r = (some (operand.eval (known r.catalog prior)), (takeOperand prior r).2) := by
      rw [valueTurn, hitem, ← hvalue]
    rw [takeEnumValue_eq, hend, if_neg Bool.false_ne_true, if_neg hstop, hturn, Value.eval]
    exact ⟨_, hleaves, rfl⟩
  | .join value operator operand, r, rest, h, hrest => by
    rw [Value.kinds] at h
    obtain ⟨rest', hvalue, hjoin⟩ := h.append
    have hcolon : (operator.kind == .mark ':') = false := by cases operator <;> rfl
    obtain ⟨r', hleaves, hread⟩ := takeEnumValue_faces prior value hvalue ((hjoin.sees ':').trans hcolon)
    obtain ⟨hend, hkind, hoperand, hleaves'⟩ := takeOperand_joined (takeOperand_faces prior operand) hleaves hjoin hrest
    rw [hread, takeEnumValue_eq, hend, if_neg Bool.false_ne_true, not_stop_of_kind hkind, if_neg Bool.false_ne_true,
      valueTurn_of_kind hkind, hoperand, Value.eval]
    exact ⟨_, hleaves', rfl⟩

/-! ## Entries -/

/-- The value an entry gets: its own, or else the one that is next. -/
def entryValue (c : Catalog) (prior : List EnumValue) (next : Int64) (e : Entry) : Int64 :=
  match e.value with
  | some value => value.eval (known c prior)
  | none => next

/-- What stands behind the name of an entry is read up to the mark that ends it. -/
theorem takeAssignedValue_faces (prior : List EnumValue) (next : Int64) {e : Entry} {r : Reader} {rest : List Token}
    (h : r.cursor.Faces e.kinds rest) (hstop : (r.cursor.before rest).sees ',' || (r.cursor.before rest).sees '}') :
    (takeAssignedValue prior r.advance).1.getD next = entryValue r.catalog prior next e ∧
      r.Leaves rest (takeAssignedValue prior r.advance).2 := by
  have hmark : ∀ symbol, (r.cursor.before rest).sees symbol = true → symbol = ',' ∨ symbol = '}' := by
    intro symbol hsymbol
    simp only [Cursor.sees, Token.isMark, Bool.or_eq_true, beq_iff_eq] at hstop hsymbol
    rcases hstop with hkind | hkind
    · exact Or.inl (Token.Kind.mark.inj (hsymbol.symm.trans hkind))
    · exact Or.inr (Token.Kind.mark.inj (hsymbol.symm.trans hkind))
  have hunseen : ∀ symbol, symbol ≠ ',' → symbol ≠ '}' → (r.cursor.before rest).sees symbol = false := by
    intro symbol hcomma hclose
    cases hsees : (r.cursor.before rest).sees symbol with
    | false => rfl
    | true => exact absurd (hmark symbol hsees) (not_or.mpr ⟨hcomma, hclose⟩)
  obtain ⟨name, value⟩ := e
  obtain ⟨-, -, hadvance⟩ := h.cons
  cases value with
  | none =>
    have hcursor : r.advance.cursor = r.cursor.before rest := hadvance.eq_before
    rw [takeAssignedValue, hcursor, hunseen '=' (by decide) (by decide)]
    exact ⟨rfl, rfl, hcursor⟩
  | some value =>
    obtain ⟨-, -, hvalue⟩ := hadvance.cons
    obtain ⟨r', hleaves, hread⟩ := takeEnumValue_faces prior value (r := r.advance.advance) hvalue
      (hunseen ':' (by decide) (by decide))
    have hstop' : (r'.cursor.sees ',' || r'.cursor.sees '}') = true := by
      rw [hleaves.cursor_eq]
      exact hstop
    have hequals : r.advance.cursor.sees '=' = true := hadvance.sees '='
    have hassigned : takeAssignedValue prior r.advance = (some (value.eval (known r.catalog prior)), r') := by
      rw [takeAssignedValue, if_pos hequals, hread, takeEnumValue_eq, if_pos hstop', ite_self]
      rfl
    rw [hassigned]
    exact ⟨rfl, hleaves.catalog_eq, hleaves.cursor_eq⟩

/-- One entry is read up to the mark that ends it, and entered. -/
theorem takeEntries_entry (prior : List EnumValue) (next : Int64) {e : Entry} {r : Reader} {rest : List Token}
    (h : r.cursor.Faces e.kinds rest) (hstop : (r.cursor.before rest).sees ',' || (r.cursor.before rest).sees '}') :
    ∃ r', r.Leaves (Cursor.afterEntry rest) r' ∧
      takeEntries prior next r =
        takeEntries (prior ++ [⟨e.name, entryValue r.catalog prior next e⟩]) (entryValue r.catalog prior next e + 1) r' := by
  obtain ⟨hvalue, hleaves⟩ := takeAssignedValue_faces prior next h hstop
  obtain ⟨hend, hkind, -⟩ := h.cons
  have hturn : entryTurn prior next r =
      (prior ++ [⟨e.name, entryValue r.catalog prior next e⟩], entryValue r.catalog prior next e + 1,
        (takeAssignedValue prior r.advance).2.moveTo (takeAssignedValue prior r.advance).2.cursor.skipEntry) := by
    rw [entryTurn, Token.word?, hkind]
    dsimp only [Token.Kind.word?]
    rw [hvalue]
  have hclose : r.cursor.sees '}' = false := h.sees '}'
  have hskipped : r.Leaves (Cursor.afterEntry rest)
      ((takeAssignedValue prior r.advance).2.moveTo (takeAssignedValue prior r.advance).2.cursor.skipEntry) := by
    refine ⟨hleaves.catalog_eq, ?_⟩
    rw [moveTo, hleaves.cursor_eq]
    rfl
  rw [takeEntries_eq, hend, hclose, hturn]
  exact ⟨_, hskipped, rfl⟩

/-- Behind an entry, its `,` is passed. -/
theorem afterEntry_comma {c : Cursor} {kinds : List Token.Kind} {rest : List Token}
    (h : c.Faces (.mark ',' :: kinds) rest) : (c.before (Cursor.afterEntry c.unread)).Faces kinds rest := by
  obtain ⟨ts, hts, hunread⟩ := h
  obtain ⟨t, ts, rfl, ht, rfl⟩ := List.map_eq_cons_iff.mp hts
  rw [hunread, List.cons_append, Cursor.afterEntry, Token.isMark, Token.isMark, ht]
  exact ⟨ts, rfl, rfl⟩

/-- Behind the last entry, the `}` is left. -/
theorem afterEntry_close {c : Cursor} {kinds : List Token.Kind} {rest : List Token}
    (h : c.Faces (.mark '}' :: kinds) rest) : Cursor.afterEntry c.unread = c.unread := by
  obtain ⟨ts, hts, hunread⟩ := h
  obtain ⟨t, ts, rfl, ht, rfl⟩ := List.map_eq_cons_iff.mp hts
  rw [hunread, List.cons_append, Cursor.afterEntry, Token.isMark, ht]
  rfl

/-- A single entry is written without a comma. -/
theorem entryKinds_singleton (e : Entry) : entryKinds [e] = e.kinds := by
  simp [entryKinds, List.intercalate]

/-- Between two entries a comma is written. -/
theorem entryKinds_cons_cons (e e' : Entry) (entries : List Entry) :
    entryKinds (e :: e' :: entries) = e.kinds ++ .mark ',' :: entryKinds (e' :: entries) := by
  simp [entryKinds, List.intercalate]

/-- In a catalog whose enums have defined `outer`, names mean what the grammar says. -/
theorem known_eq_meaning {c : Catalog} {outer : List EnumValue} (h : c.Defines outer) (prior : List EnumValue) :
    known c prior = meaning outer prior := by
  funext name
  rw [known, meaning, h.literal?]

/-- The value of an entry as it is read is the one the grammar means. -/
theorem entryValue_eq {c : Catalog} {outer : List EnumValue} (h : c.Defines outer) (prior : List EnumValue) (e : Entry) :
    entryValue c prior ((prior.getLast?.map (·.value + 1)).getD 0) e = e.valueAfter outer prior := by
  rewrite [entryValue, Entry.valueAfter, known_eq_meaning h]
  rfl

/-- Entries are read one after another up to the `}` behind them. The value that is next is one more than the last one. -/
theorem takeEntries_faces {outer : List EnumValue} (entries : List Entry) :
    ∀ (prior : List EnumValue) (r : Reader) (rest : List Token), entries ≠ [] → r.catalog.Defines outer →
      r.cursor.Faces (entryKinds entries ++ [.mark '}']) rest →
      (takeEntries prior ((prior.getLast?.map (·.value + 1)).getD 0) r).1 = valuesAfter outer prior entries ∧
        r.Leaves rest (takeEntries prior ((prior.getLast?.map (·.value + 1)).getD 0) r).2 := by
  induction entries with
  | nil => exact fun _ _ _ hne => absurd rfl hne
  | cons e entries ih =>
    intro prior r rest _ hdefines h
    have hnext : ∀ v : EnumValue, v.value + 1 = ((prior ++ [v]).getLast?.map (·.value + 1)).getD 0 := by simp
    cases entries with
    | nil =>
      rw [entryKinds_singleton] at h
      obtain ⟨rest', hentry, hclose⟩ := h.append
      obtain ⟨r', hleaves, hread⟩ := takeEntries_entry prior ((prior.getLast?.map (·.value + 1)).getD 0) hentry
        (by rw [hclose.sees, hclose.sees]; rfl)
      have hstays : Cursor.afterEntry rest' = rest' := afterEntry_close hclose
      rw [hstays] at hleaves
      have hclose' := hleaves.faces hclose
      have hsees : r'.cursor.sees '}' = true := hclose'.sees '}'
      obtain ⟨hend, -, hadvance⟩ := hclose'.cons
      rw [hread, entryValue_eq hdefines, takeEntries_eq, hend, if_neg Bool.false_ne_true, if_pos hsees]
      exact ⟨rfl, hleaves.trans ⟨rfl, hadvance.eq_before⟩⟩
    | cons e' entries =>
      rw [entryKinds_cons_cons, List.append_assoc, List.cons_append] at h
      obtain ⟨rest', hentry, hcomma⟩ := h.append
      obtain ⟨r', hleaves, hread⟩ := takeEntries_entry prior ((prior.getLast?.map (·.value + 1)).getD 0) hentry
        (by rw [hcomma.sees, hcomma.sees]; rfl)
      have hfaces := hleaves.faces (afterEntry_comma hcomma)
      have hdefines' : r'.catalog.Defines outer := hleaves.catalog_eq ▸ hdefines
      rw [hread, entryValue_eq hdefines]
      have hrest := ih (prior ++ [⟨e.name, e.valueAfter outer prior⟩]) r' rest (List.cons_ne_nil e' entries) hdefines' hfaces
      rw [← hnext] at hrest
      exact ⟨hrest.1, hleaves.trans hrest.2⟩

/-! ## Declarations -/

/-- A mark is passed in front of the rest. -/
theorem pass_before (c : Cursor) (symbol : Char) (rest : List Token) :
    (c.before rest).pass symbol = c.before (Cursor.afterMark symbol rest) := by
  cases rest with
  | nil => rfl
  | cons t ts =>
    unfold Cursor.pass Cursor.afterMark
    rw [apply_ite c.before]
    rfl

/-- The body of an enum is read up to the `}` that closes it and a `;` behind that, and the enum is declared. -/
theorem takeEnumBody_faces {outer : List EnumValue} (d : Declaration) {r : Reader} {rest : List Token}
    (hdefines : r.catalog.Defines outer) (h : r.cursor.Faces (entryKinds d.entries ++ [.mark '}']) rest) :
    ∃ id r', r.takeEnumBody d.name d.isScoped none = (some id, r') ∧
      r'.catalog = (r.catalog.register (d.type (valuesAfter outer [] d.entries))).2 ∧
      r'.cursor = r.cursor.before (Cursor.afterMark ';' rest) := by
  obtain ⟨hvalues, hleaves⟩ := takeEntries_faces d.entries [] r rest d.entries_ne_nil hdefines h
  have hcount : (takeEntries [] 0 r).1.isEmpty = false := by
    have hlength := (denotes_valuesAfter outer d.entries).length_eq
    rw [← hvalues] at hlength
    refine Bool.eq_false_iff.mpr fun hempty => d.entries_ne_nil (List.length_eq_zero_iff.mp ?_)
    rw [← hlength]
    exact List.length_eq_zero_iff.mpr (List.isEmpty_iff.mp hempty)
  unfold takeEnumBody
  dsimp only
  rw [hcount, if_neg Bool.false_ne_true]
  refine ⟨_, _, rfl, ?_, ?_⟩
  · show ((takeEntries [] 0 r).2.catalog.register _).2 = _
    have hvalues' : (takeEntries [] 0 r).1 = valuesAfter outer [] d.entries := hvalues
    have hcatalog : (takeEntries [] 0 r).2.catalog = r.catalog := hleaves.catalog_eq
    rw [hvalues', hcatalog]
    rfl
  · show (takeEntries [] 0 r).2.cursor.pass ';' = _
    have hcursor : (takeEntries [] 0 r).2.cursor = r.cursor.before rest := hleaves.cursor_eq
    rw [hcursor, pass_before]

/-- The head of an enum of which the name has been found, and the `{` behind it. -/
theorem takeEnum_of_head {r : Reader} {name : String} (isScoped : Bool) {c : Cursor} {kinds : List Token.Kind}
    {rest : List Token} (hscoped : r.advance.cursor.seesWordOf ["class", "struct"] = isScoped)
    (hname : (if isScoped then r.cursor.advance.advance else r.cursor.advance).takeWord = (some name, c))
    (hc : c.Faces (.mark '{' :: kinds) rest) :
    r.takeEnum = (r.moveTo c.advance).takeEnumBody name isScoped none := by
  have hunderlying : (r.moveTo c).takeUnderlying = (none, r.moveTo c) := by
    have hcolon : (r.moveTo c).cursor.sees ':' = false := hc.sees ':'
    rw [takeUnderlying, hcolon]
    rfl
  have hbody : Cursor.beforeBody (r.moveTo c).cursor.unread = (false, c.unread) := by
    obtain ⟨ts, hts, hunread⟩ := hc
    obtain ⟨t, ts, rfl, ht, rfl⟩ := List.map_eq_cons_iff.mp hts
    rw [moveTo, hunread, List.cons_append, Cursor.beforeBody, Token.isMark, ht]
    rfl
  have hopen : c.sees '{' = true := hc.sees '{'
  unfold takeEnum
  dsimp only
  rw [hscoped, hname]
  dsimp only
  rw [hunderlying]
  dsimp only
  rw [hbody]
  exact if_pos hopen

/-- One of several words is seen if the word in front is among them. -/
theorem seesWordOf_of_kind {c : Cursor} {word : String} (h : c.peek.kind = .word word) (names : List String) :
    c.seesWordOf names = names.contains word := by
  rw [Cursor.seesWordOf, Token.word?, h]
  rfl

/-- An enum is read from the word `enum` up to its end. -/
theorem takeEnum_faces {outer : List EnumValue} (d : Declaration) {r : Reader} {rest : List Token}
    (hdefines : r.catalog.Defines outer)
    (h : r.cursor.Faces (.word "enum" :: ((if d.isScoped then [.word "class"] else []) ++
      (.word d.name :: .mark '{' :: (entryKinds d.entries ++ [.mark '}'])))) rest) :
    ∃ id r', r.takeEnum = (some id, r') ∧
      r'.catalog = (r.catalog.register (d.type (valuesAfter outer [] d.entries))).2 ∧
      r'.cursor = r.cursor.before (Cursor.afterMark ';' rest) := by
  obtain ⟨-, -, h₁⟩ := h.cons
  -- both ways to the name lead to the same `{`
  have hhead : ∃ c : Cursor, r.takeEnum = (r.moveTo c.advance).takeEnumBody d.name d.isScoped none ∧
      c.advance.Faces (entryKinds d.entries ++ [.mark '}']) rest ∧ ∀ ts, c.advance.before ts = r.cursor.before ts := by
    cases hscoped : d.isScoped with
    | true =>
      rw [hscoped] at h₁
      obtain ⟨-, hclass, h₂⟩ := h₁.cons
      obtain ⟨-, hname, h₃⟩ := h₂.cons
      exact ⟨_, takeEnum_of_head true (seesWordOf_of_kind hclass _) (Cursor.takeWord_of_kind hname) h₃,
        h₃.cons.2.2, fun ts => rfl⟩
    | false =>
      rw [hscoped] at h₁
      obtain ⟨-, hname, h₂⟩ := h₁.cons
      obtain ⟨hclass, hstruct⟩ := d.name_of_unscoped hscoped
      have hword : r.advance.cursor.seesWordOf ["class", "struct"] = false := by
        rw [seesWordOf_of_kind (c := r.advance.cursor) hname]
        simp [hclass, hstruct]
      exact ⟨_, takeEnum_of_head false hword (Cursor.takeWord_of_kind hname) h₂, h₂.cons.2.2, fun ts => rfl⟩
  obtain ⟨c, htake, hfaces, hbefore⟩ := hhead
  obtain ⟨id, r', hbody, hcatalog, hcursor⟩ := takeEnumBody_faces d (r := r.moveTo c.advance) hdefines hfaces
  exact ⟨id, r', htake.trans hbody, hcatalog, hcursor.trans (hbefore _)⟩

/-- No traits added to a type leave it as it is. -/
theorem addTraits_nil (r : Reader) (id : TypeId) : r.addTraits id [] = r := by
  have hcatalog : (r.catalog.edit id fun d => { d with traits := d.traits ++ [] }) = r.catalog :=
    Catalog.setRecord_of_eq (by rw [List.append_nil])
  unfold addTraits edit Recorder.change
  dsimp only
  rw [hcatalog]

/-- Empty parentheses hold no traits. -/
theorem takeTraits_empty {c : Cursor} {kinds : List Token.Kind} {rest : List Token}
    (h : c.Faces (.mark '(' :: .mark ')' :: kinds) rest) : c.takeTraits = ([], c.advance.advance) := by
  obtain ⟨-, -, h₁⟩ := h.cons
  obtain ⟨hend, -, -⟩ := h₁.cons
  have hopen : c.sees '(' = true := h.sees '('
  have hclose : c.advance.sees ')' = true := h₁.sees ')'
  rw [Cursor.takeTraits, if_pos hopen, Cursor.takeTraitEntries, dif_neg (by rw [hend]; decide), if_pos hclose]

/-- The next turn of reading a header declares a type, and the tokens `rest` are left; reading goes on with them, and if there are none
the whole header has been read. -/
structure Declares (options : ScanOptions) (r : Reader) (type : TypeDef) (rest : List Token) : Prop where
  catalog : (r.headerTurn options).catalog = (r.catalog.register type).2
  cursor : (r.headerTurn options).cursor = r.cursor.before rest
  goesOn : takeHeader options r = takeHeader options (r.headerTurn options)
  whole : rest = [] → (takeHeader options r).catalog = (r.catalog.register type).2 ∧
    (takeHeader options r).cursor = r.cursor.before []

/-- What a turn leaves is what reading the header leaves, if there is nothing behind it. -/
theorem Declares.of_turn {options : ScanOptions} {r : Reader} {type : TypeDef} {rest : List Token} (hend : r.cursor.atEnd = false)
    (hcatalog : (r.headerTurn options).catalog = (r.catalog.register type).2)
    (hcursor : (r.headerTurn options).cursor = r.cursor.before rest) : r.Declares options type rest := by
  have hturn : takeHeader options r = takeHeader options (r.headerTurn options) := by
    rw [takeHeader_eq, if_neg (Bool.eq_false_iff.mp hend)]
  refine ⟨hcatalog, hcursor, hturn, ?_⟩
  rintro rfl
  have hlast : (r.headerTurn options).cursor.atEnd = true := by
    rw [hcursor]
    rfl
  rw [hturn, takeHeader_eq, if_pos hlast]
  exact ⟨hcatalog, hcursor⟩

/-- An annotated enum is one turn of reading a header. -/
theorem declares_faces {outer : List EnumValue} (options : ScanOptions) (d : Declaration) {r : Reader} {rest : List Token}
    (hdefines : r.catalog.Defines outer) (h : r.cursor.Faces d.kinds rest) :
    r.Declares options (d.type (valuesAfter outer [] d.entries)) (Cursor.afterMark ';' rest) := by
  have hkinds : d.kinds = .word "REFLECTED" :: .mark '(' :: .mark ')' :: .word "enum" ::
      ((if d.isScoped then [.word "class"] else []) ++
        (.word d.name :: .mark '{' :: (entryKinds d.entries ++ [.mark '}']))) := by
    simp [Declaration.kinds]
  rw [hkinds] at h
  obtain ⟨hend, -, h₁⟩ := h.cons
  obtain ⟨-, -, h₂⟩ := h₁.cons
  obtain ⟨-, -, h₃⟩ := h₂.cons
  obtain ⟨-, henum, -⟩ := h₃.cons
  have hmarker : r.cursor.seesMarker .reflected = true := h.seesWord _
  obtain ⟨id, r', htake, hcatalog, hcursor⟩ :=
    takeEnum_faces d (r := r.moveTo r.cursor.advance.advance.advance) hdefines h₃
  have hstruct : (r.moveTo r.cursor.advance.advance.advance).cursor.seesWordOf ["struct", "class"] = false :=
    seesWordOf_of_kind henum _
  have hword : (r.moveTo r.cursor.advance.advance.advance).cursor.seesWord "enum" = true := h₃.seesWord _
  have hturn : r.headerTurn options = r' := by
    rw [headerTurn, if_pos hmarker, takeTraits_empty h₁]
    dsimp only
    rw [takeReflected_eq, hstruct, if_neg Bool.false_ne_true, if_pos hword, htake]
    exact addTraits_nil r' id
  rw [← hturn] at hcatalog hcursor
  exact .of_turn hend hcatalog hcursor

/-- An annotated enum is read as the grammar means it: it is declared with its entries in their order, each with its value, and
reading goes on behind the `}` that closes it and a `;` behind that. A header in which nothing else follows is read with this. -/
theorem enum_read_as_meant (options : ScanOptions) (d : Declaration) {outer : List EnumValue} {r : Reader}
    {rest : List Token} (hdefines : r.catalog.Defines outer) (h : r.cursor.Faces d.kinds rest) :
    ∃ values : List EnumValue, Denotes outer d.entries values ∧
      r.Declares options (d.type values) (Cursor.afterMark ';' rest) :=
  ⟨valuesAfter outer [] d.entries, denotes_valuesAfter outer d.entries, declares_faces options d hdefines h⟩

/-- `enum class Mode { A = -(1 << 3) | Base::Low, B, Top = FLAG(Low) << 60, Gone = B << 64 | Mask }` -/
def modeDeclaration : Declaration where
  isScoped := true
  name := "Mode"
  entries :=
    [⟨"A", some (.join (.operand (.minus (.group (.join (.operand (.int 1)) .shift (.int 3))))) .union
        (.name "Base" ["Low"] (by decide)))⟩,
      ⟨"B", none⟩,
      ⟨"Top", some (.join (.operand (.flag (.operand (.name "Low" [] (by decide))))) .shift (.int 60))⟩,
      ⟨"Gone", some (.join (.join (.operand (.name "B" [] (by decide))) .shift (.int 64)) .union
        (.name "Mask" [] (by decide)))⟩]
  entries_ne_nil := List.cons_ne_nil _ _
  name_of_unscoped := nofun

/-- An enum in which an entry stands twice. -/
def baseType : TypeDef := { name := "Base", enumValues := [⟨"Low", 3⟩, ⟨"High", -1⟩, ⟨"Low", 5⟩] }

/-- A reader in front of the enum `Mode`, in a catalog with `Base`. -/
def modeReader : Reader where
  catalog := (Change.register baseType).apply .empty
  cursor := .ofText
    "REFLECTED() enum class Mode { A = -(1 << 3) | Base::Low, B, Top = FLAG(Low) << 60, Gone = B << 64 | Mask };"

theorem enum_read_as_meant_at_mode :
    modeReader.catalog.Defines baseType.enumValues ∧
      modeReader.cursor.Faces modeDeclaration.kinds (modeReader.cursor.unread.drop 40) ∧
      (takeHeader {} modeReader).catalog = (modeReader.catalog.register
        (modeDeclaration.type [⟨"A", -5⟩, ⟨"B", -4⟩, ⟨"Top", Int64.minValue⟩, ⟨"Gone", 0⟩])).2 ∧
      (takeHeader {} modeReader).cursor = modeReader.cursor.before [] := by
  have hdefines : modeReader.catalog.Defines baseType.enumValues :=
    Catalog.Defines.empty.change (.register baseType)
  have hfaces : modeReader.cursor.Faces modeDeclaration.kinds (modeReader.cursor.unread.drop 40) :=
    ⟨modeReader.cursor.unread.take 40, by decide +kernel, (List.take_append_drop 40 _).symm⟩
  have hlast : Cursor.afterMark ';' (modeReader.cursor.unread.drop 40) = [] := by decide +kernel
  obtain ⟨values, hdenotes, hdeclares⟩ := enum_read_as_meant {} modeDeclaration hdefines hfaces
  have hvalues : values = [⟨"A", -5⟩, ⟨"B", -4⟩, ⟨"Top", Int64.minValue⟩, ⟨"Gone", 0⟩] := by
    rw [hdenotes.eq_valuesAfter]
    decide +kernel
  obtain ⟨hcatalog, hcursor⟩ := hdeclares.whole hlast
  rw [hvalues] at hcatalog
  exact ⟨hdefines, hfaces, hcatalog, hcursor⟩

end Reader

end HeaderAtlas
