import HeaderAtlas.Proofs.Cursor.Passed
import HeaderAtlas.Proofs.Member.Reading

/-!
# Reading methods

A method is read in two ways. With an annotation its parameters are read one by one, the specifiers behind them are taken in, and
it is recorded; without one the parameters are passed over as a block and the rest as a statement. Both ways are followed here over
the items of a method, and they end at the same place.
-/

namespace HeaderAtlas

/-! ## Specifiers and endings -/

namespace Specifier

/-- The modifiers with a specifier taken in. -/
def addTo (m : Modifiers) : Specifier → Modifiers
  | constant => { m with qualifiers := { m.qualifiers with isConst := true } }
  | override => { m with decorations := { m.decorations with isOverride := true } }
  | final => { m with decorations := { m.decorations with isFinal := true } }
  | zero => { m with decorations := { m.decorations with isAbstract := true } }

/-- Specifiers taken in one after the other set their flags and no others. -/
theorem foldl_addTo (specifiers : List Specifier) (m : Modifiers) :
    specifiers.foldl addTo m =
      { m with
        qualifiers := { m.qualifiers with isConst := m.qualifiers.isConst || decide (constant ∈ specifiers) }
        decorations := { m.decorations with
          isOverride := m.decorations.isOverride || decide (override ∈ specifiers)
          isFinal := m.decorations.isFinal || decide (final ∈ specifiers)
          isAbstract := m.decorations.isAbstract || decide (zero ∈ specifiers) } } := by
  induction specifiers generalizing m with
  | nil => simp
  | cons specifier specifiers ih =>
    rw [List.foldl_cons, ih]
    cases specifier <;> simp [addTo]

/-- The tokens of a specifier are soft. -/
theorem soft (specifiers : List Specifier) :
    ∀ item ∈ specifiers.flatMap items, ∃ kind, item = .token kind ∧ kind.Soft := by
  intro item hitem
  obtain ⟨specifier, -, hitem⟩ := List.mem_flatMap.mp hitem
  cases specifier with
  | constant | override | final =>
    obtain rfl := List.mem_singleton.mp hitem
    exact ⟨_, rfl, soft_word _⟩
  | zero =>
    rcases List.mem_cons.mp hitem with rfl | hitem
    · exact ⟨_, rfl, soft_mark (by decide)⟩
    · obtain rfl := List.mem_singleton.mp hitem
      exact ⟨_, rfl, fun _ => Token.Kind.noConfusion⟩

end Specifier

/-! ## What opens and closes nothing -/

/-- The items of the use of a type open and close nothing. -/
theorem TypeUse.flat {options : ScanOptions} (u : TypeUse options) : ∀ item ∈ u.items, item.Flat := by
  intro item hitem
  have hitem : item = .word "const" ∨ item = .word u.name ∨ item = .mark '*' ∨ item = .mark '&' := by
    simp only [TypeUse.items, TypeUse.frontItems, TypeUse.backItems, List.mem_append, List.mem_cons, List.mem_replicate] at hitem
    grind
  rcases hitem with rfl | rfl | rfl | rfl
  · exact flat_word _
  · exact flat_word _
  · exact flat_mark rfl rfl
  · exact flat_mark rfl rfl

namespace ParameterDeclaration

variable {options : ScanOptions}

/-- The items of a parameter open and close nothing. -/
theorem flat (p : ParameterDeclaration options) : ∀ item ∈ p.items, item.Flat := by
  intro item hitem
  rcases List.mem_append.mp hitem with hitem | hitem
  · exact p.type.flat item hitem
  rcases List.mem_append.mp hitem with hitem | hitem
  · obtain ⟨name, -, rfl⟩ := List.mem_map.mp hitem
    exact flat_word name
  · obtain ⟨text, -, hitem⟩ := List.mem_flatMap.mp hitem
    rcases List.mem_cons.mp hitem with rfl | hitem
    · exact flat_mark rfl rfl
    · obtain rfl := List.mem_singleton.mp hitem
      exact trivial

/-- The items of a parameter list open and close nothing. -/
theorem flat_listItems : ∀ (ps : List (ParameterDeclaration options)), ∀ item ∈ listItems ps, item.Flat
  | [] => fun _ hitem => absurd hitem List.not_mem_nil
  | [p] => p.flat
  | p :: q :: ps => by
    intro item hitem
    rcases List.mem_append.mp hitem with hitem | hitem
    · exact p.flat item hitem
    · rcases List.mem_cons.mp hitem with rfl | hitem
      · exact flat_mark rfl rfl
      · exact flat_listItems (q :: ps) item hitem

end ParameterDeclaration

namespace Cursor

variable {c : Cursor} {items : List Item} {rest : List Token} {kind : Token.Kind}

/-- Specifiers are read up to the mark that ends them. -/
theorem takeSpecifiers_shows {symbol : Char} (hsymbol : symbol ≠ '=') (specifiers : List Specifier) :
    ∀ {m : Modifiers} {c : Cursor}, c.Shows (specifiers.flatMap Specifier.items ++ .mark symbol :: items) rest →
      ∃ ts, c.takeSpecifiers m = (specifiers.foldl Specifier.addTo m, c.before ts) ∧
        (c.before ts).Shows (.mark symbol :: items) rest := by
  induction specifiers with
  | nil =>
    intro m c h
    obtain ⟨hend, hkind, -⟩ := Shows.token h
    refine ⟨c.unread, ?_, h⟩
    have hequals : c.sees '=' = false := by
      rw [sees_of_kind hkind, beq_eq_false_iff_ne]
      exact fun heq => hsymbol (Token.Kind.mark.inj heq)
    have hword : ∀ name, c.seesWord name = false := fun name => seesWord_of_kind hkind name
    rw [takeSpecifiers, hend, hword, hword, hword, hword, hword, hequals]
    rfl
  | cons specifier specifiers ih =>
    intro m c h
    rw [List.flatMap_cons, List.append_assoc] at h
    cases specifier with
    | constant =>
      obtain ⟨hend, hkind, hnext⟩ := Shows.token h
      obtain ⟨ts, htake, hshows⟩ := ih hnext
      refine ⟨ts, ?_, hshows⟩
      rw [takeSpecifiers, hend, seesWord_of_kind hkind]
      exact htake
    | override =>
      obtain ⟨hend, hkind, hnext⟩ := Shows.token h
      obtain ⟨ts, htake, hshows⟩ := ih hnext
      refine ⟨ts, ?_, hshows⟩
      rw [takeSpecifiers, hend, seesWord_of_kind hkind, seesWord_of_kind hkind]
      exact htake
    | final =>
      obtain ⟨hend, hkind, hnext⟩ := Shows.token h
      obtain ⟨ts, htake, hshows⟩ := ih hnext
      refine ⟨ts, ?_, hshows⟩
      rw [takeSpecifiers, hend, seesWord_of_kind hkind, seesWord_of_kind hkind, seesWord_of_kind hkind]
      exact htake
    | zero =>
      obtain ⟨hend, hkind, hnext⟩ := Shows.token h
      obtain ⟨-, hzero, hnext⟩ := Shows.token hnext
      obtain ⟨ts, htake, hshows⟩ := ih hnext
      refine ⟨ts, ?_, hshows⟩
      have hword : ∀ name, c.seesWord name = false := fun name => seesWord_of_kind hkind name
      rw [takeSpecifiers, hend, hword, hword, hword, hword, hword, sees_of_kind hkind, hzero]
      exact htake

/-- Specifiers are read up to the end of the method behind them. -/
theorem takeSpecifiers_ending (specifiers : List Specifier) (ending : MethodEnd)
    (h : c.Shows (specifiers.flatMap Specifier.items ++ ending.items) rest) :
    ∃ ts, c.takeSpecifiers { visibility := .publicAccess } = (Specifier.modifiers specifiers, c.before ts) ∧
      (c.before ts).Shows ending.items rest := by
  have hmodifiers : specifiers.foldl Specifier.addTo { visibility := .publicAccess } = Specifier.modifiers specifiers := by
    rw [Specifier.foldl_addTo]
    rfl
  rw [← hmodifiers]
  cases ending with
  | semicolon => exact takeSpecifiers_shows (by decide) specifiers h
  | body => exact takeSpecifiers_shows (by decide) specifiers h

/-- The end of a method is passed over, also by whatever passes over a statement. -/
theorem skipMethodBody_shows (ending : MethodEnd) (h : c.Shows ending.items rest) :
    c.skipMethodBody = c.before (ending.behind rest) ∧ c.skipStatement = c.before (ending.behind rest) := by
  cases ending with
  | semicolon =>
    obtain ⟨-, hkind, hrest⟩ := Shows.token h
    have hopen : c.sees '{' = false := sees_of_kind hkind _
    have hskip : c.skipStatement = c.before rest := by
      rw [Reader.skipStatement_of_semicolon hkind]
      exact hrest.eq_before
    rw [skipMethodBody, hopen]
    exact ⟨hskip, hskip⟩
  | body =>
    have hpeek := unread_eq_cons h.token.1
    have hkind : c.peek.kind = .mark '{' := h.token.2.1
    obtain ⟨hopen, run, t, ts, hunread, hrun, ht, hrest⟩ := Shows.block h
    obtain rfl : ts = rest := hrest
    have hblock : afterBlock '{' '}' 1 c.advance.unread = ts := by
      rw [hunread]
      exact afterBlock_nested rfl hrun ht
    have hskip : c.skipBlock '{' '}' = c.before ts := by
      rw [Cursor.skipBlock, if_pos hopen, hpeek, afterBlock, isMark_of_kind hkind, beq_self_eq_true, if_pos rfl, hblock]
      rfl
    constructor
    · rw [skipMethodBody, if_pos hopen, hskip, Reader.pass_before]
      rfl
    · rw [skipStatement, hpeek, afterStatement, isMark_of_kind hkind, isMark_of_kind hkind, isMark_of_kind hkind, hblock]
      rfl

/-! ## Names -/

theorem takeText_of_written {text : String} (h : c.Shows (.written kind text :: items) rest) :
    c.atEnd = false ∧ c.peek.kind = kind ∧ c.takeText.1 = text ∧ c.advance.Shows items rest := by
  obtain ⟨run, ts, hunread, ⟨hkind, rfl⟩, hshows⟩ := h
  obtain ⟨t, rfl, rfl⟩ := List.map_eq_singleton_iff.mp hkind
  rw [atEnd, takeText, peek, advance, hunread]
  exact ⟨rfl, rfl, rfl, hshows⟩

/-- The symbol of an operator is read up to the parenthesis behind it. -/
theorem takeSymbol_shows (symbols : List (Token.Kind × String)) (hsymbols : ∀ s ∈ symbols, s.1 ≠ .mark '(' ∧ s.1 ≠ .mark ';') :
    ∀ {c : Cursor}, c.Shows (symbols.map (fun s => .written s.1 s.2) ++ .mark '(' :: items) rest →
      ∃ ts, c.takeSymbol = (symbols.foldr (fun s text => s.2 ++ text) "", c.before ts) ∧
        (c.before ts).Shows (.mark '(' :: items) rest := by
  induction symbols with
  | nil =>
    intro c h
    obtain ⟨hend, hkind, -⟩ := Shows.token h
    refine ⟨c.unread, ?_, h⟩
    rw [takeSymbol, hend, sees_of_kind hkind]
    rfl
  | cons s symbols ih =>
    intro c h
    obtain ⟨⟨hparen, hsemicolon⟩, hsymbols⟩ := List.forall_mem_cons.mp hsymbols
    obtain ⟨hend, hkind, htext, hnext⟩ := takeText_of_written h
    obtain ⟨ts, htake, hshows⟩ := ih hsymbols hnext
    refine ⟨ts, ?_, hshows⟩
    rw [takeSymbol, hend, sees_of_kind hkind, sees_of_kind hkind, beq_false_of_ne hparen, beq_false_of_ne hsemicolon, htake, htext]
    rfl

/-- The name of a method is read up to the parenthesis behind it. -/
theorem takeMemberName_shows {options : ScanOptions} (name : MethodName options)
    (h : c.Shows (name.items ++ .mark '(' :: items) rest) :
    ∃ first ts, c.peek.kind = .word first ∧ first ∉ options.conventions ∧
      c.takeMemberName = (some name.text, c.before ts) ∧ (c.before ts).Shows (.mark '(' :: items) rest := by
  cases name with
  | word name ordinary =>
    obtain ⟨-, hkind, hnext⟩ := Shows.token h
    exact ⟨name, _, hkind, ordinary.not_convention, Reader.takeMemberName_of_word hkind ordinary.ne_operator, hnext⟩
  | operator first more symbols hconvention =>
    obtain ⟨-, hkind, hnext⟩ := Shows.token h
    obtain ⟨-, hfirst, -⟩ := takeText_of_written hnext
    have hopen : c.advance.sees '(' = false := by
      rw [sees_of_kind hfirst]
      exact beq_false_of_ne (symbols first List.mem_cons_self).1
    obtain ⟨ts, htake, hshows⟩ := takeSymbol_shows (first :: more) symbols hnext
    refine ⟨"operator", ts, hkind, hconvention, ?_, hshows⟩
    rw [takeMemberName, takeWord_of_kind hkind]
    dsimp only
    rw [beq_self_eq_true, if_pos rfl, takeOperator, hopen, Bool.false_and, if_neg Bool.false_ne_true, htake]
    rfl
  | call hconvention =>
    obtain ⟨-, hkind, hnext⟩ := Shows.token h
    obtain ⟨-, hopen, hnext⟩ := Shows.token hnext
    obtain ⟨-, hclose, hnext⟩ := Shows.token hnext
    obtain ⟨ts, htake, hshows⟩ := takeSymbol_shows [] (List.forall_mem_nil _) hnext
    refine ⟨"operator", ts, hkind, hconvention, ?_, hshows⟩
    have hcall : (c.advance.sees '(' && (c.advance.ahead 1).isMark ')') = true := by
      rw [ahead_one, sees_of_kind hopen, isMark_of_kind hclose]
      rfl
    rw [takeMemberName, takeWord_of_kind hkind]
    dsimp only
    rw [beq_self_eq_true, if_pos rfl, takeOperator, if_pos hcall, htake]
    rfl

/-! ## Parameters -/

/-- The name of a parameter, if there is one. -/
theorem takeWord_shows {symbol : Char} (name : Option String) (h : c.Shows (name.toList.map .word ++ .mark symbol :: items) rest) :
    ∃ ts, c.takeWord = (name, c.before ts) ∧ (c.before ts).Shows (.mark symbol :: items) rest := by
  cases name with
  | none =>
    obtain ⟨-, hkind, -⟩ := Shows.token h
    refine ⟨c.unread, ?_, h⟩
    rw [takeWord, Token.word?, hkind]
    rfl
  | some name =>
    obtain ⟨-, hkind, hnext⟩ := Shows.token h
    exact ⟨_, takeWord_of_kind hkind, hnext⟩

/-- What stands behind the name of a parameter begins with a mark. -/
theorem default_first (value : Option String) {symbol : Char} (hsymbol : symbol ∈ [',', ')']) (items : List Item) :
    ∃ first items', (value.toList.flatMap fun text => [.mark '=', .value text]) ++ .mark symbol :: items = .mark first :: items' ∧
      first ∈ ['=', ',', ')'] := by
  cases value with
  | none => exact ⟨symbol, items, rfl, List.mem_cons_of_mem _ hsymbol⟩
  | some text => exact ⟨'=', _, rfl, List.mem_cons_self⟩

/-- The default of a parameter, if there is one. -/
theorem takeDefault_shows (value : Option String) {symbol : Char} (hsymbol : symbol ∈ [',', ')']) (hc : c.Lined)
    (h : c.Shows ((value.toList.flatMap fun text => [.mark '=', .value text]) ++ .mark symbol :: items) rest) :
    ∃ ts, c.takeDefault = (value, c.before ts) ∧ (c.before ts).Shows (.mark symbol :: items) rest := by
  cases value with
  | none =>
    obtain ⟨-, hkind, -⟩ := Shows.token h
    refine ⟨c.unread, ?_, h⟩
    have hequals : c.sees '=' = false := by
      rw [sees_of_kind hkind, beq_eq_false_iff_ne]
      rintro ⟨⟩
      exact absurd hsymbol (by decide)
    rw [takeDefault, hequals]
    rfl
  | some text =>
    obtain ⟨-, hkind, hnext⟩ := Shows.token h
    have hstop : symbol ∈ [',', ';', ')'] := by
      simp only [List.mem_cons, List.not_mem_nil, or_false] at hsymbol ⊢
      exact hsymbol.imp_right Or.inr
    obtain ⟨ts, hcapture, hshows⟩ := Shows.value [',', ';', ')'] (hc.onward (.of_suffix (List.tail_suffix _))) hnext
      (by simp [isOpener, isCloser]) (Or.inl hstop)
    refine ⟨ts, ?_, hshows⟩
    rw [takeDefault, sees_of_kind hkind]
    exact hcapture

end Cursor

namespace Reader

variable {options : ScanOptions} {r : Reader} {items : List Item} {rest : List Token}

/-- The use of a type refers to it. -/
theorem use_expr (u : TypeUse options) (r : Reader) (name : String) :
    ∃ r', r.use (u.expr r.catalog) name = ((u.expr r.catalog).property (r.catalog.reference u.name).1 name, r') ∧
      r'.catalog = (r.catalog.reference u.name).2 ∧ r'.cursor = r.cursor := by
  rw [Catalog.reference]
  cases hlookup : r.catalog.lookup u.name with
  | some id => exact ⟨r, use_of_some hlookup r name, rfl, rfl⟩
  | none =>
    refine ⟨(r.placeholderFor u.name).2, ?_, ?_, rfl⟩
    · rw [use, show (u.expr r.catalog).type = none from hlookup]
      rfl
    · rfl

/-- A parameter is read up to the mark behind it. -/
theorem takeParameter_shows (p : ParameterDeclaration options) {symbol : Char} (hsymbol : symbol ∈ [',', ')'])
    (hc : r.cursor.Lined) (h : r.cursor.Shows (p.items ++ .mark symbol :: items) rest) :
    ∃ r' ts, r.takeParameter = (some ⟨p.property (r.catalog.reference p.type.name).1, p.name, p.value⟩, r') ∧
      r'.catalog = (r.catalog.reference p.type.name).2 ∧ r'.cursor = r.cursor.before ts ∧ r'.remaining < r.remaining ∧
      (r.cursor.before ts).Shows (.mark symbol :: items) rest := by
  obtain ⟨first, items', hfirst, hmark⟩ := Cursor.default_first p.value hsymbol items
  rw [ParameterDeclaration.items, ParameterDeclaration.backItems, List.append_assoc, List.append_assoc] at h
  obtain ⟨kind, items'', hnext, hends⟩ : ∃ kind items'',
      p.name.toList.map Item.word ++ ((p.value.toList.flatMap fun text => [.mark '=', .value text]) ++ .mark symbol :: items) =
        .token kind :: items'' ∧ kind.EndsType := by
    cases hname : p.name with
    | some name => exact ⟨.word name, _, rfl, endsType_word (p.ordinary name hname).ne_const⟩
    | none =>
      have hends : ∀ first ∈ ['=', ',', ')'], (Token.Kind.mark first).EndsType := by simp [Token.Kind.EndsType]
      exact ⟨.mark first, items', hfirst, hends first hmark⟩
  rw [hnext] at h
  obtain ⟨ts, htype, hback⟩ := takeType_shows p.type none hends h
  rw [← hnext, hfirst] at hback
  obtain ⟨ts₁, hname, hdefault⟩ := Cursor.takeWord_shows p.name hback
  have hlined : (r.cursor.before ts₁).Lined := by
    have honward := onward_takeType none r
    have honward' := (r.cursor.before ts).onward_takeWord
    rw [htype] at honward
    rw [hname] at honward'
    exact hc.onward (Cursor.Onward.trans honward honward')
  rw [Cursor.before_before] at hdefault hname
  obtain ⟨-, hpeek, -⟩ := hdefault.token
  rw [← hfirst] at hdefault
  obtain ⟨ts₂, hvalue, hend⟩ := Cursor.takeDefault_shows p.value hsymbol hlined hdefault
  obtain ⟨r', huse, hcatalog, hcursor⟩ := use_expr p.type (r.moveTo (r.cursor.before ts₁)) (p.name.getD "")
  have hbracket : (r.cursor.before ts₁).sees '[' = false := by
    rw [Cursor.sees_of_kind hpeek, beq_eq_false_iff_ne]
    rintro ⟨⟩
    exact absurd hmark (by decide)
  have hnonempty : (p.type.expr r.catalog).isEmpty = false := by
    rw [TypeExpr.isEmpty, show (p.type.expr r.catalog).name = p.type.name from rfl, beq_false_of_ne p.type.ordinary.ne_empty,
      Bool.false_and]
  have hless : (r.cursor.before ts₂).remaining < r.cursor.remaining := by
    have hempty : (takeType none r).1.isEmpty = false := by rw [htype]; exact hnonempty
    have htake := remaining_takeType_lt hempty
    have hword := (r.cursor.before ts).onward_takeWord.remaining_le
    have hdefault := (r.cursor.before ts₁).onward_takeDefault.remaining_le
    rw [htype] at htake
    rw [hname] at hword
    rw [hvalue] at hdefault
    exact Nat.lt_of_le_of_lt hdefault (Nat.lt_of_le_of_lt hword htake)
  refine ⟨r'.moveTo (r.cursor.before ts₂), ts₂, ?_, hcatalog, rfl, hless, hend⟩
  have hskip : (r.cursor.before ts₁).skipBlock '[' ']' = r.cursor.before ts₁ := by rw [Cursor.skipBlock, hbracket]; rfl
  rw [takeParameter, htype]
  dsimp only
  rw [hnonempty, if_neg Bool.false_ne_true, show (r.moveTo (r.cursor.before ts)).cursor = r.cursor.before ts from rfl, hname]
  dsimp only
  rw [show (r.moveTo (r.cursor.before ts)).moveTo (r.cursor.before ts₁) = r.moveTo (r.cursor.before ts₁) from rfl,
    show p.type.expr r.catalog = p.type.expr (r.moveTo (r.cursor.before ts₁)).catalog from rfl, huse]
  dsimp only
  rw [hcursor, show (r.moveTo (r.cursor.before ts₁)).cursor = r.cursor.before ts₁ from rfl, hbracket, hskip, hvalue]
  rfl

/-- A parameter is no `void` alone in parentheses. -/
theorem not_void (p : ParameterDeclaration options) {symbol : Char}
    (h : r.cursor.Shows (p.items ++ .mark symbol :: items) rest) :
    (r.cursor.seesWord "void" && (r.cursor.ahead 1).isMark ')') = false := by
  cases hvoid : r.cursor.seesWord "void" with
  | false => rfl
  | true =>
    have hkind := Cursor.kind_of_seesWord hvoid
    suffices hsecond : ∃ kind items', p.items ++ .mark symbol :: items = .word "void" :: .token kind :: items' ∧
        kind ≠ .mark ')' by
      obtain ⟨kind, items', hitems, hne⟩ := hsecond
      rw [hitems] at h
      rw [Bool.true_and, Cursor.ahead_one, Token.isMark, h.token.2.2.token.2.1]
      exact beq_false_of_ne hne
    obtain ⟨⟨name, isConst, stars, isConstPointer, isReference, _, hpositive⟩, paramName, value, _, hbare⟩ := p
    cases isConst with
    | true =>
      have hconst := h.token.2.1
      rw [hkind] at hconst
      exact absurd (Token.Kind.word.inj hconst) (by decide)
    | false =>
      have hname := h.token.2.1
      rw [hkind] at hname
      obtain rfl : "void" = name := Token.Kind.word.inj hname
      cases stars with
      | succ n => exact ⟨_, _, rfl, by decide⟩
      | zero =>
        obtain rfl : isConstPointer = false := by
          cases isConstPointer with
          | true => exact absurd (hpositive rfl) (Nat.lt_irrefl 0)
          | false => rfl
        cases isReference with
        | true => exact ⟨_, _, rfl, by decide⟩
        | false =>
          cases paramName with
          | some other => exact ⟨_, _, rfl, fun h => Token.Kind.noConfusion h⟩
          | none =>
            cases value with
            | some text => exact ⟨_, _, rfl, by decide⟩
            | none => exact absurd rfl (hbare rfl rfl)

/-- A turn of reading parameters reads one, with a comma behind it. -/
theorem parameterTurn_shows (p : ParameterDeclaration options) {symbol : Char} (hsymbol : symbol ∈ [',', ')'])
    (hc : r.cursor.Lined) (h : r.cursor.Shows (p.items ++ .mark symbol :: items) rest) :
    ∃ r' ts, r.parameterTurn = (some ⟨p.property (r.catalog.reference p.type.name).1, p.name, p.value⟩, r') ∧
      r'.catalog = (r.catalog.reference p.type.name).2 ∧ r'.cursor = r.cursor.before ts ∧
      (r.cursor.before ts).Shows (if symbol = ',' then items else .mark symbol :: items) rest := by
  obtain ⟨r₁, ts, htake, hcatalog, hcursor, hless, hshows⟩ := takeParameter_shows p hsymbol hc h
  obtain ⟨ts', hfinish, hshows'⟩ : ∃ ts', (r.cursor.before ts).finishParameter = r.cursor.before ts' ∧
      (r.cursor.before ts').Shows (if symbol = ',' then items else .mark symbol :: items) rest := by
    obtain ⟨hend, hkind, hnext⟩ := hshows.token
    have hpeek := Cursor.unread_eq_cons hend
    rw [Cursor.finishParameter, hpeek, Cursor.afterParameter, isMark_of_kind hkind, isMark_of_kind hkind, isMark_of_kind hkind]
    simp only [List.mem_cons, List.not_mem_nil, or_false] at hsymbol
    rcases hsymbol with rfl | rfl
    · exact ⟨_, rfl, hnext⟩
    · refine ⟨ts, ?_, hshows⟩
      rw [← hpeek]
      rfl
  have hless' : (r₁.moveTo (r.cursor.before ts')).remaining < r.remaining := by
    have honward := (r.cursor.before ts).onward_finishParameter.remaining_le
    rw [hfinish] at honward
    rw [remaining, hcursor] at hless
    exact Nat.lt_of_le_of_lt honward hless
  refine ⟨r₁.moveTo (r.cursor.before ts'), ts', ?_, hcatalog, rfl, hshows'⟩
  rw [parameterTurn, not_void p h, if_neg Bool.false_ne_true, htake]
  dsimp only
  rw [hcursor, hfinish, resume_eq hless']

/-- What a parameter is read as, if its type has this handle. -/
def parameterOf (p : ParameterDeclaration options) (id : TypeId) : Parameter := ⟨p.property id, p.name, p.value⟩

/-- Parameters are read from the first to the last, with the parenthesis behind them. -/
theorem takeParameters_shows : ∀ (ps : List (ParameterDeclaration options)) {r : Reader}, r.cursor.Lined →
    r.cursor.Shows (ParameterDeclaration.listItems ps ++ .mark ')' :: items) rest →
    ∃ r' ts, r.takeParameters =
        (List.zipWith parameterOf ps (r.catalog.referAll (ps.map (·.type.name))).1, r') ∧
      r'.catalog = (r.catalog.referAll (ps.map (·.type.name))).2 ∧ r'.cursor = r.cursor.before ts ∧
      (r.cursor.before ts).Shows items rest := by
  -- what is left after the last parameter
  have hclose : ∀ {r : Reader}, r.cursor.Shows (.mark ')' :: items) rest →
      r.takeParameters = ([], r.advance) ∧ r.cursor.advance.Shows items rest := by
    intro r h
    obtain ⟨hend, hkind, hnext⟩ := h.token
    refine ⟨?_, hnext⟩
    rw [takeParameters_eq, hend, Cursor.sees_of_kind hkind, Cursor.sees_of_kind hkind]
    rfl
  -- a turn in front of a parameter
  have hturn : ∀ (p : ParameterDeclaration options) {r : Reader} {items' : List Item}, r.cursor.Shows (p.items ++ items') rest →
      r.takeParameters = (r.parameterTurn.1.toList ++ r.parameterTurn.2.takeParameters.1, r.parameterTurn.2.takeParameters.2) := by
    intro p r items' h
    rw [ParameterDeclaration.items, List.append_assoc] at h
    obtain ⟨first, items'', hitems, -⟩ := p.type.items_first (p.backItems ++ items')
    rw [hitems] at h
    obtain ⟨hend, hkind, -⟩ := h.token
    have hmark : ∀ symbol, r.cursor.sees symbol = false := fun symbol => Cursor.sees_of_kind hkind symbol
    rw [takeParameters_eq, hend, hmark, hmark]
    rfl
  intro ps
  induction ps with
  | nil =>
    intro r _ h
    obtain ⟨htake, hnext⟩ := hclose h
    exact ⟨r.advance, _, htake, rfl, rfl, hnext⟩
  | cons p ps ih =>
    intro r hc h
    cases ps with
    | nil =>
      obtain ⟨r₁, ts, hone, hcatalog, hcursor, hshows⟩ := parameterTurn_shows p (by decide) hc h
      rw [if_neg (by decide), ← hcursor] at hshows
      obtain ⟨htake, hnext⟩ := hclose hshows
      rw [hcursor] at hnext
      refine ⟨r₁.advance, _, ?_, hcatalog, ?_, hnext⟩
      · rw [hturn p h, hone]
        dsimp only
        rw [htake]
        rfl
      · rw [show r₁.advance.cursor = r₁.cursor.advance from rfl, hcursor]
        rfl
    | cons q ps =>
      rw [ParameterDeclaration.listItems, List.append_assoc] at h
      obtain ⟨r₁, ts, hone, hcatalog, hcursor, hshows⟩ := parameterTurn_shows p (by decide) hc h
      rw [if_pos rfl, ← hcursor] at hshows
      have honward := onward_parameterTurn r
      rw [hone] at honward
      obtain ⟨r', ts', htake, hcatalog', hcursor', hnext⟩ := ih (hc.onward honward) hshows
      rw [hcursor, Cursor.before_before] at hcursor' hnext
      refine ⟨r', ts', ?_, ?_, hcursor', hnext⟩
      · rw [hturn p h, hone]
        dsimp only
        rw [htake, hcatalog]
        rfl
      · rw [hcatalog', hcatalog]
        rfl

theorem length_referAll (c : Catalog) (names : List String) : (c.referAll names).1.length = names.length := by
  induction names generalizing c with
  | nil => rfl
  | cons name names ih => exact congrArg Nat.succ (ih _)

/-- The names and defaults of parameters do not depend on the handles of their types. -/
theorem map_parameterOf {α : Type} (f : Parameter → α) (g : ParameterDeclaration options → α)
    (h : ∀ p id, f (parameterOf p id) = g p) : ∀ (ps : List (ParameterDeclaration options)) (handles : List TypeId),
      handles.length = ps.length → (List.zipWith parameterOf ps handles).map f = ps.map g
  | [], _, _ => rfl
  | p :: ps, [], hlength => by cases hlength
  | p :: ps, id :: handles, hlength => by
    rw [List.zipWith_cons_cons, List.map_cons, h, map_parameterOf f g h ps handles (Nat.succ.inj hlength), List.map_cons]

/-- A method of which the head has been read is recorded, and reading goes on behind it. -/
theorem takeMethod_shows (m : MethodDeclaration options) (owner : TypeId) (depth : Nat) (traits : Traits) {result : TypeId}
    (hc : r.cursor.Lined) (hresult : r.catalog.lookup m.returns.name = some result) (h : r.cursor.Shows m.backItems rest) :
    ∃ r', r.takeMethod ⟨some owner, .publicAccess, depth⟩ (plainHead (m.returns.expr r.catalog) m.name.text traits) = r' ∧
      r'.catalog = (m.handles r.catalog).2.edit owner (fun d => { d with
        methods := d.methods ++ [m.method owner result (m.handles r.catalog).1 traits] }) ∧
      r'.cursor = r.cursor.before (m.ending.behind rest) := by
  obtain ⟨-, -, hparams⟩ := Cursor.Shows.token h
  have hlined := hc.onward r.cursor.onward_advance
  obtain ⟨r₁, ts, htake, hcatalog, hcursor, hshows⟩ := takeParameters_shows (r := r.advance) m.parameters hlined hparams
  obtain ⟨ts', hspecifiers, hending⟩ := Cursor.takeSpecifiers_ending m.specifiers m.ending hshows
  obtain ⟨hbody, -⟩ := Cursor.skipMethodBody_shows m.ending hending
  have hlength : (m.handles r.catalog).1.length = m.parameters.length := by
    rw [MethodDeclaration.handles, length_referAll, List.length_map]
  have hmethod : r.takeMethod ⟨some owner, .publicAccess, depth⟩ (plainHead (m.returns.expr r.catalog) m.name.text traits) =
      (r₁.moveTo (r.cursor.before (m.ending.behind rest))).addMethod ⟨some owner, .publicAccess, depth⟩
        (m.method owner result (m.handles r.catalog).1 traits) := by
    have hnames := map_parameterOf Parameter.name ParameterDeclaration.name (fun _ _ => rfl) m.parameters _ hlength
    have hdefaults := map_parameterOf Parameter.defaultText ParameterDeclaration.value (fun _ _ => rfl) m.parameters _ hlength
    have hproperties : (List.zipWith parameterOf m.parameters (m.handles r.catalog).1).map Parameter.property =
        List.zipWith ParameterDeclaration.property m.parameters (m.handles r.catalog).1 := List.map_zipWith
    have htake' : r.advance.takeParameters = (List.zipWith parameterOf m.parameters (m.handles r.catalog).1, r₁) := htake
    rw [takeMethod, use_of_some (show (plainHead (m.returns.expr r.catalog) m.name.text traits).type.type = some result from hresult)]
    dsimp only
    rw [htake']
    dsimp only
    rw [hnames, hdefaults, hproperties, hcursor,
      show methodModifiers _ (plainHead (m.returns.expr r.catalog) m.name.text traits).type.modifiers =
        { visibility := .publicAccess } from rfl, hspecifiers]
    dsimp only
    rw [hbody]
    rfl
  have hcatalog' : r₁.catalog = (m.handles r.catalog).2 := hcatalog
  refine ⟨_, hmethod, ?_, rfl⟩
  rw [← hcatalog']
  rfl

/-! ## Members that are methods -/

/-- A method of which the annotation is known goes on behind its name. -/
theorem takeMember_named (m : MethodDeclaration options) {scope : Scope} {result : TypeId} {traits : Option Traits} {c : Cursor}
    (hconst : "const" ∉ options.apiWords) (hresult : r.catalog.lookup m.returns.name = some result)
    (hhidden : r.cursor.seesMarker .hidden = false) (hannotated : takeMemberTraits r.cursor = (traits, c))
    (h : c.Shows m.items rest) :
    ∃ ts, r.takeMember options scope =
        (r.moveTo (c.before ts)).takeMemberBody scope traits.isSome
          (plainHead (m.returns.expr r.catalog) m.name.text (traits.getD [])) ∧
      c.Onward (c.before ts) ∧ (c.before ts).Shows m.backItems rest := by
  obtain ⟨first, items', hfirst, hends⟩ : ∃ first items', m.name.items ++ m.backItems = .word first :: items' ∧ first ≠ "const" := by
    cases m.name with
    | word name ordinary => exact ⟨name, _, rfl, ordinary.ne_const⟩
    | operator => exact ⟨_, _, rfl, by decide⟩
    | call => exact ⟨_, _, rfl, by decide⟩
  rw [MethodDeclaration.items, hfirst] at h
  obtain ⟨ts, location, hmember, honward, hname⟩ :=
    takeMember_of_use m.returns hconst hresult (endsType_word hends) hhidden hannotated h
  change (c.before ts).Shows (.word first :: items') rest at hname
  rw [← hfirst] at hname
  obtain ⟨word, ts', hword, hconvention, htake, hback⟩ := Cursor.takeMemberName_shows m.name hname
  have honward' := (c.before ts).onward_takeMemberName
  rw [htake] at honward'
  refine ⟨ts', ?_, honward.trans honward', hback⟩
  rw [hmember, takeNamedMember_of_name rfl rfl hword hconvention htake]
  rfl

/-- A method with an annotation is recorded. -/
theorem takeMember_annotated (m : MethodDeclaration options) (owner : TypeId) (depth : Nat) (hconst : "const" ∉ options.apiWords)
    {result : TypeId} (hresult : r.catalog.lookup m.returns.name = some result) (hc : r.cursor.Lined)
    (h : r.cursor.Shows (commandItems ++ m.items) rest) :
    let after := r.takeMember options ⟨some owner, .publicAccess, depth⟩
    let method := m.method owner result (m.handles r.catalog).1 r.cursor.advance.takeTraits.1
    after.catalog = (m.handles r.catalog).2.edit owner (fun d => { d with methods := d.methods ++ [method] }) ∧
      after.cursor = r.cursor.before (m.ending.behind rest) := by
  intro after method
  obtain ⟨-, hmarker, htraits⟩ := Cursor.Shows.token h
  obtain ⟨ts, htake, hitems⟩ := htraits.takeTraits
  have hhidden : r.cursor.seesMarker .hidden = false := Cursor.seesWord_of_kind hmarker _
  have hannotated : takeMemberTraits r.cursor = (some r.cursor.advance.takeTraits.1, r.cursor.before ts) := by
    have hcommand : r.cursor.seesMarker .command = true := Cursor.seesWord_of_kind hmarker _
    rw [takeMemberTraits, hcommand, Bool.or_true, Bool.true_or, if_pos rfl]
    exact congrArg (Prod.mk _) htake
  obtain ⟨ts', hmember, honward, hback⟩ := takeMember_named m hconst hresult hhidden hannotated hitems
  have hlined : ((r.cursor.before ts).before ts').Lined := by
    have htraits := r.cursor.onward_advance.trans r.cursor.advance.onward_takeTraits
    rw [htake] at htraits
    exact hc.onward (htraits.trans honward)
  obtain ⟨r', hmethod, hcatalog, hcursor⟩ := takeMethod_shows (r := r.moveTo ((r.cursor.before ts).before ts')) m owner depth
    r.cursor.advance.takeTraits.1 hlined hresult hback
  have hafter : after = r' := by
    have hopen : ((r.cursor.before ts).before ts').sees '(' = true := Cursor.sees_of_kind (Cursor.Shows.token hback).2.1 _
    rw [← hmethod]
    exact hmember.trans (if_pos hopen)
  rw [hafter]
  exact ⟨hcatalog, hcursor⟩

/-- What stands behind the name of a method is passed over as a block and a statement. -/
theorem skip_method (m : MethodDeclaration options) {c : Cursor} (h : c.Shows m.backItems rest) :
    (c.skipBlock '(' ')').skipStatement = c.before (m.ending.behind rest) := by
  obtain ⟨run, ts, hunread, hrun, hlist⟩ := h
  have hblock : c.Shows (.mark '(' :: .nested :: .mark ')' :: (m.specifiers.flatMap Specifier.items ++ m.ending.items)) rest :=
    ⟨run, ts, hunread, hrun, Cursor.Shows.nested (ParameterDeclaration.flat_listItems m.parameters) hlist⟩
  obtain ⟨ts, hskip, hspecifiers⟩ := Cursor.Shows.skipBlock rfl hblock
  obtain ⟨ts', hpassed, hending⟩ := Cursor.Shows.passed (Specifier.soft _) hspecifiers
  have hstatement := (Cursor.skipMethodBody_shows m.ending hending).2
  rw [show closerOf '(' = ')' from rfl] at hskip
  rw [hskip, Cursor.skipStatement, Cursor.afterStatement_passed hpassed]
  exact hstatement

/-- A method without an annotation is passed over. -/
theorem takeMember_unannotated (m : MethodDeclaration options) (scope : Scope) (hconst : "const" ∉ options.apiWords)
    {result : TypeId} (hresult : r.catalog.lookup m.returns.name = some result) (h : r.cursor.Shows m.items rest) :
    r.takeMember options scope =
      (r.moveTo (r.cursor.before (m.ending.behind rest))).noted (.unannotatedCallable m.name.text) := by
  obtain ⟨hmarker, -⟩ := not_seen_of_use m.returns hconst h
  obtain ⟨ts, hmember, -, hback⟩ := takeMember_named m hconst hresult (hmarker _) (takeMemberTraits_none hmarker) h
  have hopen : (r.cursor.before ts).sees '(' = true := Cursor.sees_of_kind (Cursor.Shows.token hback).2.1 _
  have hskip := skip_method m hback
  rw [Cursor.before_before] at hskip
  rw [← hskip]
  exact hmember.trans (if_pos hopen)

/-- A method read as a public member is recorded if and only if it is annotated. With the annotation, one method is added to the
type, with the parameters in order, their names and defaults as they are written and the flags of the specifiers; types of
parameters that are not known yet are referred to on the way. Without the annotation nothing is added. Both readings end at the same
place, behind the method. -/
theorem takeMember_method (m : MethodDeclaration options) (r : Reader) (rest : List Token) (owner : TypeId) (depth : Nat)
    (hconst : "const" ∉ options.apiWords) {result : TypeId} (hresult : r.catalog.lookup m.returns.name = some result) :
    let after := r.takeMember options ⟨some owner, .publicAccess, depth⟩
    let method := m.method owner result (m.handles r.catalog).1 r.cursor.advance.takeTraits.1
    (r.cursor.Lined → r.cursor.Shows (commandItems ++ m.items) rest →
      after.catalog = (m.handles r.catalog).2.edit owner (fun d => { d with methods := d.methods ++ [method] }) ∧
        after.cursor = r.cursor.before (m.ending.behind rest)) ∧
    (r.cursor.Shows m.items rest →
      after.catalog = r.catalog ∧ after.cursor = r.cursor.before (m.ending.behind rest)) := by
  intro after method
  refine ⟨takeMember_annotated m owner depth hconst hresult, fun h => ?_⟩
  have hafter := takeMember_unannotated m ⟨some owner, .publicAccess, depth⟩ hconst hresult h
  rw [show after = _ from hafter]
  exact ⟨rfl, rfl⟩

end Reader

/-- A method with a parameter of each kind. -/
def exampleMethod : MethodDeclaration {} where
  returns := .pointer "Node" (by decide +kernel) 1 true
  name := .word "find" (by decide +kernel)
  parameters :=
    [{ type := { name := "Key", isConst := true, isReference := true
                 ordinary := by decide +kernel, stars_of_isConstPointer := by decide }
       name := some "key", value := some "pick(1, 2)"
       ordinary := by rintro _ ⟨⟩; decide +kernel
       not_void := by rintro ⟨⟩ },
     { type := { name := "Other", stars := 2, isConstPointer := true
                 ordinary := by decide +kernel, stars_of_isConstPointer := by decide }
       ordinary := by rintro _ ⟨⟩
       not_void := by decide +kernel }]
  specifiers := [.constant, .override, .zero]
  ending := .semicolon

theorem takeMember_method_find :
    let before := session .empty [.scan {} "REFLECTED() struct Node { }; REFLECTED() struct Key { };"]
    let read (items : List Item) : Reader :=
      Reader.takeMember {} ⟨some ⟨0⟩, .publicAccess, 0⟩ { before with cursor := .ofText (.ofList (charsOf items)) }
    let methods (r : Reader) := r.catalog.records.map fun d => (d.name, d.methods.map Method.defaults)
    methods (read (commandItems ++ exampleMethod.items)) = [("Node", [[some "pick(1, 2)", none]]), ("Key", []), ("Other", [])] ∧
      (read (commandItems ++ exampleMethod.items)).cursor.unread = [] ∧
    methods (read exampleMethod.items) = [("Node", []), ("Key", [])] ∧ (read exampleMethod.items).cursor.unread = [] := by
  intro before read methods
  -- The texts are legible, item by item from the end.
  have hzero : Legible [.token (.int 0), .mark ';'] := (Legible.nil.mark (.of_lexeme rfl rfl)).int (n := 0) (by decide)
  have hend : Legible [.word "const", .word "override", .mark '=', .token (.int 0), .mark ';'] :=
    ((hzero.mark (.of_lexeme rfl rfl)).word rfl (by decide)).word rfl (by decide)
  have hclose : Legible (.mark ')' :: _) := hend.mark (.of_lexeme rfl rfl)
  have hcomma : Legible (.mark ',' :: _) :=
    (TypeUse.legible (exampleMethod.parameters.getLast (by decide)).type hclose).mark (.of_lexeme rfl rfl)
  have hkey : Legible (.word "key" :: .mark '=' :: .value "pick(1, 2)" :: .mark ',' :: _) :=
    ((hcomma.value ⟨by decide +kernel, by decide +kernel, by decide +kernel⟩).mark (.of_lexeme rfl rfl)).word rfl (by decide)
  have hfind : Legible (.word "find" :: .mark '(' :: _) :=
    ((TypeUse.legible (exampleMethod.parameters.head (by decide)).type hkey).mark (.of_lexeme rfl rfl)).word rfl (by decide)
  have hitems : Legible exampleMethod.items := TypeUse.legible exampleMethod.returns hfind
  have htraits : Legible (.nested :: .mark ')' :: exampleMethod.items) :=
    ⟨trivial, Bool.noConfusion, hitems.mark (.of_lexeme rfl rfl)⟩
  have hcommand : Legible (commandItems ++ exampleMethod.items) := (htraits.mark (.of_lexeme rfl rfl)).word rfl (by decide)
  obtain ⟨hcatalog, hcursor⟩ :=
    (Reader.takeMember_method exampleMethod { before with cursor := .ofText (.ofList (charsOf (commandItems ++ exampleMethod.items))) }
      [] ⟨0⟩ 0 (by decide) (show before.catalog.lookup "Node" = some ⟨0⟩ by decide +kernel)).1
      (Cursor.lined_ofText _) (shows_text hcommand)
  obtain ⟨hcatalog', hcursor'⟩ :=
    (Reader.takeMember_method exampleMethod { before with cursor := .ofText (.ofList (charsOf exampleMethod.items)) }
      [] ⟨0⟩ 0 (by decide) (show before.catalog.lookup "Node" = some ⟨0⟩ by decide +kernel)).2 (shows_text hitems)
  refine ⟨?_, congrArg Cursor.unread hcursor, ?_, congrArg Cursor.unread hcursor'⟩
  · dsimp only [methods]
    rw [show (read _).catalog = _ from hcatalog]
    decide +kernel
  · dsimp only [methods]
    rw [show (read _).catalog = _ from hcatalog']
    decide +kernel

end HeaderAtlas
