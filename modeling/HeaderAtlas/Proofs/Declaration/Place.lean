import HeaderAtlas.Proofs.Declaration.Angle

/-!
# Members stay in the body

The reader stands in the body of a type, and one member after the other is read. Some of what a member may hold is passed over up to
a mark that need not come: the arguments behind a name, the symbol of an operator, the length of an array, the name of a bit source.
Where that mark comes before the next brace, at every place of the body outside of inner braces (`bodyPlace`), a member is read
without leaving the body (`inBody_takeMember`), whether it is understood or not.
-/

namespace HeaderAtlas

/-! ## Marks that come before a brace -/

/-- One of the marks comes before the next brace. -/
def meets (marks : List Char) : List Token.Kind → Bool
  | [] => false
  | kind :: kinds =>
    marks.any (fun symbol => kind = .mark symbol) || (kind != .mark '{' && kind != .mark '}' && meets marks kinds)

/-- One of the marks comes before the next brace. -/
def Meets (marks : List Char) (ts : List Token) : Prop := ∃ run more, ts = run ++ more ∧ meets marks (run.map Token.kind) = true

namespace Meets

variable {marks : List Char} {t : Token} {ts ts' : List Token}

/-- The first token is one of the marks, or else no brace, and the mark comes behind it. -/
theorem cons (h : Meets marks (t :: ts)) :
    (∃ symbol ∈ marks, t.kind = .mark symbol) ∨ (t.kind ≠ .mark '{' ∧ t.kind ≠ .mark '}' ∧ Meets marks ts) := by
  obtain ⟨run, more, hts, hmeets⟩ := h
  cases run with
  | nil => cases hmeets
  | cons u run =>
    obtain ⟨rfl, rfl⟩ := List.cons.inj hts
    rw [List.map_cons, meets, Bool.or_eq_true, List.any_eq_true, Bool.and_eq_true, Bool.and_eq_true, bne_iff_ne, bne_iff_ne] at hmeets
    rcases hmeets with ⟨symbol, hsymbol, hkind⟩ | ⟨⟨hopen, hclose⟩, hmeets⟩
    · exact Or.inl ⟨symbol, hsymbol, of_decide_eq_true hkind⟩
    · exact Or.inr ⟨hopen, hclose, run, more, rfl, hmeets⟩

/-- Soft tokens are passed over in front of a mark that is none. -/
theorem passed (h : Meets marks ts) (hmarks : marks.any softMarks.contains = false) (hpassed : Passed ts ts') :
    Meets marks ts' := by
  obtain ⟨run, rfl, hrun⟩ := hpassed
  induction run with
  | nil => exact h
  | cons t run ih =>
    obtain ⟨ht, hrun⟩ := List.forall_mem_cons.mp hrun
    rcases h.cons with ⟨symbol, hsymbol, hkind⟩ | ⟨-, -, h⟩
    · exact absurd (List.contains_iff_mem.mpr (ht symbol hkind)) (List.any_eq_false.mp hmarks symbol hsymbol)
    · exact ih hrun h

end Meets

/-! ## The places of a body -/

/-- Behind the word `operator`: the symbol ends with its parameters or its statement. -/
def symbolEnds (kinds : List Token.Kind) : Bool :=
  meets ['(', ';'] (if kinds.take 2 = [.mark '(', .mark ')'] then kinds.drop 2 else kinds)

/-- What stands behind a trait list, if there is one. -/
def behindTraits : List Token.Kind → List Token.Kind
  | .mark '(' :: kinds =>
    match blockContent '(' ')' 0 kinds with
    | some content => kinds.drop (content.length + 1)
    | none => []
  | kinds => kinds

/-- The block that begins with the first of a brace and a `;`, if that is an opening brace. -/
def firstBody (kinds : List Token.Kind) : Option (List Token.Kind) :=
  match kinds.dropWhile fun kind => !kind.isBound with
  | .mark '{' :: kinds => blockContent '{' '}' 0 kinds
  | _ => none

/-- Behind the word `enum`: there is a body without braces, or a `;` comes before any brace. -/
def enumEnds (kinds : List Token.Kind) : Bool :=
  match firstBody kinds with
  | some body => !body.contains (.mark '{')
  | none => meets [';'] kinds

/-- Behind the marker of a type and its traits: the body of a struct or class passes the test `inner`, and an enum has an end. -/
def typeEnds (inner : List Token.Kind → Bool) : List Token.Kind → Bool
  | .word name :: kinds =>
    if ["struct", "class"].contains name then (firstBody kinds).all inner else name != "enum" || enumEnds kinds
  | _ => true

/-- At this place of a body nothing is begun that need not end in the body. The bodies of annotated types in it pass the test
`inner`. -/
def bodyPlace (inner : List Token.Kind → Bool) (kinds : List Token.Kind) : Bool :=
  angles kinds &&
  match kinds with
  | .word name :: kinds =>
    (name != "operator" || symbolEnds kinds) &&
    (name != Marker.bitFlags.word || match kinds with
      | .mark '(' :: kinds => meets [')'] kinds
      | _ => true) &&
    (name != Marker.reflected.word || typeEnds inner (behindTraits kinds))
  | .mark '[' :: kinds => meets [']', ';'] kinds
  | _ => true

/-- The tokens stand in a body where nothing is begun that need not end in it. -/
def InBody (inner : List Token.Kind → Bool) (base : List Char) (rest ts : List Token) : Prop :=
  InBlock '{' (bodyPlace inner) base rest ts

variable {inner : List Token.Kind → Bool} {base : List Char} {rest : List Token}

theorem angles_of_bodyPlace (kinds : List Token.Kind) (h : bodyPlace inner kinds = true) : angles kinds = true :=
  (Bool.and_eq_true_iff.mp h).1

namespace InBody

variable {ts : List Token} {t : Token}

/-- Behind the word `operator` in the body. -/
theorem symbolEnds (h : InBody inner base rest (t :: ts)) (ht : t.kind = .word "operator") :
    ∃ run u, ts = run ++ u :: rest ∧ u.kind = .mark '}' ∧ HeaderAtlas.symbolEnds (run.map Token.kind) = true := by
  obtain ⟨run, u, hts, hu, hplace⟩ := InBlock.exists_place h (by rw [ht]; exact fun h => Token.Kind.noConfusion h)
  refine ⟨run, u, hts, hu, ?_⟩
  rw [ht] at hplace
  simp only [bodyPlace, bne_self_eq_false, Bool.false_or, Bool.and_eq_true] at hplace
  exact hplace.2.1.1

/-- Behind the parenthesis of a bit source in the body. -/
theorem meets_bitSource {u : Token} (h : InBody inner base rest (t :: u :: ts)) (ht : t.kind = .word Marker.bitFlags.word)
    (hu : u.kind = .mark '(') : Meets [')'] ts := by
  obtain ⟨run, close, hts, hclose, hplace⟩ := InBlock.exists_place h (by rw [ht]; exact fun h => Token.Kind.noConfusion h)
  cases run with
  | nil =>
    obtain ⟨rfl, -⟩ := List.cons.inj hts
    rw [hu] at hclose
    exact absurd (Token.Kind.mark.inj hclose) (by decide)
  | cons v run =>
    obtain ⟨rfl, rfl⟩ := List.cons.inj hts
    rw [ht, List.map_cons, hu] at hplace
    simp only [bodyPlace, bne_self_eq_false, Bool.false_or, Bool.and_eq_true] at hplace
    exact ⟨run, _, rfl, hplace.2.1.2⟩

/-- Behind a bracket in the body. -/
theorem meets_length (h : InBody inner base rest (t :: ts)) (ht : t.kind = .mark '[') : Meets [']', ';'] ts := by
  obtain ⟨run, u, rfl, hu, hplace⟩ :=
    InBlock.exists_place h (by rw [ht]; exact fun h => absurd (Token.Kind.mark.inj h) (by decide))
  rw [ht] at hplace
  exact ⟨run, _, rfl, (Bool.and_eq_true_iff.mp hplace).2⟩

/-- Behind the marker of a type in the body. -/
theorem typeEnds (h : InBody inner base rest (t :: ts)) (ht : t.kind = .word Marker.reflected.word) :
    ∃ run u, ts = run ++ u :: rest ∧ u.kind = .mark '}' ∧
      HeaderAtlas.typeEnds inner (behindTraits (run.map Token.kind)) = true := by
  obtain ⟨run, u, hts, hu, hplace⟩ := InBlock.exists_place h (by rw [ht]; exact fun h => Token.Kind.noConfusion h)
  refine ⟨run, u, hts, hu, ?_⟩
  rw [ht] at hplace
  simp only [bodyPlace, bne_self_eq_false, Bool.false_or, Bool.and_eq_true] at hplace
  exact hplace.2.2

/-- What is passed over up to a mark that comes before a brace ends in the body. -/
theorem afterFirst {symbol : Char} (hsymbol : symbol ∉ ['{', '}']) (h : InBody inner [] rest ts) (hmeets : Meets [symbol] ts) :
    InBody inner [] rest (Cursor.afterFirst symbol ts) := by
  induction ts with
  | nil => exact h
  | cons t ts ih =>
    rw [Cursor.afterFirst, isMark_eq]
    rcases hmeets.cons with ⟨symbol', hmem, hkind⟩ | ⟨hopen, hclose, hmeets⟩
    · obtain rfl := List.mem_singleton.mp hmem
      rw [if_pos (decide_eq_true hkind)]
      refine InBlock.advance rfl h ?_ ?_
      · rw [hkind]
        rintro ⟨⟩
        exact hsymbol (by decide)
      · rw [hkind]
        rintro ⟨⟩
        exact hsymbol (by decide)
    · have hnext := InBlock.advance rfl h hopen hclose
      split
      · exact hnext
      · exact ih hnext hmeets

/-- The length of an array ends in the body. -/
theorem afterArrayLength (h : InBody inner [] rest ts) (hmeets : Meets [']', ';'] ts) :
    InBody inner [] rest (Cursor.afterArrayLength ts) := by
  induction ts with
  | nil => exact h
  | cons t ts ih =>
    rw [Cursor.afterArrayLength, isMark_eq, isMark_eq]
    split
    · exact h
    · rename_i hsemicolon
      split
      · rename_i hclose
        have hkind := of_decide_eq_true hclose
        exact InBlock.advance rfl h (by rw [hkind]; decide) (by rw [hkind]; decide)
      · rename_i hclose
        rcases hmeets.cons with ⟨symbol, hmem, hkind⟩ | ⟨hopen, hclose, hmeets⟩
        · simp only [List.mem_cons, List.not_mem_nil, or_false] at hmem
          rcases hmem with rfl | rfl
          · exact absurd (decide_eq_true hkind) hclose
          · exact absurd (decide_eq_true hkind) hsemicolon
        · exact ih (InBlock.advance rfl h hopen hclose) hmeets

end InBody

/-! ## Pieces of a member -/

namespace Cursor

variable {c : Cursor}

/-- Behind a mark other than a brace. -/
theorem inBody_advance {symbol : Char} (h : InBody inner [] rest c.unread) (hsees : c.sees symbol = true)
    (hsymbol : symbol ≠ '{' ∧ symbol ≠ '}') : InBody inner [] rest c.advance.unread := by
  have hkind := kind_of_sees hsees
  refine inBlock_advance rfl h ?_ ?_
  · rw [sees_of_kind hkind, beq_eq_false_iff_ne]
    exact fun heq => hsymbol.1 (Token.Kind.mark.inj heq)
  · rw [sees_of_kind hkind, beq_eq_false_iff_ne]
    exact fun heq => hsymbol.2 (Token.Kind.mark.inj heq)

/-- A flat mark passed, if it stands in front. -/
theorem inBody_pass {symbol : Char} (hsymbol : (Token.Kind.mark symbol).Flat) (h : InBody inner base rest c.unread) :
    InBody inner base rest (c.pass symbol).unread := by
  unfold pass
  split
  · rename_i hsees
    rw [(exists_peek h).2] at h
    exact InBlock.flat rfl h (by rwa [kind_of_sees hsees])
  · exact h

/-- A trait list is read up to the parenthesis that closes it. -/
theorem takeTraits_block (h : InBody inner base rest c.unread) (hopen : c.sees '(' = true) :
    ∃ entries u, c.advance.unread = entries ++ u :: c.takeTraits.2.unread ∧ u.kind = .mark ')' ∧
      Nested [] (entries.map Token.kind) ∧ InBody inner base rest c.takeTraits.2.unread := by
  have hpeek := (exists_peek h).2
  rw [hpeek] at h
  obtain ⟨entries, u, ts, hts, hu, hnested, hbehind⟩ := InBlock.exists_block rfl rfl h (kind_of_sees hopen)
  have hblock : InBlock '(' (fun _ => true) [] ts c.advance.unread := by
    rw [hts]
    exact .of_nested hnested (everyPlace_true ..) hu
  rw [takeTraits, if_pos hopen, unread_takeTraitEntries hblock]
  exact ⟨entries, u, hts, hu, hnested, hbehind⟩

/-- A trait list ends in the body. -/
theorem inBody_takeTraits (h : InBody inner base rest c.unread) : InBody inner base rest c.takeTraits.2.unread := by
  cases hopen : c.sees '(' with
  | true =>
    obtain ⟨-, -, -, -, -, hbehind⟩ := takeTraits_block h hopen
    exact hbehind
  | false =>
    rw [takeTraits, hopen]
    exact h

theorem passed_takeConvention (options : ScanOptions) (found : Option String) (c : Cursor) :
    Passed c.unread (c.takeConvention options found).2.unread := by
  fun_induction takeConvention options found c with
  | case1 => exact .refl _
  | case2 _ c word hword _ ih => exact (passed_of_word (kind_of_word? hword)).trans ih
  | case3 => exact .refl _

/-- The symbol of an operator ends in the body, if a mark that ends it comes before a brace. -/
theorem inBody_takeSymbol (h : InBody inner [] rest c.unread) (hmeets : Meets ['(', ';'] c.unread) :
    InBody inner [] rest c.takeSymbol.2.unread := by
  fun_induction takeSymbol c with
  | case1 => exact h
  | case2 => exact h
  | case3 c hend hsees _ ih =>
    have hpeek := (exists_peek h).2
    rw [hpeek] at h hmeets
    rcases hmeets.cons with ⟨symbol, hmem, hkind⟩ | ⟨hopen, hclose, hmeets⟩
    · simp only [List.mem_cons, List.not_mem_nil, or_false] at hmem
      refine absurd ?_ hsees
      rw [sees_of_kind hkind, sees_of_kind hkind]
      rcases hmem with rfl | rfl <;> decide
    · exact ih (InBlock.advance rfl h hopen hclose) hmeets

/-- Parentheses in front of the cursor are those at the head of what is left of the body. -/
theorem call_iff {run : List Token} {u : Token} (hts : c.unread = run ++ u :: rest) (hu : u.kind = .mark '}') :
    (c.sees '(' && (c.ahead 1).isMark ')') = true ↔ (run.map Token.kind).take 2 = [.mark '(', .mark ')'] := by
  rw [Bool.and_eq_true, sees, peek, ahead, hts, isMark_eq, isMark_eq, decide_eq_true_iff, decide_eq_true_iff]
  cases run with
  | nil => simp [hu]
  | cons a run =>
    cases run with
    | nil => simp [hu]
    | cons b run => simp

/-- The name of an operator ends in the body. -/
theorem inBody_takeOperator {run : List Token} {u : Token} (h : InBody inner [] rest c.unread) (hts : c.unread = run ++ u :: rest)
    (hu : u.kind = .mark '}') (hends : symbolEnds (run.map Token.kind) = true) : InBody inner [] rest c.takeOperator.2.unread := by
  have hcall := call_iff hts hu
  unfold symbolEnds at hends
  unfold takeOperator
  split
  · rename_i hsees
    rw [if_pos (hcall.mp hsees)] at hends
    obtain ⟨hopen, hclose⟩ := Bool.and_eq_true_iff.mp hsees
    rw [ahead_one] at hclose
    have hinside := inBody_advance (inBody_advance h hopen (by decide)) hclose (by decide)
    refine inBody_takeSymbol hinside ⟨run.drop 2, u :: rest, ?_, by rwa [List.map_drop]⟩
    have hlength : 2 ≤ run.length := by
      have := congrArg List.length (hcall.mp hsees)
      simp at this
      omega
    rw [advance, advance, hts, ← List.drop_one, ← List.drop_one, List.drop_drop, List.drop_append_of_le_length hlength]
  · rename_i hsees
    rw [if_neg (fun hhead => hsees (hcall.mpr hhead))] at hends
    exact inBody_takeSymbol h ⟨run, u :: rest, hts, hends⟩

/-- The name of a member ends in the body. -/
theorem inBody_takeMemberName (h : InBody inner [] rest c.unread) : InBody inner [] rest c.takeMemberName.2.unread := by
  unfold takeMemberName
  dsimp only
  have hword := InBlock.passed rfl h c.passed_takeWord
  split
  · rename_i hoperator
    have hname : c.peek.word? = some "operator" := by
      rw [takeWord] at hoperator
      split at hoperator
      · rename_i name hname
        rw [hname]
        exact beq_iff_eq.mp hoperator
      · cases hoperator
    have hpeek := (exists_peek h).2
    rw [hpeek] at h
    obtain ⟨run, u, hts, hu, hends⟩ := InBody.symbolEnds h (kind_of_word? hname)
    have hnext : c.takeWord.2 = c.advance := by rw [takeWord, hname]
    rw [hnext] at hword ⊢
    exact inBody_takeOperator hword hts hu hends
  · exact hword

/-- The initial value of a field ends in the body. -/
theorem inBody_takeInitial (h : InBody inner base rest c.unread) : InBody inner base rest c.takeInitial.2.unread := by
  unfold takeInitial
  split
  · rename_i hequals
    exact InBlock.capture rfl rfl (InBlock.passed rfl h (passed_of_sees hequals (by decide)))
  · split
    · exact InBlock.capture rfl rfl h
    · exact h

theorem passed_takeNextDeclarator (c : Cursor) : Passed c.unread c.takeNextDeclarator.2.unread :=
  (c.passed_takeStars.trans (passed_pass _ (by decide))).trans (passed_takeWord _)

/-- Fields that share a type end in the body. -/
theorem inBody_takeDeclarators (name : String) (shape : Shape) (h : InBody inner base rest c.unread) :
    InBody inner base rest (c.takeDeclarators name shape).2.unread := by
  fun_induction takeDeclarators name shape c with
  | case1 name shape c value hcomma next hnext =>
    have hvalue := InBlock.passed rfl (inBody_takeInitial h) (passed_of_sees hcomma (by decide))
    exact InBlock.passed rfl hvalue (passed_takeNextDeclarator _)
  | case2 name shape c value hcomma next nextName nextShape hnext _ ih =>
    have hvalue := InBlock.passed rfl (inBody_takeInitial h) (passed_of_sees hcomma (by decide))
    exact ih (InBlock.passed rfl hvalue (passed_takeNextDeclarator _))
  | case3 => exact inBody_takeInitial h

/-- The default of a parameter ends in the body. -/
theorem inBody_takeDefault (h : InBody inner base rest c.unread) : InBody inner base rest c.takeDefault.2.unread := by
  unfold takeDefault
  split
  · rename_i hequals
    exact InBlock.capture rfl rfl (InBlock.passed rfl h (passed_of_sees hequals (by decide)))
  · exact h

/-- The words behind the parameters of a method end in the body. -/
theorem inBody_takeSpecifiers (m : Modifiers) (h : InBody inner base rest c.unread) :
    InBody inner base rest (c.takeSpecifiers m).2.unread := by
  have hword : ∀ {c : Cursor} {name : String}, InBody inner base rest c.unread → c.seesWord name = true →
      InBody inner base rest c.advance.unread :=
    fun h hsees => InBlock.passed rfl h (passed_of_word (kind_of_seesWord hsees))
  fun_induction takeSpecifiers m c with
  | case1 => exact h
  | case2 m c _ hsees ih => exact ih (hword h hsees)
  | case3 m c _ _ hsees ih => exact ih (hword h hsees)
  | case4 m c _ _ _ hsees ih => exact ih (hword h hsees)
  | case5 m c _ _ _ _ hsees ih => exact ih (hword h hsees)
  | case6 m c _ _ _ _ _ hsees ih => exact ih (inBlock_skipBlock rfl (hword h hsees) rfl)
  | case7 m c _ _ _ _ _ _ hequals hkind ih =>
    have hvalue := passed_advance (c := c.advance) (by rw [hkind]; exact fun _ => Token.Kind.noConfusion)
    exact ih (InBlock.passed rfl h ((passed_of_sees hequals (by decide)).trans hvalue))
  | case8 m c _ _ _ _ _ _ hequals => exact InBlock.passed rfl h (passed_of_sees hequals (by decide))
  | case9 m c _ _ _ _ _ _ hequals word hkind ih =>
    exact ih (InBlock.passed rfl h ((passed_of_sees hequals (by decide)).trans (passed_of_word hkind)))
  | case10 m c _ _ _ _ _ _ hequals => exact InBlock.passed rfl h (passed_of_sees hequals (by decide))
  | case11 => exact h

/-- The body of a method, or what is left of its statement, ends in the body around it. -/
theorem inBody_skipMethodBody (h : InBody inner [] rest c.unread) : InBody inner [] rest c.skipMethodBody.unread := by
  unfold skipMethodBody
  split
  · exact inBody_pass (flat_mark rfl rfl) (inBlock_skipBlock rfl h rfl)
  · exact InBlock.afterStatement h

end Cursor

namespace Reader

/-! ## Parameters -/

theorem cursor_use (r : Reader) (e : TypeExpr) (name : String) : (r.use e name).2.cursor = r.cursor := by
  unfold use
  split <;> rfl

/-- The rest of a parameter is at least one token, unless the parameters end there. -/
theorem length_afterParameter_lt {t : Token} {ts : List Token} (hclose : t.isMark ')' = false) (hsemicolon : t.isMark ';' = false) :
    (Cursor.afterParameter (t :: ts)).length < (t :: ts).length := by
  have hle : ∀ ts, (Cursor.afterParameter ts).length ≤ ts.length := fun ts => (Cursor.afterParameter_suffix ts).length_le
  have hblock : ∀ opening closing, (Cursor.afterParameter (Cursor.afterBlock opening closing 1 ts)).length < (t :: ts).length :=
    fun opening closing => Nat.lt_succ_of_le (Nat.le_trans (hle _) (Cursor.length_afterBlock_le ..))
  rw [Cursor.afterParameter, hclose, hsemicolon, if_neg Bool.false_ne_true, if_neg Bool.false_ne_true]
  split
  · exact Nat.lt_succ_self _
  · split
    · exact hblock _ _
    · split
      · exact hblock _ _
      · split
        · exact hblock _ _
        · exact Nat.lt_succ_of_le (hle _)

/-- A parameter ends in the parentheses around it. -/
theorem inBody_takeParameter {r : Reader} (h : InBody inner (')' :: base) rest r.cursor.unread) :
    InBody inner (')' :: base) rest r.takeParameter.2.cursor.unread := by
  have htype := InBlock.clear h (clear_takeType angles_of_bodyPlace none h)
  unfold takeParameter
  dsimp only
  split
  · exact htype
  · have hname := InBlock.passed rfl htype (Cursor.passed_takeWord _)
    refine Cursor.inBody_takeDefault (Cursor.inBlock_skipBlock rfl ?_ rfl)
    rwa [cursor_use]

/-- A turn of reading parameters ends in the parentheses around them. -/
theorem inBody_parameterTurn {r : Reader} (h : InBody inner (')' :: base) rest r.cursor.unread)
    (hclose : r.cursor.sees ')' = false) (hsemicolon : r.cursor.sees ';' = false) :
    InBody inner (')' :: base) rest r.parameterTurn.2.cursor.unread := by
  unfold parameterTurn
  split
  · rename_i hvoid
    exact InBlock.passed rfl h (Cursor.passed_of_word (Cursor.kind_of_seesWord (Bool.and_eq_true_iff.mp hvoid).1))
  · have hparameter := inBody_takeParameter h
    have honward := onward_takeParameter r
    -- the turn passes at least one token, so it is not set on
    have hlt : (r.takeParameter.2.moveTo r.takeParameter.2.cursor.finishParameter).remaining < r.remaining := by
      rcases Nat.lt_or_eq_of_le honward.remaining_le with hlt | heq
      · exact Nat.lt_of_le_of_lt (Cursor.onward_finishParameter r.takeParameter.2.cursor).remaining_le hlt
      · have hsame : r.takeParameter.2.cursor.unread = r.cursor.unread := honward.suffix.eq_of_length heq
        have hlt := @length_afterParameter_lt r.cursor.peek r.cursor.advance.unread hclose hsemicolon
        rw [← (Cursor.exists_peek h).2] at hlt
        change (Cursor.afterParameter r.takeParameter.2.cursor.unread).length < r.cursor.unread.length
        rwa [hsame]
    dsimp only
    rw [resume_eq hlt]
    exact InBlock.afterParameter hparameter

/-- Parameters end in the body. -/
theorem inBody_takeParameters {r : Reader} (h : InBody inner (')' :: base) rest r.cursor.unread) :
    InBody inner [] rest (takeParameters r).2.cursor.unread := by
  fun_induction takeParameters r with
  | case1 => exact InBlock.forget h
  | case2 => exact InBlock.forget h
  | case3 r _ _ hclose => exact Cursor.inBody_advance (InBlock.forget h) hclose (by decide)
  | case4 r _ _ _ hvoid ih =>
    exact ih (InBlock.passed rfl h (Cursor.passed_of_word (Cursor.kind_of_seesWord (Bool.and_eq_true_iff.mp hvoid).1)))
  | case5 r _ hsemicolon hclose hvoid p _ ih =>
    have hturn := inBody_parameterTurn h (Bool.eq_false_iff.mpr hclose) (Bool.eq_false_iff.mpr hsemicolon)
    rw [parameterTurn, if_neg hvoid] at hturn
    exact ih hturn

/-! ## Members -/

theorem cursor_addProperty (r : Reader) (scope : Scope) (p : Property) : (r.addProperty scope p).cursor = r.cursor := by
  unfold addProperty
  dsimp only
  split <;> rfl

theorem cursor_memberProperty (r : Reader) (scope : Scope) (head : MemberHead) :
    (r.memberProperty scope head).2.cursor = r.cursor := cursor_use ..

theorem cursor_addMethod (r : Reader) (scope : Scope) (m : Method) : (r.addMethod scope m).cursor = r.cursor := by
  unfold addMethod
  dsimp only
  split <;> rfl

theorem cursor_addDeclarators (scope : Scope) (head : MemberHead) (fields : List Declarator) (r : Reader) :
    (fields.foldl (addDeclarator scope head) r).cursor = r.cursor := by
  induction fields generalizing r with
  | nil => rfl
  | cons d fields ih =>
    rw [List.foldl_cons, ih, addDeclarator, cursor_addProperty, cursor_memberProperty]

/-- The length of an array is soft, and so is what is left of a longer one. -/
theorem passed_takeLength (r : Reader) (name : String) : Passed r.cursor.unread (r.takeLength name).2.cursor.unread := by
  unfold takeLength
  split
  · rename_i hkind
    exact Cursor.passed_advance (by rw [hkind]; exact fun _ => Token.Kind.noConfusion)
  · rename_i hkind
    have hparts := (Cursor.passed_of_word hkind).trans (Cursor.passed_takeLooseParts _)
    dsimp only
    split <;> exact hparts
  · exact .refl _

variable {r : Reader}

/-- An array ends in the body. -/
theorem inBody_takeArray (scope : Scope) (head : MemberHead) (h : InBody inner [] rest r.cursor.unread)
    (hopen : r.cursor.sees '[' = true) : InBody inner [] rest (r.takeArray scope head).cursor.unread := by
  have hpeek := (Cursor.exists_peek h).2
  have hkind := Cursor.kind_of_sees hopen
  have hinside := Cursor.inBody_advance h hopen (by decide)
  rw [hpeek] at h
  have hpassed := passed_takeLength r.advance head.name
  have hlength := InBody.afterArrayLength (InBlock.passed rfl hinside hpassed)
    ((InBody.meets_length h hkind).passed rfl hpassed)
  have hvalue : ∀ c : Cursor, InBody inner [] rest c.unread →
      InBody inner [] rest (if c.sees '=' then c.advance.capture [';'] else (none, c)).2.unread := by
    intro c hc
    split
    · rename_i hequals
      exact InBlock.capture rfl rfl (InBlock.passed rfl hc (Cursor.passed_of_sees hequals (by decide)))
    · exact hc
  refine InBlock.afterStatement ?_
  dsimp only
  rw [cursor_addProperty, cursor_memberProperty]
  exact hvalue _ hlength

/-- Fields end in the body. -/
theorem inBody_takeFields (scope : Scope) (head : MemberHead) (h : InBody inner [] rest r.cursor.unread) :
    InBody inner [] rest (r.takeFields scope head).cursor.unread := by
  have hfields := Cursor.inBody_takeDeclarators head.name head.type.modifiers.shape h
  refine InBlock.afterStatement ?_
  rw [cursor_addDeclarators]
  exact hfields

/-- A method ends in the body. -/
theorem inBody_takeMethod (scope : Scope) (head : MemberHead) (h : InBody inner [] rest r.cursor.unread)
    (hopen : r.cursor.sees '(' = true) : InBody inner [] rest (r.takeMethod scope head).cursor.unread := by
  have hpeek := (Cursor.exists_peek h).2
  rw [hpeek] at h
  obtain ⟨before, hinside⟩ := InBlock.enter rfl rfl h (Cursor.kind_of_sees hopen) (by decide)
  have hparameters : InBody inner (')' :: before) rest (r.use head.type "").2.advance.cursor.unread := by
    rw [advance, moveTo, cursor_use]
    exact hinside
  unfold takeMethod
  dsimp only
  rw [cursor_addMethod]
  exact Cursor.inBody_skipMethodBody (Cursor.inBody_takeSpecifiers _ (inBody_takeParameters hparameters))

/-- What makes a member a method, an array or fields ends in the body. -/
theorem inBody_takeMemberBody (scope : Scope) (isAnnotated : Bool) (head : MemberHead) (h : InBody inner [] rest r.cursor.unread) :
    InBody inner [] rest (r.takeMemberBody scope isAnnotated head).cursor.unread := by
  unfold takeMemberBody
  split
  · rename_i hopen
    split
    · exact inBody_takeMethod scope head h hopen
    · exact InBlock.afterStatement (Cursor.inBlock_skipBlock rfl h rfl)
  · split
    · rename_i hopen
      exact inBody_takeArray scope head h hopen
    · exact inBody_takeFields scope head h

/-- What stands behind the type of a member ends in the body. -/
theorem inBody_takeNamedMember (options : ScanOptions) (scope : Scope) (location : Location) (isAnnotated : Bool) (head : MemberHead)
    (h : InBody inner [] rest r.cursor.unread) :
    InBody inner [] rest (takeNamedMember options r scope location isAnnotated head).cursor.unread := by
  unfold takeNamedMember
  dsimp only
  split
  · exact inBody_takeMemberBody _ _ _ h
  · have hname := Cursor.inBody_takeMemberName (InBlock.passed rfl h (Cursor.passed_takeConvention options none _))
    split
    · exact inBody_takeMemberBody _ _ _ hname
    · exact InBlock.afterStatement hname

/-- The annotation of a member ends in the body. -/
theorem inBody_takeMemberTraits {c : Cursor} (h : InBody inner base rest c.unread) :
    InBody inner base rest (takeMemberTraits c).2.unread := by
  unfold takeMemberTraits
  split
  · rename_i hmarker
    obtain ⟨m, hsees⟩ : ∃ m : Marker, c.seesWord m.word = true := by
      simp only [Bool.or_eq_true] at hmarker
      rcases hmarker with (h | h) | h
      · exact ⟨_, h⟩
      · exact ⟨_, h⟩
      · exact ⟨_, h⟩
    exact Cursor.inBody_takeTraits (InBlock.passed rfl h (Cursor.passed_of_word (Cursor.kind_of_seesWord hsees)))
  · exact h

/-- The bit source of a member ends in the body. -/
theorem inBody_takeBitSource (h : InBody inner [] rest r.cursor.unread) (hmarker : r.cursor.seesMarker .bitFlags = true) :
    InBody inner [] rest r.advance.takeBitSource.2.cursor.unread := by
  have hkind := Cursor.kind_of_seesWord hmarker
  have hbehind := InBlock.passed rfl h (Cursor.passed_of_word hkind)
  unfold takeBitSource
  split
  · rename_i hopen
    have hopen' := Cursor.kind_of_sees hopen
    have hpeek := (Cursor.exists_peek h).2
    have hpeek' := (Cursor.exists_peek hbehind).2
    rw [hpeek, hpeek'] at h
    have hmeets := InBody.meets_bitSource h hkind hopen'
    have hinside : InBody inner [] rest r.cursor.advance.advance.unread := Cursor.inBody_advance hbehind hopen (by decide)
    have hword := r.cursor.advance.advance.passed_takeWord
    have hclosed := InBody.afterFirst (by decide) (InBlock.passed rfl hinside hword) (hmeets.passed rfl hword)
    dsimp only
    split <;> exact hclosed
  · exact hbehind

theorem inBody_beforeMemberType (options : ScanOptions) (h : InBody inner [] rest r.cursor.unread) :
    InBody inner [] rest (r.beforeMemberType options).cursor.unread := by
  have hannotated : InBody inner [] rest (r.moveTo (takeMemberTraits r.cursor).2).cursor.unread := inBody_takeMemberTraits h
  unfold beforeMemberType
  dsimp only
  generalize r.moveTo (takeMemberTraits r.cursor).2 = annotated at hannotated ⊢
  have hbits : InBody inner [] rest
      (if annotated.cursor.seesMarker .bitFlags then annotated.advance.takeBitSource else (none, annotated)).2.cursor.unread := by
    split
    · rename_i hmarker
      exact inBody_takeBitSource hannotated hmarker
    · exact hannotated
  exact InBlock.passed rfl hbits (Cursor.passed_takeApiWord ..)

/-- A member ends in the body, whether it is understood or not. -/
theorem inBody_takeMember (options : ScanOptions) (scope : Scope) (h : InBody inner [] rest r.cursor.unread) :
    InBody inner [] rest (r.takeMember options scope).cursor.unread := by
  have hbefore := inBody_beforeMemberType options h
  have htype := InBlock.clear hbefore (clear_takeType angles_of_bodyPlace scope.enclosing hbefore)
  rcases takeMember_cases options scope r with ⟨heq, hmarker⟩ | ⟨_, heq⟩ | ⟨-, _, _, _, heq⟩
  · rw [heq]
    exact InBlock.afterStatement (InBlock.passed rfl h (Cursor.passed_of_word (Cursor.kind_of_seesWord hmarker)))
  · rw [heq]
    exact InBlock.afterStatement htype
  · rw [heq]
    exact inBody_takeNamedMember options scope _ _ _ htype

/-- So does a member that is passed over because it is not public. -/
theorem inBody_takeVisible (options : ScanOptions) (scope : Scope) (h : InBody inner [] rest r.cursor.unread) :
    InBody inner [] rest (r.takeVisible options scope).cursor.unread := by
  unfold takeVisible
  split
  · exact inBody_takeMember options scope h
  · exact InBlock.afterStatement h

/-- A property that traits describe ends in the body. -/
theorem inBody_takeDescribed (owner : TypeId) (isVirtual : Bool) (h : InBody inner base rest r.cursor.unread) :
    InBody inner base rest (r.takeDescribed owner isVirtual).cursor.unread := by
  have hcursor : ∀ (r : Reader) (traits : Traits), (r.describedProperty traits isVirtual).2.cursor = r.cursor := by
    intro r traits
    unfold describedProperty
    dsimp only
    split
    · rfl
    · split
      · rfl
      · exact cursor_use ..
  have htraits := Cursor.inBody_takeTraits h
  have hbehind : ∀ r : Reader, InBody inner base rest r.cursor.unread → InBody inner base rest (r.pass ';').cursor.unread :=
    fun r hr => Cursor.inBody_pass (flat_mark rfl rfl) hr
  unfold takeDescribed
  dsimp only
  split
  · refine hbehind _ ?_
    change InBody inner base rest (((r.moveTo r.cursor.takeTraits.2).describedProperty _ _).2.cursor).unread
    rw [hcursor]
    exact htraits
  · refine hbehind _ ?_
    rw [hcursor]
    exact htraits

end Reader

end HeaderAtlas
