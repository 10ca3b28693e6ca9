import HeaderAtlas.Proofs.Declaration.Place

/-!
# A body is read up to the brace that closes it

That the parentheses, brackets and braces of a body match is not enough for its reading to end at the brace that closes it
(`takeBody_runs_on`). It is enough where the body is tame: at no place outside of inner braces is anything begun that need not end
before a brace (`takeBody_tame`). One turn of reading then ends in the body (`inBody_bodyTurn`), and so the run of turns ends behind
its brace (`unread_takeBody`). The bodies of annotated types in the body are read the same way; that they are tame too is asked as
deep as they are nested, and the induction is on that depth. Enums are read by other means: their bodies must hold no braces.
-/

namespace HeaderAtlas

/-! ## What is passed without a brace -/

/-- What has been passed over holds no brace. -/
def Braceless (ts ts' : List Token) : Prop := ∃ run, ts = run ++ ts' ∧ ∀ t ∈ run, t.kind ≠ .mark '{' ∧ t.kind ≠ .mark '}'

namespace Braceless

variable {ts ts' ts'' : List Token}

theorem refl (ts : List Token) : Braceless ts ts := ⟨[], rfl, List.forall_mem_nil _⟩

/-- Two runs without a brace make one. -/
theorem trans (h : Braceless ts ts') (h' : Braceless ts' ts'') : Braceless ts ts'' := by
  obtain ⟨run, rfl, hrun⟩ := h
  obtain ⟨run', rfl, hrun'⟩ := h'
  exact ⟨run ++ run', by rw [List.append_assoc], List.forall_mem_append.mpr ⟨hrun, hrun'⟩⟩

end Braceless

/-- What holds no brace and no `;` holds no brace. -/
theorem Clear.braceless {ts ts' : List Token} (h : Clear ts ts') : Braceless ts ts' := by
  obtain ⟨run, -, rfl, -, hbound⟩ := h
  refine ⟨run, rfl, fun t ht => ?_⟩
  obtain ⟨hopen, hclose, -⟩ := ne_of_not_isBound (hbound t ht)
  exact ⟨hopen, hclose⟩

/-- Who passes no brace stays in the block of braces. -/
theorem InBlock.braceless {test : List Token.Kind → Bool} {rest ts ts' : List Token} (h : InBlock '{' test [] rest ts)
    (hpassed : Braceless ts ts') : InBlock '{' test [] rest ts' := by
  obtain ⟨run, rfl, hrun⟩ := hpassed
  induction run with
  | nil => exact h
  | cons t run ih =>
    obtain ⟨⟨hopen, hclose⟩, hrun⟩ := List.forall_mem_cons.mp hrun
    exact ih hrun (h.advance rfl hopen hclose)

namespace Cursor

variable {c : Cursor}

/-- A token that is no brace is passed without one. -/
theorem braceless_advance (hopen : c.peek.kind ≠ .mark '{') (hclose : c.peek.kind ≠ .mark '}') :
    Braceless c.unread c.advance.unread := by
  obtain ⟨source, unread, finish⟩ := c
  cases unread with
  | nil => exact .refl _
  | cons t ts => exact ⟨[t], rfl, List.forall_mem_singleton.mpr ⟨hopen, hclose⟩⟩

/-- A mark that is no brace is passed without one. -/
theorem braceless_of_sees {symbol : Char} (h : c.sees symbol = true) (hsymbol : symbol ≠ '{' ∧ symbol ≠ '}') :
    Braceless c.unread c.advance.unread := by
  have hkind := kind_of_sees h
  refine braceless_advance ?_ ?_
  · rw [hkind]
    exact fun heq => hsymbol.1 (Token.Kind.mark.inj heq)
  · rw [hkind]
    exact fun heq => hsymbol.2 (Token.Kind.mark.inj heq)

/-- A mark that is no brace is passed if it is there. -/
theorem braceless_pass (c : Cursor) {symbol : Char} (hsymbol : symbol ≠ '{' ∧ symbol ≠ '}') :
    Braceless c.unread (c.pass symbol).unread := by
  unfold pass
  split
  · exact braceless_of_sees ‹_› hsymbol
  · exact .refl _

end Cursor

/-! ## Enums -/

namespace Reader

/-- Something has been passed over, and no brace. -/
theorem braceless_resume {r r' : Reader} (h : Braceless r.cursor.unread r'.cursor.unread)
    (hadvance : Braceless r.cursor.unread r.cursor.advance.unread) : Braceless r.cursor.unread (r.resume r').cursor.unread := by
  unfold resume
  split
  · exact h
  · exact hadvance

/-- A step that may have read no token passes no brace if its body passes none. -/
theorem braceless_keep {r r' : Reader} (h : Braceless r.cursor.unread r'.cursor.unread) :
    Braceless r.cursor.unread (r.keep r').cursor.unread := by
  unfold keep
  split
  · exact h
  · exact .refl _

/-- What begins an operand, or joins operands, is no brace. -/
theorem braceless_of_operandItem {r : Reader} {item : OperandItem} (h : r.cursor.peek.kind.operandItem = item) (hitem : item ≠ .none) :
    Braceless r.cursor.unread r.advance.cursor.unread := by
  refine Cursor.braceless_advance ?_ ?_
  · intro hkind
    rw [hkind] at h
    exact hitem h.symm
  · intro hkind
    rw [hkind] at h
    exact hitem h.symm

/-- In a value, all but what stops it is no closing brace. -/
theorem braceless_of_valueItem {r : Reader} {item : ValueItem} (h : r.cursor.peek.kind.valueItem = item) (hitem : item ≠ .stop)
    (hopen : r.cursor.peek.kind ≠ .mark '{') : Braceless r.cursor.unread r.advance.cursor.unread := by
  refine Cursor.braceless_advance hopen ?_
  intro hkind
  rw [hkind] at h
  exact hitem h.symm

/-- Operands and the operations that join them hold no brace. The three readers call each other. -/
theorem braceless_takeOperand_and_takeGrouped_and_takeOperations (prior : List EnumValue) :
    (∀ r : Reader, Braceless r.cursor.unread (takeOperand prior r).2.cursor.unread) ∧
      (∀ r : Reader, Braceless r.cursor.unread (takeGrouped prior r).2.cursor.unread) ∧
      ∀ (value : Int64) (r : Reader), Braceless r.cursor.unread (takeOperations prior value r).2.cursor.unread := by
  have hpass : ∀ {r r' : Reader}, Braceless r.cursor.unread r'.cursor.unread →
      Braceless r.cursor.unread (r'.pass ')').cursor.unread := fun h => h.trans (Cursor.braceless_pass _ (by decide))
  refine takeOperand.mutual_induct prior (fun r => Braceless r.cursor.unread (takeOperand prior r).2.cursor.unread)
    (fun r => Braceless r.cursor.unread (takeGrouped prior r).2.cursor.unread)
    (fun value r => Braceless r.cursor.unread (takeOperations prior value r).2.cursor.unread)
    ?_ ?_ ?_ ?_ ?_ ?_ ?_ ?_ ?_ ?_ ?_ ?_ ?_
  · intro r hend
    rw [takeOperand, dif_pos hend]
    exact .refl _
  · intro r hend value hitem
    rw [takeOperand, dif_neg hend, hitem]
    exact braceless_of_operandItem hitem OperandItem.noConfusion
  · intro r hend hitem ih
    rw [takeOperand, dif_neg hend, hitem]
    exact (braceless_of_operandItem hitem OperandItem.noConfusion).trans ih
  · intro r hend hitem ih
    rw [takeOperand, dif_neg hend, hitem]
    exact hpass ((braceless_of_operandItem hitem OperandItem.noConfusion).trans ih)
  · intro r hend hitem hparen ih
    rw [takeOperand, dif_neg hend, hitem]
    dsimp only
    rw [if_pos hparen]
    have hflag := braceless_of_operandItem hitem OperandItem.noConfusion
    have hopen := hflag.trans (Cursor.braceless_of_sees hparen (by decide))
    exact hpass ((braceless_resume hopen hflag).trans ih)
  · intro r hend hitem hparen
    rw [takeOperand, dif_neg hend, hitem]
    dsimp only
    rw [if_neg hparen]
    exact braceless_of_operandItem hitem OperandItem.noConfusion
  · intro r hend first hitem
    rw [takeOperand, dif_neg hend, hitem]
    dsimp only
    rw [cursor_literal]
    exact (braceless_of_operandItem hitem OperandItem.noConfusion).trans (Cursor.passed_takeParts _).clear.braceless
  · intro r hend hitem
    rw [takeOperand, dif_neg hend, hitem]
    exact .refl _
  · intro r first ihOperand ih
    rw [takeGrouped]
    exact (braceless_keep ihOperand).trans ih
  · intro value r hend
    rw [takeOperations, dif_pos hend]
    exact .refl _
  · intro value r hend hitem operand ihOperand ih
    rw [takeOperations, dif_neg hend, hitem]
    have hshift : Braceless r.cursor.unread r.advance.cursor.unread :=
      braceless_of_valueItem hitem ValueItem.noConfusion (by intro hkind; rw [hkind] at hitem; cases hitem)
    exact (braceless_resume (hshift.trans ihOperand) hshift).trans ih
  · intro value r hend hitem operand ihOperand ih
    rw [takeOperations, dif_neg hend, hitem]
    have hunion : Braceless r.cursor.unread r.advance.cursor.unread :=
      braceless_of_valueItem hitem ValueItem.noConfusion (by intro hkind; rw [hkind] at hitem; cases hitem)
    exact (braceless_resume (hunion.trans ihOperand) hunion).trans ih
  · intro value r hend hshift hunion
    rw [takeOperations, dif_neg hend]
    split
    · exact absurd ‹_› hshift
    · exact absurd ‹_› hunion
    · exact .refl _

/-- Operands pass no brace: they are numbers, names and parentheses. -/
theorem braceless_takeOperand (prior : List EnumValue) (r : Reader) :
    Braceless r.cursor.unread (takeOperand prior r).2.cursor.unread :=
  (braceless_takeOperand_and_takeGrouped_and_takeOperations prior).1 r

/-- No block begins at this place. -/
def noBlock (kinds : List Token.Kind) : Bool := kinds.head? != some (.mark '{')

variable {rest : List Token}

/-- In a block without inner blocks no `{` stands in front. -/
theorem peek_ne_of_noBlock {c : Cursor} (h : InBlock '{' noBlock [] rest c.unread) : c.peek.kind ≠ .mark '{' := by
  intro hkind
  rw [(Cursor.exists_peek h).2] at h
  obtain ⟨run, u, -, -, hplace⟩ := h.exists_place (by rw [hkind]; exact fun h => absurd (Token.Kind.mark.inj h) (by decide))
  rw [hkind] at hplace
  exact absurd hplace (by simp [noBlock])

/-- The value of an entry ends in an enum without blocks. -/
theorem inBlock_takeEnumValue {prior : List EnumValue} {value : Option Int64} {r : Reader}
    (h : InBlock '{' noBlock [] rest r.cursor.unread) :
    InBlock '{' noBlock [] rest (takeEnumValue prior value r).2.cursor.unread := by
  fun_induction takeEnumValue prior value r with
  | case1 => exact h
  | case2 => exact h
  | case3 value r _ hitem operand ih =>
    have hadvance := braceless_of_valueItem hitem ValueItem.noConfusion (peek_ne_of_noBlock h)
    exact ih (h.braceless (braceless_resume (hadvance.trans (braceless_takeOperand prior r.advance)) hadvance))
  | case4 value r _ hitem operand ih =>
    have hadvance := braceless_of_valueItem hitem ValueItem.noConfusion (peek_ne_of_noBlock h)
    exact ih (h.braceless (braceless_resume (hadvance.trans (braceless_takeOperand prior r.advance)) hadvance))
  | case5 value r _ hitem ih =>
    exact ih (h.braceless (braceless_of_valueItem hitem ValueItem.noConfusion (peek_ne_of_noBlock h)))
  | case6 value r _ hitem operand ih =>
    have hadvance := braceless_of_valueItem hitem ValueItem.noConfusion (peek_ne_of_noBlock h)
    exact ih (h.braceless (braceless_resume (braceless_takeOperand prior r) hadvance))
  | case7 value r _ kind hitem ih =>
    exact ih (h.braceless (braceless_of_valueItem hitem ValueItem.noConfusion (peek_ne_of_noBlock h)))

end Reader

/-- The rest of an entry ends in an enum without blocks. -/
theorem InBlock.afterEntry {rest ts : List Token} (h : InBlock '{' Reader.noBlock [] rest ts) :
    InBlock '{' Reader.noBlock [] rest (Cursor.afterEntry ts) := by
  fun_induction Cursor.afterEntry ts with
  | case1 => exact h
  | case2 => exact h
  | case3 t ts _ ht => exact h.advance rfl (by rw [kind_of_isMark ht]; decide) (by rw [kind_of_isMark ht]; decide)
  | case4 t ts _ _ ht ih => exact ih (h.afterBlock rfl rfl (kind_of_isMark ht))
  | case5 t ts hclose _ _ ih =>
    exact ih (h.advance rfl (Reader.peek_ne_of_noBlock (c := ⟨[], t :: ts, .start⟩) h) (kind_ne_of_not_isMark hclose))

namespace Reader

variable {rest : List Token}

/-- The entries of an enum without blocks are read up to the brace that closes it. -/
theorem unread_takeEntries {prior : List EnumValue} {next : Int64} {r : Reader} (h : InBlock '{' noBlock [] rest r.cursor.unread) :
    (takeEntries prior next r).2.cursor.unread = rest := by
  fun_induction takeEntries prior next r with
  | case1 _ _ r hend =>
    rw [(Cursor.exists_peek h).1] at hend
    cases hend
  | case2 _ _ r _ hclose => exact Cursor.unread_advance h hclose
  | case3 prior next r _ _ name hname assigned value after ih =>
    have hadvance := h.passed rfl (Cursor.passed_of_word (Cursor.kind_of_word? hname))
    have hassigned : InBlock '{' noBlock [] rest assigned.2.cursor.unread := by
      change InBlock '{' noBlock [] rest (r.advance.takeAssignedValue prior).2.cursor.unread
      unfold takeAssignedValue
      split
      · rename_i hequals
        exact inBlock_takeEnumValue (hadvance.passed rfl (Cursor.passed_of_sees hequals (by decide)))
      · exact hadvance
    refine ih ?_
    unfold resume
    split
    · exact hassigned.afterEntry
    · exact hadvance
  | case4 prior next r _ hclose _ ih =>
    exact ih (Cursor.inBlock_advance rfl h (beq_false_of_ne (peek_ne_of_noBlock h)) (Bool.eq_false_iff.mpr hclose))

end Reader

/-! ## The first body ahead -/

/-- The content of a block of nested tokens, up to the mark that closes it. -/
theorem blockContent_nested {opening : Char} (hopening : Cursor.isOpener opening = true) (more : List Token.Kind) :
    ∀ {kinds : List Token.Kind} {awaited : List Char}, pending [] awaited kinds = some [] →
      blockContent opening (closerOf opening) (awaited.count (closerOf opening)) (kinds ++ .mark (closerOf opening) :: more) =
        some kinds := by
  have hne : closerOf opening ≠ opening := by
    intro heq
    have hcloser := isCloser_closerOf opening
    rw [heq, not_isCloser_of_isOpener hopening] at hcloser
    cases hcloser
  intro kinds
  induction kinds with
  | nil =>
    intro awaited h
    obtain rfl := Option.some.inj h
    rw [List.nil_append, blockContent, if_neg (by simpa using hne), if_pos rfl, List.count_nil, if_pos rfl]
  | cons kind kinds ih =>
    intro awaited h
    obtain ⟨awaited', hrest, hcount⟩ := pending_cons hopening h
    have hcontent := ih hrest
    rw [hcount, depthBehind] at hcontent
    rw [List.cons_append, blockContent]
    by_cases hopen : kind = .mark opening
    · rw [if_pos hopen] at hcontent ⊢
      rw [hcontent, Option.map_some]
    · rw [if_neg hopen] at hcontent ⊢
      by_cases hclose : kind = .mark (closerOf opening)
      · subst hclose
        obtain ⟨tail, rfl, -⟩ := open_of_pending_closer (isCloser_closerOf opening) h
        rw [if_pos rfl] at hcontent
        rw [if_pos rfl, if_neg (by rw [List.count_cons_self]; exact Nat.succ_ne_zero _), hcontent, Option.map_some]
      · rw [if_neg hclose] at hcontent ⊢
        rw [hcontent, Option.map_some]

/-- What bounds no declaration is passed on the way to its body. -/
theorem firstBody_cons {kind : Token.Kind} (h : kind.isBound = false) (kinds : List Token.Kind) :
    firstBody (kind :: kinds) = firstBody kinds := by
  rw [firstBody, List.dropWhile_cons_of_pos (by rw [h]; rfl)]
  rfl

/-- The body behind a `{` runs up to the brace that closes it. -/
theorem firstBody_open (kinds : List Token.Kind) : firstBody (.mark '{' :: kinds) = blockContent '{' '}' 0 kinds := by
  rewrite [firstBody, List.dropWhile_cons_of_neg (by decide)]
  rfl

/-- What bounds no declaration is passed on the way to the end of an enum. -/
theorem enumEnds_cons {kind : Token.Kind} (h : kind.isBound = false) (kinds : List Token.Kind) :
    enumEnds (kind :: kinds) = enumEnds kinds := by
  obtain ⟨hopen, hclose, hsemicolon⟩ := ne_of_not_isBound h
  have hmeets : meets [';'] (kind :: kinds) = meets [';'] kinds := by
    rw [meets, bne_iff_ne.mpr hopen, bne_iff_ne.mpr hclose]
    simp [hsemicolon]
  rw [enumEnds, enumEnds, firstBody_cons h, hmeets]

/-- An enum that begins here has an end. -/
def EnumEnds (ts : List Token) : Prop := ∃ run more, ts = run ++ more ∧ enumEnds (run.map Token.kind) = true

namespace EnumEnds

variable {t : Token} {ts ts' : List Token}

/-- The first of a brace and a `;` is not passed. -/
theorem tail (h : EnumEnds (t :: ts)) (ht : t.kind.isBound = false) : EnumEnds ts := by
  obtain ⟨run, more, hts, hends⟩ := h
  cases run with
  | nil => cases hends
  | cons u run =>
    obtain ⟨rfl, rfl⟩ := List.cons.inj hts
    rw [List.map_cons, enumEnds_cons ht] at hends
    exact ⟨run, more, rfl, hends⟩

/-- An enum that ends does so behind what holds no brace and no `;`. -/
theorem clear (h : EnumEnds ts) (hclear : Clear ts ts') : EnumEnds ts' := by
  obtain ⟨run, -, rfl, -, hbound⟩ := hclear
  induction run with
  | nil => exact h
  | cons t run ih =>
    obtain ⟨ht, hbound⟩ := List.forall_mem_cons.mp hbound
    exact ih (h.tail ht) hbound

/-- An opening brace in front begins a body without blocks. -/
theorem body (h : EnumEnds (t :: ts)) (ht : t.kind = .mark '{') :
    ∃ run more content, ts = run ++ more ∧ blockContent '{' '}' 0 (run.map Token.kind) = some content ∧ .mark '{' ∉ content := by
  obtain ⟨run, more, hts, hends⟩ := h
  cases run with
  | nil => cases hends
  | cons u run =>
    obtain ⟨rfl, rfl⟩ := List.cons.inj hts
    rw [List.map_cons, ht, enumEnds, firstBody_open] at hends
    split at hends
    · rename_i content hcontent
      exact ⟨run, more, content, rfl, hcontent, by simpa using hends⟩
    · cases hends

/-- No closing brace stands in front. -/
theorem not_close (h : EnumEnds (t :: ts)) : t.kind ≠ .mark '}' := by
  intro ht
  obtain ⟨run, more, hts, hends⟩ := h
  cases run with
  | nil => cases hends
  | cons u run =>
    obtain ⟨rfl, rfl⟩ := List.cons.inj hts
    rw [List.map_cons, ht, enumEnds, firstBody, List.dropWhile_cons_of_neg (by decide)] at hends
    cases hends

end EnumEnds

/-- Kinds without a `{` have none at any place. -/
theorem everyPlace_noBlock {kinds : List Token.Kind} (h : .mark '{' ∉ kinds) : ∀ depth, everyPlace '{' Reader.noBlock depth kinds = true := by
  induction kinds with
  | nil => exact fun _ => rfl
  | cons kind kinds ih =>
    intro depth
    rw [List.mem_cons, not_or] at h
    obtain ⟨hkind, hkinds⟩ := h
    have hplace : Reader.noBlock (kind :: kinds) = true := by simpa [Reader.noBlock] using Ne.symm hkind
    rw [everyPlace, ih hkinds, hplace, Bool.or_true]
    rfl

variable {inner : List Token.Kind → Bool} {rest : List Token}

/-- A body without blocks in front, which is read up to the brace that closes it, in the body around it. -/
def EnumBodyAhead (inner : List Token.Kind → Bool) (rest ts : List Token) : Prop :=
  ∃ t ts' behind, ts = t :: ts' ∧ t.kind = .mark '{' ∧ InBlock '{' Reader.noBlock [] behind ts' ∧ InBody inner [] rest behind

/-- In front of its body, or behind the `;` that stands before it, an enum is still in the body around it. -/
theorem inBody_beforeBody {ts : List Token} (h : InBody inner [] rest ts) (hends : EnumEnds ts) :
    if (Cursor.beforeBody ts).1 then InBody inner [] rest (Cursor.beforeBody ts).2
    else EnumBodyAhead inner rest (Cursor.beforeBody ts).2 := by
  induction ts with
  | nil => exact absurd (InBlock.exists_cons h) (by simp)
  | cons t ts ih =>
    by_cases hopen : t.kind = .mark '{'
    · have hbefore : Cursor.beforeBody (t :: ts) = (false, t :: ts) := by
        rw [Cursor.beforeBody, isMark_eq, if_pos (decide_eq_true hopen)]
      obtain ⟨body, u, behind, rfl, hu, hnested, hbehind⟩ := InBlock.exists_block rfl rfl h hopen
      obtain ⟨run, more, content, hts, hcontent, hbraces⟩ := hends.body hopen
      obtain ⟨passed, v, hpassed, rfl, -⟩ := exists_of_blockContent hcontent more
      have hafter : Cursor.afterBlock '{' '}' (0 + 1) (body ++ u :: behind) = behind := Cursor.afterBlock_nested rfl hnested hu
      rw [← hts, hafter] at hpassed
      obtain ⟨rfl, -⟩ := List.append_inj' hpassed rfl
      rw [hbefore]
      exact ⟨t, _, behind, rfl, hopen, .of_nested hnested (everyPlace_noBlock hbraces 0) hu, hbehind⟩
    · by_cases hsemicolon : t.kind = .mark ';'
      · have hbefore : Cursor.beforeBody (t :: ts) = (true, ts) := by
          rw [Cursor.beforeBody, isMark_eq, isMark_eq, if_neg (by simpa using hopen), if_pos (decide_eq_true hsemicolon)]
        rw [hbefore]
        exact InBlock.flat rfl h (by rw [hsemicolon]; exact flat_mark rfl rfl)
      · have hbefore : Cursor.beforeBody (t :: ts) = Cursor.beforeBody ts := by
          rw [Cursor.beforeBody, isMark_eq, isMark_eq, if_neg (by simpa using hopen), if_neg (by simpa using hsemicolon)]
        have hbound : t.kind.isBound = false := by simpa [Token.Kind.isBound, hopen, hsemicolon] using hends.not_close
        rw [hbefore]
        exact ih (InBlock.advance rfl h hopen hends.not_close) (hends.tail hbound)

namespace Reader

variable {r : Reader}

/-- The type an enum is stored as holds no brace and no `;`. -/
theorem clear_takeUnderlying (h : InBody inner [] rest r.cursor.unread) : Clear r.cursor.unread r.takeUnderlying.2.cursor.unread := by
  unfold takeUnderlying
  split
  · rename_i hcolon
    have hpassed := Cursor.passed_of_sees hcolon (by decide)
    have htype := clear_takeType angles_of_bodyPlace none (r := r.advance) (InBlock.passed rfl h hpassed)
    dsimp only
    split
    · exact hpassed.clear.trans htype
    · dsimp only
      rw [cursor_use]
      exact hpassed.clear.trans htype
  · exact .refl _

/-- The body of an enum, with the `;` behind it, ends in the body around it. -/
theorem inBody_takeEnumBody {behind : List Token} (name : String) (isScoped : Bool) (underlying : Option TypeId)
    (hentries : InBlock '{' noBlock [] behind r.cursor.unread) (h : InBody inner [] rest behind) :
    InBody inner [] rest (r.takeEnumBody name isScoped underlying).2.cursor.unread := by
  have hunread := @unread_takeEntries behind [] 0 r hentries
  have hpass : InBody inner [] rest (((takeEntries [] 0 r).2.pass ';').cursor).unread := by
    refine Cursor.inBody_pass (flat_mark rfl rfl) ?_
    rwa [hunread]
  unfold takeEnumBody
  dsimp only
  split <;> exact hpass

/-- An enum that has an end ends in the body around it. -/
theorem inBody_takeEnum (h : InBody inner [] rest r.cursor.unread) (hword : r.cursor.seesWord "enum" = true)
    (hends : EnumEnds r.cursor.advance.unread) : InBody inner [] rest r.takeEnum.2.cursor.unread := by
  have hbehind := InBlock.passed rfl h (Cursor.passed_of_word (Cursor.kind_of_seesWord hword))
  have hscoped : Passed r.cursor.advance.unread
      (if r.advance.cursor.seesWordOf ["class", "struct"] then r.cursor.advance.advance else r.cursor.advance).unread := by
    split
    · obtain ⟨name, -, hname⟩ := Cursor.kind_of_seesWordOf ‹_›
      exact Cursor.passed_of_word hname
    · exact .refl _
  unfold takeEnum
  dsimp only
  generalize (if r.advance.cursor.seesWordOf ["class", "struct"] then r.cursor.advance.advance else r.cursor.advance) = c at hscoped
  have hname := hscoped.trans c.passed_takeWord
  split
  · exact InBlock.afterStatement (InBlock.passed rfl hbehind hname)
  · have hnamed := InBlock.passed rfl hbehind hname
    have hunderlying := clear_takeUnderlying (r := r.moveTo c.takeWord.2) hnamed
    have hbody := inBody_beforeBody (InBlock.clear hnamed hunderlying) ((hends.clear hname.clear).clear hunderlying)
    split
    · rename_i hnone
      rw [if_pos hnone] at hbody
      exact hbody
    · rename_i hsome
      rw [if_neg hsome] at hbody
      obtain ⟨t, ts, behind, hts, ht, hentries, hbehind⟩ := hbody
      have hopened : ∀ (r' : Reader) (name : String) (isScoped : Bool) (underlying : Option TypeId), r'.cursor.unread = t :: ts →
          InBody inner [] rest
            (if r'.cursor.sees '{' then r'.advance.takeEnumBody name isScoped underlying else (none, r')).2.cursor.unread := by
        intro r' name isScoped underlying hr'
        have hopen : r'.cursor.sees '{' = true := by
          rw [Cursor.sees, Cursor.peek, hr', List.headD_cons, isMark_eq, ht]
          rfl
        have hunread : r'.advance.cursor.unread = ts := by
          rw [advance, moveTo, Cursor.advance, hr', List.tail_cons]
        rw [if_pos hopen]
        exact inBody_takeEnumBody _ _ _ (by rwa [hunread]) hbehind
      exact hopened _ _ _ _ hts

end Reader

/-! ## Annotated types in a body -/

/-- The first body behind what holds no brace and no `;`. -/
theorem firstBody_of_clear {ts body behind run : List Token} {t u close : Token} (hts : ts = run ++ close :: rest)
    (hclear : Clear ts (t :: (body ++ u :: behind))) (ht : t.kind = .mark '{') (hu : u.kind = .mark '}')
    (hbody : Nested [] (body.map Token.kind)) (h : InBody inner [] rest behind) :
    firstBody (run.map Token.kind) = some (body.map Token.kind) := by
  obtain ⟨passed, -, hpassed, -, hbound⟩ := hclear
  obtain ⟨run', close', -, rfl, -⟩ := h
  have hrun : run = passed ++ t :: (body ++ u :: run') := by
    have hwhole : run ++ close :: rest = (passed ++ t :: (body ++ u :: run')) ++ close' :: rest := by
      rw [← hts, hpassed]
      simp
    exact (List.append_inj' hwhole rfl).1
  have hfirst : ∀ kinds, firstBody (passed.map Token.kind ++ kinds) = firstBody kinds := by
    intro kinds
    clear hts hpassed hrun
    induction passed with
    | nil => rfl
    | cons v passed ih =>
      obtain ⟨hv, hbound⟩ := List.forall_mem_cons.mp hbound
      rw [List.map_cons, List.cons_append, firstBody_cons hv, ih hbound]
  rw [hrun, List.map_append, hfirst, List.map_cons, ht, firstBody_open, List.map_append, List.map_cons, hu]
  exact blockContent_nested rfl _ hbody

/-- Behind a trait list stands what is behind its closing parenthesis. -/
theorem behindTraits_block {content : List Token.Kind} (h : Nested [] content) (behind : List Token.Kind) :
    behindTraits (.mark '(' :: (content ++ .mark ')' :: behind)) = behind := by
  have hcontent : blockContent '(' ')' 0 (content ++ .mark ')' :: behind) = some content :=
    @blockContent_nested '(' rfl behind content [] h
  rw [behindTraits, hcontent]
  dsimp only
  rw [List.append_cons, List.drop_left' (by simp)]

/-- What stands behind a trait list, in the tokens and in their kinds. -/
theorem behindTraits_eq {c : Cursor} {run : List Token} {close : Token} (h : InBody inner [] rest c.unread)
    (hts : c.unread = run ++ close :: rest) (hclose : close.kind = .mark '}') :
    ∃ run' close', c.takeTraits.2.unread = run' ++ close' :: rest ∧ close'.kind = .mark '}' ∧
      behindTraits (run.map Token.kind) = run'.map Token.kind := by
  cases hopen : c.sees '(' with
  | false =>
    refine ⟨run, close, by rw [Cursor.takeTraits, hopen]; exact hts, hclose, ?_⟩
    cases run with
    | nil => rfl
    | cons t run =>
      have ht : t.kind ≠ .mark '(' := by
        rw [Cursor.sees, Cursor.peek, hts] at hopen
        exact kind_ne_of_not_isMark (Bool.eq_false_iff.mp hopen)
      rw [List.map_cons]
      unfold behindTraits
      split
      · rename_i heq
        exact absurd (List.cons.inj heq).1 ht
      · rfl
  | true =>
    obtain ⟨entries, u, hadvance, hu, hnested, hbehind⟩ := Cursor.takeTraits_block h hopen
    obtain ⟨run', close', -, hunread, hclose', -⟩ := hbehind
    refine ⟨run', close', hunread, hclose', ?_⟩
    have hrun : run = c.peek :: (entries ++ u :: run') := by
      have hwhole : run ++ close :: rest = (c.peek :: (entries ++ u :: run')) ++ close' :: rest := by
        rw [← hts, (Cursor.exists_peek h).2, hadvance, hunread]
        simp
      exact (List.append_inj' hwhole rfl).1
    rw [hrun, List.map_cons, Cursor.kind_of_sees hopen, List.map_append, List.map_cons, hu]
    exact behindTraits_block hnested _

namespace Cursor

/-- The words behind the name of a type are passed token by token. -/
theorem passed_takeTypeSpecifiers (flags : TypeFlags) (c : Cursor) : Passed c.unread (c.takeTypeSpecifiers flags).2.unread := by
  fun_induction takeTypeSpecifiers flags c with
  | case1 => exact .refl _
  | case2 _ c _ hsees ih => exact (passed_of_word (kind_of_seesWord hsees)).trans ih
  | case3 _ c _ _ hsees ih => exact (passed_of_word (kind_of_seesWord hsees)).trans ih
  | case4 => exact .refl _

end Cursor

namespace Reader

variable {r : Reader}

/-- Bases are entered where the cursor stands. -/
theorem cursor_addBases (id : TypeId) (names : List String) (r : Reader) : (names.foldl (addBase id) r).cursor = r.cursor := by
  induction names generalizing r with
  | nil => rfl
  | cons name names ih => rw [List.foldl_cons, ih]; rfl

/-- Where the head of a type ends: behind the brace of its body, up to which there is no brace and no `;`, or else in the body around
it. -/
def HeadEnds (inner : List Token.Kind → Bool) (rest ts : List Token) (head : TypeBody × Reader) : Prop :=
  match head.1 with
  | .follows _ => ∃ t, t.kind = .mark '{' ∧ Clear ts (t :: head.2.cursor.unread)
  | _ => InBody inner [] rest head.2.cursor.unread

/-- How the head of a type ends is not changed by what stands in front and holds no brace and no `;`. -/
theorem HeadEnds.of_clear {ts ts' : List Token} {head : TypeBody × Reader} (hclear : Clear ts ts') (h : HeadEnds inner rest ts' head) :
    HeadEnds inner rest ts head := by
  unfold HeadEnds at h ⊢
  split at h
  · obtain ⟨t, ht, hhead⟩ := h
    exact ⟨t, ht, hclear.trans hhead⟩
  · exact h

/-- The head of a type ends at its body, or behind its statement. -/
theorem headEnds_takeTypeBases (d : TypeDef) (h : InBody inner [] rest r.cursor.unread) :
    HeadEnds inner rest r.cursor.unread (r.takeTypeBases d) := by
  have hspecifiers := r.cursor.passed_takeTypeSpecifiers d.flags
  have hnamed := InBlock.passed rfl h hspecifiers
  have hbases : ∀ c : Cursor, InBody inner [] rest c.unread →
      Clear c.unread (if c.sees ':' then c.advance.takeBases else ([], c)).2.unread := by
    intro c hc
    split
    · rename_i hcolon
      have hpeek := (Cursor.exists_peek hc).2
      rw [hpeek] at hc ⊢
      exact Cursor.clear_takeBases angles_of_bodyPlace _ (by rw [Cursor.kind_of_sees hcolon]; decide) _ hc
    · exact .refl _
  have hclear := hspecifiers.clear.trans (hbases _ hnamed)
  have hends : ∀ (id : TypeId) (r' : Reader), Clear r.cursor.unread r'.cursor.unread →
      HeadEnds inner rest r.cursor.unread
        (if r'.cursor.sees '{' then (.follows id, r'.advance) else (.absent id, r'.skipStatement)) := by
    intro id r' hclear
    have hbody := InBlock.clear h hclear
    split
    · rename_i hopen
      rw [(Cursor.exists_peek hbody).2] at hclear
      exact ⟨_, Cursor.kind_of_sees hopen, hclear⟩
    · exact InBlock.afterStatement hbody
  refine hends _ _ ?_
  rw [cursor_addBases]
  exact hclear

/-- The head of a struct or class ends in front of its body or in the body around it. -/
theorem headEnds_takeTypeHeader (options : ScanOptions) (isClass : Bool) {name : String}
    (h : InBody inner [] rest r.cursor.unread) (hword : r.cursor.peek.kind = .word name) :
    HeadEnds inner rest r.cursor.advance.unread (r.takeTypeHeader options isClass) := by
  have hbehind := InBlock.passed rfl h (Cursor.passed_of_word hword)
  have hname := (r.cursor.advance.passed_takeApiWord options).trans (Cursor.passed_takeWord _)
  have hnamed := InBlock.passed rfl hbehind hname
  unfold takeTypeHeader
  dsimp only
  split
  · exact InBlock.afterStatement hnamed
  · split
    · rename_i hsemicolon
      exact Cursor.inBody_advance hnamed hsemicolon (by decide)
    · exact .of_clear hname.clear (headEnds_takeTypeBases _ hnamed)

/-- Bodies that pass the test are read up to the brace that closes them, and no further. -/
def ReadsExactly (inner : List Token.Kind → Bool) : Prop :=
  ∀ (options : ScanOptions) (owner : TypeId) (depth : Nat) (visibility : Visibility) (r : Reader) (body : List Token) (close : Token)
    (rest : List Token), inner (body.map Token.kind) = true → close.kind = .mark '}' → r.cursor.unread = body ++ close :: rest →
      (takeBody options owner depth visibility r).cursor.unread = rest

/-- Behind the word of a type stands what is left of the body around it. -/
theorem exists_behind_word {c : Cursor} {name : String} {run : List Token} {close : Token} (hts : c.unread = run ++ close :: rest)
    (hclose : close.kind = .mark '}') (hword : c.peek.kind = .word name) :
    ∃ run', run.map Token.kind = .word name :: run'.map Token.kind ∧ c.advance.unread = run' ++ close :: rest := by
  rw [Cursor.peek, hts] at hword
  cases run with
  | nil =>
    rw [List.nil_append, List.headD_cons, hclose] at hword
    cases hword
  | cons t run => exact ⟨run, congrArg (· :: _) hword, by rw [Cursor.advance, hts]; rfl⟩

/-- An annotated type ends in the body around it, if bodies like its own are read exactly. -/
theorem inBody_takeReflected (hinner : ReadsExactly inner) (options : ScanOptions) (depth : Nat) (traits : Traits) {run : List Token}
    {close : Token} (h : InBody inner [] rest r.cursor.unread) (hts : r.cursor.unread = run ++ close :: rest)
    (hclose : close.kind = .mark '}') (hends : typeEnds inner (run.map Token.kind) = true) :
    InBody inner [] rest (takeReflected options depth traits r).2.cursor.unread := by
  rw [takeReflected_eq]
  split
  · rename_i hstruct
    obtain ⟨name, hname, hword⟩ := Cursor.kind_of_seesWordOf hstruct
    obtain ⟨run', hrun, hbehind⟩ := exists_behind_word hts hclose hword
    rw [hrun, typeEnds, if_pos (List.contains_iff_mem.mpr hname)] at hends
    have hhead := headEnds_takeTypeHeader options (r.cursor.seesWord "class") h hword
    unfold HeadEnds at hhead
    dsimp only
    split
    · rename_i hnone
      rw [hnone] at hhead
      exact hhead
    · rename_i habsent
      rw [habsent] at hhead
      exact hhead
    · rename_i id hfollows
      rw [hfollows] at hhead
      obtain ⟨t, ht, hclear⟩ := hhead
      have hopen := InBlock.clear (InBlock.passed rfl h (Cursor.passed_of_word hword)) hclear
      obtain ⟨body, u, behind, hbody, hu, hnested, hin⟩ := InBlock.exists_block rfl rfl hopen ht
      rw [hbody] at hclear
      rw [firstBody_of_clear hbehind hclear ht hu hnested hin, Option.all_some] at hends
      refine Cursor.inBody_pass (flat_mark rfl rfl) ?_
      rw [hinner options id (depth + 1) _ _ body u behind hends hu hbody]
      exact hin
  · split
    · rename_i henum
      have hword := Cursor.kind_of_seesWord henum
      obtain ⟨run', hrun, hbehind⟩ := exists_behind_word hts hclose hword
      rw [hrun, typeEnds, if_neg (by decide), bne_self_eq_false, Bool.false_or] at hends
      have hafter := inBody_takeEnum h henum ⟨run', close :: rest, hbehind, hends⟩
      split <;> exact hafter
    · exact h

/-! ## The body -/

/-- What stands in front, if it is one of these. -/
theorem kind_of_bodyItem (c : Cursor) :
    (bodyItem c = .semicolon → c.peek.kind = .mark ';') ∧
    (bodyItem c = .type → c.peek.kind = .word Marker.reflected.word) ∧
    (bodyItem c = .describedProperty → c.peek.kind = .word Marker.virtualProperty.word) ∧
    (bodyItem c = .template → c.peek.kind = .word "template") := by
  unfold bodyItem
  split <;> grind

/-- An access label is a word and a `:`. -/
theorem passed_access {c : Cursor} {visibility : Visibility} (h : bodyItem c = .access visibility) :
    Passed c.unread c.advance.advance.unread := by
  have hlabel : (∃ word, c.peek.kind = .word word) ∧ (c.ahead 1).isMark ':' = true := by
    unfold bodyItem at h
    split at h <;> grind
  obtain ⟨⟨word, hword⟩, hcolon⟩ := hlabel
  rw [Cursor.ahead_one] at hcolon
  exact (Cursor.passed_of_word hword).trans (Cursor.passed_of_sees hcolon (by decide))

/-- A turn of reading a body ends in the body. -/
theorem inBody_bodyTurn (hinner : ReadsExactly inner) (options : ScanOptions) (owner : TypeId) (depth : Nat) (visibility : Visibility)
    (h : InBody inner [] rest r.cursor.unread) (hclose : r.cursor.sees '}' = false) :
    InBody inner [] rest (bodyTurn options owner depth visibility r).2.cursor.unread := by
  have hpeek := (Cursor.exists_peek h).2
  obtain ⟨hsemicolon, htype, hdescribed, htemplate⟩ := kind_of_bodyItem r.cursor
  unfold bodyTurn
  split
  · rename_i hitem
    rw [(bodyItem_close_iff _).mp hitem] at hclose
    cases hclose
  · rename_i hitem
    rw [hpeek] at h
    exact InBlock.flat rfl h (by rw [hsemicolon hitem]; exact flat_mark rfl rfl)
  · exact Cursor.inBlock_skipBlock rfl h rfl
  · rename_i hitem
    exact InBlock.passed rfl h (passed_access hitem)
  · rename_i hitem
    have hbehind := InBlock.passed rfl h (Cursor.passed_of_word (htype hitem))
    rw [hpeek] at h
    obtain ⟨run, close, hts, hclose, hends⟩ := InBody.typeEnds h (htype hitem)
    obtain ⟨run', close', hunread, hclose', htraits⟩ := behindTraits_eq hbehind hts hclose
    rw [htraits] at hends
    have hchild := inBody_takeReflected hinner options depth r.cursor.advance.takeTraits.1
      (r := r.moveTo r.cursor.advance.takeTraits.2) (Cursor.inBody_takeTraits hbehind) hunread hclose' hends
    dsimp only
    split <;> exact hchild
  · rename_i hitem
    exact inBody_takeDescribed owner true (InBlock.passed rfl h (Cursor.passed_of_word (hdescribed hitem)))
  · exact InBlock.afterStatement h
  · rename_i hitem
    have hbehind := InBlock.passed rfl h (Cursor.passed_of_word (htemplate hitem))
    rw [hpeek] at h
    have hclosed := InBlock.argsClosed_word angles_of_bodyPlace h (htemplate hitem) (by decide)
    exact InBlock.clear hbehind (Cursor.clear_skipAngles hclosed)
  · exact inBody_takeVisible options _ h

/-- From anywhere in the body, reading ends behind the brace that closes it. -/
theorem unread_takeBody (hinner : ReadsExactly inner) (options : ScanOptions) (owner : TypeId) (depth : Nat) :
    ∀ (n : Nat) (visibility : Visibility) (r : Reader), r.remaining ≤ n → InBody inner [] rest r.cursor.unread →
      (takeBody options owner depth visibility r).cursor.unread = rest := by
  intro n
  induction n with
  | zero =>
    intro visibility r hn h
    have hend := (Cursor.exists_peek h).1
    have := Cursor.remaining_advance_lt hend
    simp only [remaining] at hn
    omega
  | succ n ih =>
    intro visibility r hn h
    have hend := (Cursor.exists_peek h).1
    rw [takeBody_eq, hend, if_neg Bool.false_ne_true]
    split
    · rename_i hclose
      exact Cursor.unread_advance h hclose
    · rename_i hclose
      have hclose' := Bool.eq_false_iff.mpr hclose
      have hlt := remaining_bodyTurn_lt options owner depth visibility hend hclose'
      exact ih _ _ (by omega) (inBody_bodyTurn hinner options owner depth visibility h hclose')

end Reader

/-- The body is properly nested, and at its places outside of inner braces nothing is begun that need not end in it; the bodies of
annotated types in it pass the test `inner`. -/
def tameWithin (inner : List Token.Kind → Bool) (kinds : List Token.Kind) : Bool :=
  decide (Nested [] kinds) && everyPlace '{' (bodyPlace inner) 0 kinds

/-- The body is tame, and so are the bodies of annotated types in it, which are at most `depth` deep. -/
def tame : Nat → List Token.Kind → Bool
  | 0 => tameWithin fun _ => false
  | depth + 1 => tameWithin (tame depth)

namespace Reader

/-- Bodies are read exactly one level higher: turn by turn, each one in the body. -/
theorem readsExactly_tameWithin (hinner : ReadsExactly inner) : ReadsExactly (tameWithin inner) := by
  intro options owner depth visibility r body close rest hbody hclose hunread
  obtain ⟨hnested, hplaces⟩ := Bool.and_eq_true_iff.mp hbody
  refine unread_takeBody hinner options owner depth _ visibility r (Nat.le_refl _) ?_
  rw [hunread]
  exact .of_nested (of_decide_eq_true hnested) hplaces hclose

/-- Tame bodies are read exactly, by induction on how deep types are nested in them. -/
theorem readsExactly_tame (depth : Nat) : ReadsExactly (tame depth) := by
  induction depth with
  | zero => exact readsExactly_tameWithin (fun _ _ _ _ _ _ _ _ hbody => Bool.noConfusion hbody)
  | succ depth ih => exact readsExactly_tameWithin ih

/-- A tame body is read up to the brace that closes it, and no further, whatever stands behind it and whatever its statements are:
understood, misread or unknown. -/
theorem takeBody_tame (nesting : Nat) (body : List Token) (close : Token) (rest : List Token)
    (hbody : tame nesting (body.map Token.kind) = true) (hclose : close.kind = .mark '}') (options : ScanOptions) (owner : TypeId)
    (depth : Nat) (visibility : Visibility) (r : Reader) (h : r.cursor.unread = body ++ close :: rest) :
    (takeBody options owner depth visibility r).cursor = r.cursor.before rest :=
  (onward_takeBody options owner depth visibility r).eq_before
    (readsExactly_tame nesting options owner depth visibility r body close rest hbody hclose h)

end Reader

/-- A body in which all that can go wrong goes well: arguments, an operator, an array, a bit source, an enum, a type with a body of
its own, and statements that are not understood. -/
def exampleBody : List Token :=
  ["template <class T> void f();",
   "REFLECTED() enum class E : int \x7b A, B = (1 << 2) \x7d;",
   "REFLECTED(a(b), c) struct In : Base<int> \x7b int y[N + 2]; private: unknown \x7b if (a < b) c; \x7d \x7d;",
   "bool operator<(const In& o) const \x7b return y < o.y; \x7d",
   "BITFIELD_FLAGS(E) int flags;",
   "std::vector<std::pair<int, In>> all = \x7b \x7b1, 2\x7d \x7d;",
   "METHOD_CMD() void g(std::map<int, In> m, int = f(1, 2)) const;",
   "friend class X; 3 + ([ < ; ]) no end"].flatMap fun text => tokens text.toList

theorem takeBody_tame_example :
    let close := Token.at .start (.mark '}') 1
    let rest := tokens "; int tail; ( [".toList
    let r : Reader := { catalog := .empty, cursor := ⟨[], exampleBody ++ close :: rest, .start⟩ }
    tame 1 (exampleBody.map Token.kind) = true ∧
      (Reader.takeBody {} ⟨0⟩ 1 .publicAccess r).cursor = ⟨[], rest, .start⟩ := by
  intro close rest r
  have hbody : tame 1 (exampleBody.map Token.kind) = true := by decide +kernel
  exact ⟨hbody, Reader.takeBody_tame 1 exampleBody close rest hbody rfl {} ⟨0⟩ 1 .publicAccess r rfl⟩

/-- Proper nesting is not enough: a comparison among template arguments opens an angle bracket that is not closed, and what is passed
over as arguments takes in the brace that closes the body and all that stands behind it, here another type. -/
theorem takeBody_runs_on :
    let body := tokens "template <int N, bool B = (N < 4)> void f();".toList
    let close := Token.at .start (.mark '}') 1
    let rest := tokens "; REFLECTED() struct B \x7b int x; \x7d;".toList
    let r : Reader := { catalog := .empty, cursor := ⟨[], body ++ close :: rest, .start⟩ }
    Nested [] (body.map Token.kind) ∧ rest ≠ [] ∧ (Reader.takeBody {} ⟨0⟩ 1 .publicAccess r).cursor.unread = [] ∧
      (session .empty [.scan {} ("REFLECTED() struct A \x7b template <int N, bool B = (N < 4)> void f(); \x7d;\n" ++
        "REFLECTED() struct B \x7b int x; \x7d;\n")]).catalog.records.map TypeDef.name = ["A"] := by
  decide +kernel

end HeaderAtlas
