import HeaderAtlas.Proofs.Cursor.Block
import HeaderAtlas.Proofs.Cursor.Item

/-!
# What is passed over token by token

Most of what stands in front of a body, a value or a list is read token by token: words, numbers, and the few marks that may stand
between them (`Token.Kind.Soft`). Such tokens open and close nothing and end no statement, so a reader that passes only them stays
in the block where it was (`InBlock.passed`). So does a trait list, which is read up to the parenthesis that closes it.
-/

namespace HeaderAtlas

/-- The marks that may stand in the head of a declaration. -/
def softMarks : List Char := [':', '~', '*', '&', '=', '-', ',']

/-- The token is no mark, or one of those that may stand in the head of a declaration. -/
def Token.Kind.Soft (kind : Token.Kind) : Prop := ∀ symbol, kind = .mark symbol → symbol ∈ softMarks

/-- Words open and close nothing. -/
theorem soft_word (name : String) : (Token.Kind.word name).Soft := fun _ h => Token.Kind.noConfusion h

/-- The listed marks open and close nothing. -/
theorem soft_mark {symbol : Char} (h : symbol ∈ softMarks) : (Token.Kind.mark symbol).Soft := by
  rintro other ⟨⟩
  exact h

/-- Soft tokens leave the nesting as it is. -/
theorem Token.Kind.Soft.flat {kind : Token.Kind} (h : kind.Soft) : kind.Flat := by
  intro symbol hkind
  have hmarks : softMarks.all (fun symbol => !Cursor.isOpener symbol && !Cursor.isCloser symbol) = true := rfl
  simpa using List.all_eq_true.mp hmarks symbol (h symbol hkind)

/-- Soft tokens have been passed over, and only these. -/
def Passed (ts ts' : List Token) : Prop := ∃ run, ts = run ++ ts' ∧ ∀ t ∈ run, t.kind.Soft

theorem Passed.refl (ts : List Token) : Passed ts ts := ⟨[], rfl, List.forall_mem_nil _⟩

/-- What is passed in two runs is passed in one. -/
theorem Passed.trans {ts ts' ts'' : List Token} (h : Passed ts ts') (h' : Passed ts' ts'') : Passed ts ts'' := by
  obtain ⟨run, rfl, hrun⟩ := h
  obtain ⟨run', rfl, hrun'⟩ := h'
  exact ⟨run ++ run', by rw [List.append_assoc], List.forall_mem_append.mpr ⟨hrun, hrun'⟩⟩

/-- Whoever passes over soft tokens stays in the block. -/
theorem InBlock.passed {opening : Char} (hopening : Cursor.isOpener opening = true) {test : List Token.Kind → Bool}
    {base : List Char} {rest : List Token} {ts ts' : List Token} (h : InBlock opening test base rest ts) (hpassed : Passed ts ts') :
    InBlock opening test base rest ts' := by
  obtain ⟨run, rfl, hrun⟩ := hpassed
  induction run with
  | nil => exact h
  | cons t run ih =>
    obtain ⟨ht, hrun⟩ := List.forall_mem_cons.mp hrun
    exact ih hrun (h.flat hopening ht.flat)

namespace Cursor

variable {c : Cursor}

/-- Off the end the token in front is the first of the unread ones. -/
theorem unread_eq_cons (h : c.atEnd = false) : c.unread = c.peek :: c.advance.unread := by
  obtain ⟨source, unread, finish⟩ := c
  cases unread with
  | nil => cases h
  | cons t ts => rfl

/-- A soft token in front. -/
theorem passed_advance (h : c.peek.kind.Soft) : Passed c.unread c.advance.unread := by
  obtain ⟨source, unread, finish⟩ := c
  cases unread with
  | nil => exact Passed.refl _
  | cons t ts => exact ⟨[t], rfl, List.forall_mem_singleton.mpr h⟩

/-- The mark that is seen is the kind of the token in front. -/
theorem kind_of_sees {symbol : Char} (h : c.sees symbol = true) : c.peek.kind = .mark symbol := kind_of_isMark h

/-- The word that is seen is the kind of the token in front. -/
theorem kind_of_seesWord {name : String} (h : c.seesWord name = true) : c.peek.kind = .word name := beq_iff_eq.mp h

/-- The word that is read is the kind of the token in front. -/
theorem kind_of_word? {name : String} (h : c.peek.word? = some name) : c.peek.kind = .word name := Token.kind_of_word? h

/-- The kind of the token in front is one of the words that are seen. -/
theorem kind_of_seesWordOf {names : List String} (h : c.seesWordOf names = true) :
    ∃ name ∈ names, c.peek.kind = .word name := by
  unfold seesWordOf at h
  split at h
  · exact ⟨_, List.contains_iff_mem.mp h, kind_of_word? ‹_›⟩
  · cases h

/-- A soft mark is passed. -/
theorem passed_of_sees {symbol : Char} (h : c.sees symbol = true) (hsoft : symbol ∈ softMarks) :
    Passed c.unread c.advance.unread :=
  passed_advance (by rw [kind_of_sees h]; exact soft_mark hsoft)

/-- A word is passed. -/
theorem passed_of_word {name : String} (h : c.peek.kind = .word name) : Passed c.unread c.advance.unread :=
  passed_advance (by rw [h]; exact soft_word name)

/-- A soft mark is passed if it is there. -/
theorem passed_pass (c : Cursor) {symbol : Char} (hsoft : symbol ∈ softMarks) :
    Passed c.unread (c.pass symbol).unread := by
  unfold pass
  split
  · exact passed_of_sees ‹_› hsoft
  · exact Passed.refl _

/-- A word is passed if it is there. -/
theorem passed_passWord (c : Cursor) (name : String) : Passed c.unread (c.passWord name).unread := by
  unfold passWord
  split
  · exact passed_of_word (kind_of_seesWord ‹_›)
  · exact Passed.refl _

/-- A word is passed if it is read. -/
theorem passed_takeWord (c : Cursor) : Passed c.unread c.takeWord.2.unread := by
  unfold takeWord
  split
  · exact passed_of_word (kind_of_word? ‹_›)
  · exact Passed.refl _

/-- The word that says how a declaration is exported is passed. -/
theorem passed_takeApiWord (options : ScanOptions) (c : Cursor) : Passed c.unread (c.takeApiWord options).2.unread := by
  unfold takeApiWord
  split
  · exact passed_takeWord c
  · exact Passed.refl _

/-- The two marks of `::` in front. -/
theorem passed_atScope (h : c.atScope = true) : Passed c.unread c.advance.advance.unread := by
  obtain ⟨hfirst, hsecond⟩ := Bool.and_eq_true_iff.mp h
  rw [ahead_one] at hsecond
  exact (passed_of_sees hfirst (by decide)).trans (passed_of_sees hsecond (by decide))

/-- The `::` and the words of a qualified name are passed. -/
theorem passed_takeParts (c : Cursor) : Passed c.unread c.takeParts.2.unread := by
  fun_induction takeParts c with
  | case1 c hscope part _ _ ih => exact ((passed_atScope hscope).trans (passed_takeWord _)).trans ih
  | case2 => exact Passed.refl _
  | case3 => exact Passed.refl _

/-- A last `::` is passed with the parts of a qualified name. -/
theorem passed_takeLooseParts (c : Cursor) : Passed c.unread c.takeLooseParts.2.unread := by
  fun_induction takeLooseParts c with
  | case1 c hscope part _ _ ih => exact ((passed_atScope hscope).trans (passed_takeWord _)).trans ih
  | case2 c hscope => exact passed_atScope hscope
  | case3 => exact Passed.refl _

/-! ## Types -/

/-- The words that qualify a type are passed. -/
theorem passed_takeQualifiers (m : Modifiers) (c : Cursor) : Passed c.unread (takeQualifiers m c).2.unread := by
  fun_induction takeQualifiers m c with
  | case1 => exact Passed.refl _
  | case2 m c word hword _ _ ih => exact (passed_of_word (kind_of_word? hword)).trans ih
  | case3 => exact Passed.refl _

/-- Stars are passed, for they are soft. -/
theorem passed_takeStars (c : Cursor) : Passed c.unread c.takeStars.2.unread := by
  fun_induction takeStars c with
  | case1 c hsees _ ih => exact (passed_of_sees hsees (by decide)).trans ih
  | case2 => exact Passed.refl _

/-- Stars, `&` and the words between them are passed. -/
theorem passed_takeTypeTail (m : Modifiers) (c : Cursor) : Passed c.unread (takeTypeTail m c).2.unread := by
  have hstars := (c.passed_passWord "const").trans (c.passWord "const").passed_takeStars
  unfold takeTypeTail
  dsimp only
  generalize (c.passWord "const").takeStars = stars at hstars
  have hpointed : Passed c.unread
      (if (decide (0 < m.shape.pointerDepth + stars.1) && stars.2.seesWord "const") = true then stars.2.advance
        else stars.2).unread := by
    split
    · rename_i hconst
      exact hstars.trans (passed_of_word (kind_of_seesWord (Bool.and_eq_true_iff.mp hconst).2))
    · exact hstars
  generalize (if (decide (0 < m.shape.pointerDepth + stars.1) && stars.2.seesWord "const") = true then stars.2.advance
    else stars.2) = pointed at hpointed
  split
  · rename_i hsees
    exact (hpointed.trans (passed_of_sees hsees (by decide))).trans (passed_pass _ (by decide))
  · exact hpointed

/-! ## Trait lists -/

/-- The head of a trait's value is a word, a number or quoted text. -/
theorem passed_takeValueHead (c : Cursor) : Passed c.unread c.takeValueHead.2.unread := by
  have hsoft : (∀ symbol, c.peek.kind ≠ .mark symbol) → Passed c.unread c.advance.unread :=
    fun h => passed_advance fun symbol hkind => absurd hkind (h symbol)
  unfold takeValueHead
  split
  · rename_i hkind
    exact hsoft (by rw [hkind]; exact fun _ => Token.Kind.noConfusion)
  · rename_i hkind
    exact hsoft (by rw [hkind]; exact fun _ => Token.Kind.noConfusion)
  · rename_i hkind
    exact hsoft (by rw [hkind]; exact fun _ => Token.Kind.noConfusion)
  · rename_i hkind
    exact hsoft (by rw [hkind]; exact fun _ => Token.Kind.noConfusion)
  · exact Passed.refl _

/-- A `=` and the value of a trait are passed. -/
theorem passed_takeAssigned (c : Cursor) : Passed c.unread c.takeAssigned.2.unread := by
  have hvalue : ∀ c : Cursor, Passed c.unread c.takeTraitValue.2.unread := by
    intro c
    have hhead := (passed_pass c (by decide : '-' ∈ softMarks)).trans (c.pass '-').passed_takeValueHead
    unfold takeTraitValue
    dsimp only
    split
    · exact hhead
    · exact hhead.trans (passed_takeLooseParts _)
  unfold takeAssigned
  split
  · exact (passed_of_sees ‹_› (by decide)).trans (hvalue _)
  · exact Passed.refl _

/-! ## Standing in a block -/

section

variable {opening : Char} {test : List Token.Kind → Bool} {base : List Char} {rest : List Token}

/-- The block has not ended, and its first token is in front. -/
theorem exists_peek (h : InBlock opening test base rest c.unread) : c.atEnd = false ∧ c.unread = c.peek :: c.advance.unread := by
  obtain ⟨t, ts, hts⟩ := h.exists_cons
  have hend : c.atEnd = false := by rw [atEnd, hts]; rfl
  exact ⟨hend, unread_eq_cons hend⟩

/-- Behind the mark that closes the block. -/
theorem unread_advance (h : InBlock opening test base rest c.unread) (hclose : c.sees (closerOf opening) = true) :
    c.advance.unread = rest := by
  rw [(exists_peek h).2] at h
  exact h.eq_rest (kind_of_sees hclose)

/-- Behind any other token that does not open an inner block. -/
theorem inBlock_advance (hopening : isOpener opening = true) (h : InBlock opening test [] rest c.unread)
    (hopen : c.sees opening = false) (hclose : c.sees (closerOf opening) = false) :
    InBlock opening test [] rest c.advance.unread := by
  rw [(exists_peek h).2] at h
  exact h.advance hopening (kind_ne_of_not_isMark (Bool.eq_false_iff.mp hopen)) (kind_ne_of_not_isMark (Bool.eq_false_iff.mp hclose))

/-- Who passes over an inner block stays in the block around it. -/
theorem inBlock_skipBlock (hopening : isOpener opening = true) (h : InBlock opening test base rest c.unread) {symbol : Char}
    (hsymbol : isOpener symbol = true) : InBlock opening test base rest (c.skipBlock symbol (closerOf symbol)).unread := by
  unfold skipBlock
  split
  · rename_i hsees
    have hkind := kind_of_sees hsees
    have hpeek := (exists_peek h).2
    dsimp only
    rw [hpeek] at h ⊢
    rw [afterBlock, isMark_of_kind hkind, beq_self_eq_true, if_pos rfl]
    exact h.afterBlock hopening hsymbol hkind
  · exact h

/-- The entries of a trait list are read up to the parenthesis that closes the list. -/
theorem unread_takeTraitEntries (h : InBlock '(' test [] rest c.unread) : c.takeTraitEntries.2.unread = rest := by
  fun_induction takeTraitEntries c with
  | case1 c hend =>
    rw [(exists_peek h).1] at hend
    cases hend
  | case2 c _ hclose => exact unread_advance h hclose
  | case3 c _ _ hopen ih => exact ih (inBlock_skipBlock rfl h rfl)
  | case4 c _ _ _ key hkey _ _ ih =>
    have hsoft : c.peek.kind.Soft := by
      unfold traitKey? at hkey
      split at hkey
      · rename_i hkind
        rw [hkind]
        exact soft_word _
      · rename_i hkind
        rw [hkind]
        exact fun _ => Token.Kind.noConfusion
      · cases hkey
    exact ih (h.passed rfl ((passed_advance hsoft).trans (passed_takeAssigned _)))
  | case5 c _ hclose hopen _ ih =>
    exact ih (inBlock_advance rfl h (Bool.eq_false_iff.mpr hopen) (Bool.eq_false_iff.mpr hclose))

end

end Cursor

/-! ## Passing over items -/

/-- The item opens and closes nothing. -/
def Item.Flat : Item → Prop
  | token kind => kind.Flat
  | written kind _ => kind.Flat
  | value _ => True
  | nested => True

namespace Cursor

variable {c : Cursor} {items : List Item} {rest : List Token}

/-- The tokens of flat items are properly nested. -/
theorem Shows.nested : ∀ {front : List Item} {c : Cursor}, (∀ item ∈ front, item.Flat) → c.Shows (front ++ items) rest →
    c.Shows (.nested :: items) rest
  | [], c, _, h => ⟨[], c.unread, rfl, rfl, h⟩
  | item :: front, c, hflat, ⟨run, ts, hunread, hrun, hshows⟩ => by
    obtain ⟨hitem, hfront⟩ := List.forall_mem_cons.mp hflat
    obtain ⟨run', ts', hts, hrun', hitems⟩ := Shows.nested hfront hshows
    have hnested : Nested [] (run.map Token.kind) := by
      cases item with
      | token kind =>
        rw [show run.map Token.kind = [kind] from hrun]
        exact pending_flat hitem
      | written kind text =>
        rw [hrun.1]
        exact pending_flat hitem
      | value text => exact pending_weaken hrun.2.1
      | nested => exact hrun
    refine ⟨run ++ run', ts', ?_, ?_, hitems⟩
    · rw [hunread, show ts = run' ++ ts' from hts, List.append_assoc]
    · unfold Nested at hnested
      rw [Item.SpelledBy, List.map_append, Nested, pending_append, hnested]
      exact hrun'

/-- A cursor that went onward is known by its unread tokens. -/
theorem Onward.eq_before {c' : Cursor} {ts : List Token} (h : c.Onward c') (hts : c'.unread = ts) : c' = c.before ts := by
  obtain ⟨hsource, hfinish, -⟩ := h
  obtain ⟨source, unread, finish⟩ := c'
  obtain rfl : unread = ts := hts
  rw [before, ← hsource, ← hfinish]

theorem before_before (c : Cursor) (ts ts' : List Token) : (c.before ts).before ts' = c.before ts' := rfl

/-- A block of nested tokens in front, and its end. -/
theorem Shows.block {opening : Char} (h : c.Shows (.mark opening :: .nested :: .mark (closerOf opening) :: items) rest) :
    c.sees opening = true ∧ ∃ run t ts, c.advance.unread = run ++ t :: ts ∧ Nested [] (run.map Token.kind) ∧
      t.kind = .mark (closerOf opening) ∧ (c.before ts).Shows items rest := by
  obtain ⟨-, hopen, run, ts, hunread, hrun, hshows⟩ := h.token
  obtain ⟨ends, ts', hunread', hends, hitems⟩ := hshows
  obtain ⟨t, rfl, ht⟩ := List.map_eq_singleton_iff.mp hends
  refine ⟨by rw [sees_of_kind hopen, beq_self_eq_true], run, t, ts', ?_, hrun, ht, hitems⟩
  rw [hunread, show ts = t :: ts' from hunread']

/-- A block of nested tokens is passed over. -/
theorem Shows.skipBlock {opening : Char} (hopening : isOpener opening = true)
    (h : c.Shows (.mark opening :: .nested :: .mark (closerOf opening) :: items) rest) :
    ∃ ts, c.skipBlock opening (closerOf opening) = c.before ts ∧ (c.before ts).Shows items rest := by
  have hend := h.token.1
  obtain ⟨hopen, run, t, ts, hunread, hrun, ht, hitems⟩ := h.block
  refine ⟨ts, ?_, hitems⟩
  have hpeek : c.unread = c.peek :: c.advance.unread := unread_eq_cons hend
  rw [Cursor.skipBlock, if_pos hopen, hpeek, afterBlock, show c.peek.isMark opening = true from hopen, if_pos rfl, hunread,
    afterBlock_nested hopening hrun ht]
  rfl

/-- A trait list is read up to its end. -/
theorem Shows.takeTraits (h : c.Shows (.mark '(' :: .nested :: .mark ')' :: items) rest) :
    ∃ ts, c.takeTraits.2 = c.before ts ∧ (c.before ts).Shows items rest := by
  obtain ⟨hopen, run, t, ts, hunread, hrun, ht, hitems⟩ := Shows.block h
  have hblock : InBlock '(' (fun _ => true) [] ts c.advance.unread := by
    rw [hunread]
    exact .of_nested hrun (everyPlace_true ..) ht
  refine ⟨ts, c.onward_takeTraits.eq_before ?_, hitems⟩
  rw [Cursor.takeTraits, if_pos hopen]
  exact unread_takeTraitEntries hblock

/-- Soft tokens are passed over by whatever passes over a statement. -/
theorem afterStatement_passed {ts ts' : List Token} (h : Passed ts ts') : afterStatement ts = afterStatement ts' := by
  obtain ⟨run, rfl, hrun⟩ := h
  induction run with
  | nil => rfl
  | cons t run ih =>
    obtain ⟨ht, hrun⟩ := List.forall_mem_cons.mp hrun
    have hmark : ∀ symbol, symbol ∉ softMarks → t.isMark symbol = false := by
      intro symbol hsymbol
      rw [Token.isMark, beq_eq_false_iff_ne]
      exact fun hkind => hsymbol (ht symbol hkind)
    rw [List.cons_append, afterStatement, hmark ';' (by decide), hmark '}' (by decide), hmark '{' (by decide),
      hmark '(' (by decide), hmark '[' (by decide)]
    simpa using ih hrun

/-- Soft tokens at the head of the items are passed over. -/
theorem Shows.passed : ∀ {front : List Item} {c : Cursor}, (∀ item ∈ front, ∃ kind, item = .token kind ∧ kind.Soft) →
    c.Shows (front ++ items) rest → ∃ ts, Passed c.unread ts ∧ (c.before ts).Shows items rest
  | [], c, _, h => ⟨c.unread, Passed.refl _, h⟩
  | item :: front, c, hsoft, h => by
    obtain ⟨⟨kind, rfl, hkind⟩, hfront⟩ := List.forall_mem_cons.mp hsoft
    obtain ⟨-, hpeek, hnext⟩ := Shows.token h
    obtain ⟨ts, hpassed, hitems⟩ := Shows.passed hfront hnext
    exact ⟨ts, (passed_advance (by rwa [hpeek])).trans hpassed, hitems⟩

end Cursor

end HeaderAtlas
