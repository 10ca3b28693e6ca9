import HeaderAtlas.Proofs.Cursor.Block

/-!
# Where a statement ends

A statement ends behind its first `;` outside of all brackets, or behind its first block of braces there and a `;` right behind the
block (`StatementEnd`). Inside a body whose brackets are properly nested, this is what passing over a statement does, although it
counts only one kind of bracket at a time, and the brace that closes the body is never passed (`skipStatement_balanced`). The proofs
go over the tokens piece by piece, a piece being a token outside of all brackets or a whole block (`Balanced.induction`).
-/

namespace HeaderAtlas

/-! ## Properly nested tokens -/

/-- The parentheses, brackets and braces of the tokens are properly nested. -/
def Balanced (ts : List Token) : Prop := Nested [] (ts.map Token.kind)

instance (ts : List Token) : Decidable (Balanced ts) := inferInstanceAs (Decidable (Nested [] (ts.map Token.kind)))

section

variable {t u : Token} {ts us inner : List Token} {symbol : Char}

/-- Behind balanced tokens, the others have to balance alone. -/
theorem balanced_append (h : Balanced ts) : Balanced (ts ++ us) ↔ Balanced us := by
  have happend := pending_append [] (ts.map Token.kind) (us.map Token.kind) []
  rw [show pending [] [] (ts.map Token.kind) = some [] from h, Option.bind_some] at happend
  rw [Balanced, Balanced, Nested, Nested, List.map_append, happend]

/-- A flat token is balanced. -/
theorem balanced_singleton (h : t.kind.Flat) : Balanced [t] := pending_flat h

/-- A block around balanced tokens is balanced. -/
theorem balanced_block (hsymbol : Cursor.isOpener symbol = true) (ht : t.kind = .mark symbol) (hinner : Balanced inner)
    (hu : u.kind = .mark (closerOf symbol)) : Balanced (t :: (inner ++ [u])) := by
  have hopen := pending_add [closerOf symbol] hinner
  rw [List.nil_append] at hopen
  rw [Balanced, Nested, List.map_cons, ht, pending_opener hsymbol, List.map_append, pending_append, hopen, Option.bind_some,
    List.map_singleton, hu, pending_closer (isCloser_closerOf symbol), pending]

/-- Inside a block its first mark is open. -/
theorem not_balanced_in_block (hsymbol : Cursor.isOpener symbol = true) (ht : t.kind = .mark symbol) (h : Balanced (ts ++ us)) :
    ¬Balanced (t :: ts) := by
  intro hblock
  have happend := pending_append [] (ts.map Token.kind) (us.map Token.kind) []
  rw [← List.map_append, show pending [] [] ((ts ++ us).map Token.kind) = some [] from h] at happend
  cases hopened : pending [] [] (ts.map Token.kind) with
  | none =>
    rw [hopened] at happend
    cases happend
  | some opened =>
    have hopen := pending_add [closerOf symbol] hopened
    rw [Balanced, Nested, List.map_cons, ht, pending_opener hsymbol, ← List.nil_append [closerOf symbol], hopen] at hblock
    simp at hblock

end

/-- Properly nested tokens are made of tokens outside of all brackets and of blocks. -/
theorem Balanced.induction {P : List Token → Prop} (nil : P [])
    (flat : ∀ t ts, t.kind.Flat → Balanced ts → P ts → P (t :: ts))
    (block : ∀ symbol t inner u ts, Cursor.isOpener symbol = true → t.kind = .mark symbol → Balanced inner →
      u.kind = .mark (closerOf symbol) → Balanced ts → P ts → P (t :: (inner ++ u :: ts))) :
    ∀ (ts : List Token), Balanced ts → P ts := by
  intro ts
  induction hn : ts.length using Nat.strongRecOn generalizing ts with
  | ind n ih =>
    intro h
    cases ts with
    | nil => exact nil
    | cons t ts =>
      rcases t.kind.nesting_cases with ⟨symbol, hkind, hopener⟩ | ⟨symbol, hkind, hcloser⟩ | hflat
      · rw [Balanced, Nested, List.map_cons, hkind, pending_opener hopener, ← List.nil_append [closerOf symbol]] at h
        obtain ⟨inner, u, rest, rfl, hu, hinner, hrest⟩ := exists_closer [] h
        refine block symbol t inner u rest hopener hkind hinner hu hrest (ih rest.length ?_ rest rfl hrest)
        rw [← hn]
        simp
        omega
      · rw [Balanced, Nested, List.map_cons, hkind] at h
        obtain ⟨rest, hrest, -⟩ := open_of_pending_closer hcloser h
        cases hrest
      · have hts : Balanced ts := pending_of_flat hflat h
        exact flat t ts hflat hts (ih ts.length (by rw [← hn]; exact Nat.lt_succ_self _) ts rfl hts)

/-! ## Statements -/

/-- Outside of all brackets there is neither a `;` nor a brace. -/
def Unended (ts : List Token) : Prop :=
  ∀ front t back, ts = front ++ t :: back → Balanced front → t.kind ≠ .mark ';' ∧ t.kind ≠ .mark '{'

/-- Of tokens that are properly nested, `left` stands behind the first statement: behind the first `;` outside of all brackets, or
behind the first block of braces there and a `;` right behind it, whichever comes first; nothing is left if there is neither. -/
inductive StatementEnd : List Token → List Token → Prop where
  | semicolon {front left : List Token} {t : Token} (hfront : Balanced front) (hunended : Unended front) (ht : t.kind = .mark ';') :
      StatementEnd (front ++ t :: left) left
  | block {front inner left : List Token} {t u : Token} (hfront : Balanced front) (hunended : Unended front)
      (ht : t.kind = .mark '{') (hinner : Balanced inner) (hu : u.kind = .mark '}')
      (hleft : ∀ v, left.head? = some v → v.kind ≠ .mark ';') : StatementEnd (front ++ t :: (inner ++ u :: left)) left
  | blockSemicolon {front inner left : List Token} {t u v : Token} (hfront : Balanced front) (hunended : Unended front)
      (ht : t.kind = .mark '{') (hinner : Balanced inner) (hu : u.kind = .mark '}') (hv : v.kind = .mark ';') :
      StatementEnd (front ++ t :: (inner ++ u :: v :: left)) left
  | unended {ts : List Token} (hts : Balanced ts) (hunended : Unended ts) : StatementEnd ts []

/-- A statement does not end in two balanced runs of which it ends in neither. -/
theorem Unended.append {ts us : List Token} (hts : Balanced ts) (h : Unended ts) (h' : Unended us) : Unended (ts ++ us) := by
  intro front t back hsplit hfront
  rcases List.append_eq_append_iff.mp hsplit with ⟨middle, rfl, hus⟩ | ⟨middle, rfl, hback⟩
  · exact h' middle t back hus ((balanced_append hts).mp hfront)
  · cases middle with
    | nil => exact h' [] t back hback.symm rfl
    | cons v middle =>
      obtain ⟨rfl, -⟩ := List.cons.inj hback
      exact h front t middle rfl hfront

/-- A token that is neither `;` nor `{` ends no statement. -/
theorem unended_singleton {t : Token} (h : t.kind ≠ .mark ';') (h' : t.kind ≠ .mark '{') : Unended [t] := by
  intro front u back hsplit _
  cases front with
  | nil =>
    obtain ⟨rfl, -⟩ := List.cons.inj hsplit
    exact ⟨h, h'⟩
  | cons v front => simp at hsplit

/-- A block that is not of braces has nothing outside of all brackets but the mark it begins with. -/
theorem unended_block {symbol : Char} {t u : Token} {inner : List Token} (hsymbol : Cursor.isOpener symbol = true)
    (ht : t.kind = .mark symbol) (hbrace : symbol ≠ '{') (hinner : Balanced inner) : Unended (t :: (inner ++ [u])) := by
  intro front v back hsplit hfront
  cases front with
  | nil =>
    obtain ⟨rfl, -⟩ := List.cons.inj hsplit
    rw [ht]
    refine ⟨fun h => ?_, fun h => hbrace (Token.Kind.mark.inj h)⟩
    rw [Token.Kind.mark.inj h] at hsymbol
    cases hsymbol
  | cons w front =>
    obtain ⟨rfl, htail⟩ := List.cons.inj hsplit
    have hprefix : ∃ more, inner = front ++ more := by
      rcases List.append_eq_append_iff.mp htail with ⟨middle, rfl, hback⟩ | ⟨middle, rfl, -⟩
      · cases middle with
        | nil => exact ⟨[], by simp⟩
        | cons x middle => simp at hback
      · exact ⟨middle, rfl⟩
    obtain ⟨more, rfl⟩ := hprefix
    exact absurd hfront (not_balanced_in_block hsymbol ht hinner)

/-- A statement that does not end in the whole does not end in the second run. -/
theorem Unended.of_append {ts us : List Token} (hts : Balanced ts) (h : Unended (ts ++ us)) : Unended us := by
  intro front t back hsplit hfront
  exact h (ts ++ front) t back (by rw [hsplit, List.append_assoc]) ((balanced_append hts).mpr hfront)

/-- A piece in which no statement ends may stand in front. -/
theorem StatementEnd.prepend {piece ts left : List Token} (hpiece : Balanced piece) (hunended : Unended piece)
    (h : StatementEnd ts left) : StatementEnd (piece ++ ts) left := by
  cases h with
  | semicolon hfront hopen ht =>
    rw [← List.append_assoc]
    exact .semicolon ((balanced_append hpiece).mpr hfront) (hunended.append hpiece hopen) ht
  | block hfront hopen ht hinner hu hleft =>
    rw [← List.append_assoc]
    exact .block ((balanced_append hpiece).mpr hfront) (hunended.append hpiece hopen) ht hinner hu hleft
  | blockSemicolon hfront hopen ht hinner hu hv =>
    rw [← List.append_assoc]
    exact .blockSemicolon ((balanced_append hpiece).mpr hfront) (hunended.append hpiece hopen) ht hinner hu hv
  | unended hts hopen => exact .unended ((balanced_append hpiece).mpr hts) (hunended.append hpiece hopen)

theorem balanced_nil : Balanced [] := rfl

theorem unended_nil : Unended [] := fun front t back h => by simp at h

/-- Behind a statement stands the end of the tokens. -/
theorem StatementEnd.suffix {ts left : List Token} (h : StatementEnd ts left) : left <:+ ts := by
  cases h with
  | semicolon => exact ⟨_, List.append_cons .. |>.symm⟩
  | @block front inner left t u => exact ⟨front ++ t :: (inner ++ [u]), by simp⟩
  | @blockSemicolon front inner left t u v => exact ⟨front ++ t :: (inner ++ [u, v]), by simp⟩
  | unended => exact List.nil_suffix

/-- Of properly nested tokens, some stand behind the first statement, or none. -/
theorem exists_statementEnd : ∀ (ts : List Token), Balanced ts → ∃ left, StatementEnd ts left := by
  refine Balanced.induction ⟨[], .unended balanced_nil unended_nil⟩ ?_ ?_
  · rintro t ts hflat - ⟨left, hleft⟩
    by_cases ht : t.kind = .mark ';'
    · exact ⟨ts, StatementEnd.semicolon balanced_nil unended_nil ht⟩
    · have hbrace : t.kind ≠ .mark '{' := fun hkind => Bool.false_ne_true ((hflat _ hkind).1.symm.trans rfl)
      exact ⟨left, hleft.prepend (balanced_singleton hflat) (unended_singleton ht hbrace)⟩
  · rintro symbol t inner u ts hsymbol ht hinner hu - ⟨left, hleft⟩
    by_cases hbrace : symbol = '{'
    · subst hbrace
      cases ts with
      | nil => exact ⟨[], StatementEnd.block balanced_nil unended_nil ht hinner hu (by simp)⟩
      | cons v ts =>
        by_cases hv : v.kind = .mark ';'
        · exact ⟨ts, StatementEnd.blockSemicolon balanced_nil unended_nil ht hinner hu hv⟩
        · exact ⟨v :: ts, StatementEnd.block balanced_nil unended_nil ht hinner hu (by rintro _ ⟨⟩; exact hv)⟩
    · have hpiece := hleft.prepend (balanced_block hsymbol ht hinner hu) (unended_block hsymbol ht hbrace hinner)
      rw [List.cons_append, List.append_assoc] at hpiece
      exact ⟨left, hpiece⟩

namespace Cursor

/-- Parentheses and brackets are passed over whole. -/
theorem afterStatement_block {symbol : Char} {t u : Token} {inner : List Token} (hsymbol : isOpener symbol = true)
    (ht : t.kind = .mark symbol) (hbrace : t.kind ≠ .mark '{') (hinner : Balanced inner)
    (hu : u.kind = .mark (closerOf symbol)) (rest : List Token) :
    afterStatement (t :: (inner ++ u :: rest)) = afterStatement rest := by
  have hbehind : afterBlock symbol (closerOf symbol) 1 (inner ++ u :: rest) = rest := afterBlock_nested hsymbol hinner hu
  rw [afterStatement]
  simp only [isMark_of_kind ht]
  rw [isOpener, Bool.or_eq_true, Bool.or_eq_true, beq_iff_eq, beq_iff_eq, beq_iff_eq] at hsymbol
  rcases hsymbol with (rfl | rfl) | rfl
  · exact congrArg afterStatement hbehind
  · exact congrArg afterStatement hbehind
  · exact absurd ht hbrace

/-- Tokens in which no statement ends are passed over. -/
theorem afterStatement_unended (rest : List Token) :
    ∀ (ts : List Token), Balanced ts → Unended ts → afterStatement (ts ++ rest) = afterStatement rest := by
  refine Balanced.induction (fun _ => rfl) ?_ ?_
  · intro t ts hflat _ ih hunended
    obtain ⟨hsemicolon, -⟩ := hunended [] t ts rfl rfl
    have hmark : ∀ {symbol : Char}, isOpener symbol = true ∨ isCloser symbol = true → ¬t.isMark symbol = true :=
      fun hsymbol => Bool.eq_false_iff.mp (not_isMark_of_flat hflat hsymbol)
    have htail : Unended ts := Unended.of_append (balanced_singleton hflat) hunended
    rw [List.cons_append, afterStatement, if_neg (fun h => hsemicolon (kind_of_isMark h)), if_neg (hmark (Or.inr rfl)),
      if_neg (hmark (Or.inl rfl)), if_neg (hmark (Or.inl rfl)), if_neg (hmark (Or.inl rfl)), ih htail]
  · intro symbol t inner u ts hsymbol ht hinner hu _ ih hunended
    have hbrace := (hunended [] t _ rfl rfl).2
    have htail : Unended ts := by
      refine Unended.of_append (balanced_block hsymbol ht hinner hu) ?_
      rwa [List.cons_append, List.append_assoc]
    rw [List.cons_append, List.append_assoc, List.cons_append, afterStatement_block hsymbol ht hbrace hinner hu, ih htail]

/-- In front of a brace that closes the body, the statement is passed over and nothing else. -/
theorem afterStatement_statementEnd {ts left rest : List Token} {close : Token} (h : StatementEnd ts left)
    (hclose : close.kind = .mark '}') : afterStatement (ts ++ close :: rest) = left ++ close :: rest := by
  have hmark : ∀ {t : Token}, t.kind = .mark '{' → ∀ ts, afterStatement (t :: ts) = afterMark ';' (afterBlock '{' '}' 1 ts) := by
    intro t ht ts
    rw [afterStatement]
    simp only [isMark_of_kind ht]
    rfl
  cases h with
  | semicolon hfront hunended ht =>
    rw [List.append_assoc, List.cons_append, afterStatement_unended _ _ hfront hunended, afterStatement, isMark_of_kind ht]
    rfl
  | @block front inner left t u hfront hunended ht hinner hu hleft =>
    have hbehind : afterBlock '{' '}' 1 (inner ++ u :: (left ++ close :: rest)) = left ++ close :: rest :=
      afterBlock_nested rfl hinner hu
    rw [List.append_assoc, List.cons_append, List.append_assoc, List.cons_append,
      afterStatement_unended _ _ hfront hunended, hmark ht, hbehind]
    cases left with
    | nil =>
      rw [List.nil_append, afterMark, isMark_of_kind hclose]
      rfl
    | cons v left => exact if_neg fun hv => hleft v rfl (kind_of_isMark hv)
  | @blockSemicolon front inner left t u v hfront hunended ht hinner hu hv =>
    have hbehind : afterBlock '{' '}' 1 (inner ++ u :: (v :: left ++ close :: rest)) = v :: left ++ close :: rest :=
      afterBlock_nested rfl hinner hu
    rw [List.append_assoc, List.cons_append, List.append_assoc, List.cons_append,
      afterStatement_unended _ _ hfront hunended, hmark ht, hbehind, List.cons_append, afterMark, isMark_of_kind hv]
    rfl
  | unended hts hunended =>
    rw [afterStatement_unended _ _ hts hunended, afterStatement, isMark_of_kind hclose, isMark_of_kind hclose]
    rfl

/-- In a body whose brackets are properly nested the cursor stops where the statement in front of it ends, and this is in the body
or on the brace that closes it. -/
theorem skipStatement_balanced {c : Cursor} {body rest : List Token} {close : Token}
    (hunread : c.unread = body ++ close :: rest) (hclose : close.kind = .mark '}') (hbody : Balanced body) :
    (∃ left, StatementEnd body left) ∧
      ∀ left, StatementEnd body left → left <:+ body ∧ c.skipStatement = { c with unread := left ++ close :: rest } := by
  refine ⟨exists_statementEnd body hbody, fun left hleft => ⟨hleft.suffix, ?_⟩⟩
  rw [skipStatement, hunread, afterStatement_statementEnd hleft hclose]

/-- Semicolons in braces in parentheses do not end the statement; its own block does, with the `;` behind it. -/
theorem skipStatement_balanced_over_brackets :
    let c := ofText "a[(\x7b;\x7d)] \x7bb;\x7d; t; \x7d u;"
    let body := c.unread.take 15
    Balanced body ∧ ∃ left, StatementEnd body left ∧ left.map Token.kind = [.word "t", .mark ';'] ∧
      c.skipStatement.unread.map Token.kind = [.word "t", .mark ';', .mark '}', .word "u", .mark ';'] := by
  have hread :
      let c := ofText "a[(\x7b;\x7d)] \x7bb;\x7d; t; \x7d u;"
      Balanced (c.unread.take 15) ∧ (c.unread.drop 15).map Token.kind = [.mark '}', .word "u", .mark ';'] ∧
        c.skipStatement.unread.map Token.kind = [.word "t", .mark ';', .mark '}', .word "u", .mark ';'] := by
    decide +kernel
  intro c body
  obtain ⟨hbody, hdrop, hskip⟩ := hread
  obtain ⟨close, rest, hbehind, hclose, hrest⟩ := List.map_eq_cons_iff.mp hdrop
  have hunread : c.unread = body ++ close :: rest := by rw [← hbehind, List.take_append_drop]
  obtain ⟨⟨left, hleft⟩, hstop⟩ := skipStatement_balanced hunread hclose hbody
  refine ⟨hbody, left, hleft, ?_, hskip⟩
  have hkinds : c.skipStatement.unread.map Token.kind = left.map Token.kind ++ [.mark '}', .word "u", .mark ';'] := by
    rw [(hstop left hleft).2, List.map_append, List.map_cons, hclose, hrest]
  exact List.append_cancel_right (hkinds.symm.trans hskip)

end Cursor

end HeaderAtlas
