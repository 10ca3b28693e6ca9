import HeaderAtlas.Proofs.Token.Span

/-!
# Nested marks

Parentheses, brackets and braces are properly nested if each one that closes closes the last one that is open, and in the end none
is open (`Nested`). Over such tokens a block between two marks is passed over exactly, also if only one kind of mark is counted,
and a capture takes exactly the tokens up to the stop behind them (`capture_nested`).
-/

namespace HeaderAtlas

/-- The mark that closes what a mark opens. -/
def closerOf (symbol : Char) : Char := if symbol = '(' then ')' else if symbol = '[' then ']' else '}'

/-- The marks that are to close what is open behind these tokens, the next one first, if these marks were to come before; none if
a mark closes what is not open, or if a stop stands where nothing is open. -/
def pending (stops : List Char) : List Char → List Token.Kind → Option (List Char)
  | awaited, [] => some awaited
  | awaited, .mark symbol :: kinds =>
    if Cursor.isOpener symbol then pending stops (closerOf symbol :: awaited) kinds
    else if Cursor.isCloser symbol then if awaited.head? = some symbol then pending stops awaited.tail kinds else none
    else if awaited = [] ∧ symbol ∈ stops then none
    else pending stops awaited kinds
  | awaited, _ :: kinds => pending stops awaited kinds

/-- The parentheses, brackets and braces of these tokens are properly nested, and no stop stands outside of them. -/
def Nested (stops : List Char) (kinds : List Token.Kind) : Prop := pending stops [] kinds = some []

instance (stops : List Char) (kinds : List Token.Kind) : Decidable (Nested stops kinds) :=
  inferInstanceAs (Decidable (pending stops [] kinds = some []))

/-- What is awaited behind two runs is awaited behind the second, from what the first awaits. -/
theorem pending_append (stops : List Char) (kinds kinds' : List Token.Kind) (awaited : List Char) :
    pending stops awaited (kinds ++ kinds') = (pending stops awaited kinds).bind (pending stops · kinds') := by
  fun_induction pending stops awaited kinds <;> simp_all [pending]

/-- Without stops, what is nested with stops is nested too. -/
theorem pending_weaken {stops : List Char} {kinds : List Token.Kind} {awaited result : List Char}
    (h : pending stops awaited kinds = some result) : pending [] awaited kinds = some result := by
  fun_induction pending stops awaited kinds with
  | case1 => exact h
  | case2 awaited symbol kinds hopener ih =>
    rw [pending, if_pos hopener]
    exact ih h
  | case3 awaited symbol kinds hopener hcloser hhead ih =>
    rw [pending, if_neg hopener, if_pos hcloser, if_pos hhead]
    exact ih h
  | case4 => cases h
  | case5 => cases h
  | case6 awaited symbol kinds hopener hcloser hstop ih =>
    rw [pending, if_neg hopener, if_neg hcloser, if_neg (fun h => List.not_mem_nil h.2)]
    exact ih h
  | case7 awaited kind kinds hmark ih =>
    rw [pending.eq_3 _ _ _ _ hmark]
    exact ih h

/-! ## One token -/

/-- The token neither opens nor closes a nesting. -/
def Token.Kind.Flat (kind : Token.Kind) : Prop :=
  ∀ symbol, kind = .mark symbol → Cursor.isOpener symbol = false ∧ Cursor.isCloser symbol = false

/-- A token opens a nesting, closes one or does neither. -/
theorem Token.Kind.nesting_cases (kind : Token.Kind) :
    (∃ symbol, kind = .mark symbol ∧ Cursor.isOpener symbol = true) ∨
      (∃ symbol, kind = .mark symbol ∧ Cursor.isCloser symbol = true) ∨ kind.Flat := by
  cases kind with
  | mark symbol =>
    cases hopener : Cursor.isOpener symbol with
    | true => exact Or.inl ⟨symbol, rfl, hopener⟩
    | false =>
      cases hcloser : Cursor.isCloser symbol with
      | true => exact Or.inr (Or.inl ⟨symbol, rfl, hcloser⟩)
      | false =>
        refine Or.inr (Or.inr fun other h => ?_)
        obtain rfl := Token.Kind.mark.inj h
        exact ⟨hopener, hcloser⟩
  | _ => exact Or.inr (Or.inr fun _ h => Token.Kind.noConfusion h)

/-- A token of a given mark is that mark and no other. -/
theorem isMark_of_kind {t : Token} {symbol : Char} (h : t.kind = .mark symbol) (other : Char) :
    t.isMark other = (symbol == other) := by
  rw [Token.isMark, h, Bool.eq_iff_iff]
  simp

/-- A flat token opens and closes nothing. -/
theorem not_isMark_of_flat {t : Token} (h : t.kind.Flat) {symbol : Char}
    (hs : Cursor.isOpener symbol = true ∨ Cursor.isCloser symbol = true) : t.isMark symbol = false := by
  rw [Token.isMark, beq_eq_false_iff_ne]
  intro hkind
  obtain ⟨hopener, hcloser⟩ := h symbol hkind
  rcases hs with hs | hs
  · rw [hopener] at hs
    cases hs
  · rw [hcloser] at hs
    cases hs

section

variable {stops awaited : List Char} {kinds : List Token.Kind} {symbol : Char}

/-- An opening mark awaits the one that closes it. -/
theorem pending_opener (h : Cursor.isOpener symbol = true) :
    pending stops awaited (.mark symbol :: kinds) = pending stops (closerOf symbol :: awaited) kinds := by
  rw [pending, if_pos h]

/-- No mark both closes and opens. -/
theorem not_isOpener_of_isCloser (h : Cursor.isCloser symbol = true) : Cursor.isOpener symbol = false := by
  simp only [Cursor.isCloser, Bool.or_eq_true, beq_iff_eq] at h
  rcases h with (rfl | rfl) | rfl <;> rfl

theorem not_isCloser_of_isOpener (h : Cursor.isOpener symbol = true) : Cursor.isCloser symbol = false := by
  simp only [Cursor.isOpener, Bool.or_eq_true, beq_iff_eq] at h
  rcases h with (rfl | rfl) | rfl <;> rfl

/-- What closes a block is a closing mark. -/
theorem isCloser_closerOf (symbol : Char) : Cursor.isCloser (closerOf symbol) = true := by
  unfold closerOf
  split
  · rfl
  · split <;> rfl

/-- Different marks are closed by different marks. -/
theorem closerOf_ne {other : Char} (h : Cursor.isOpener symbol = true) (h' : Cursor.isOpener other = true)
    (hne : symbol ≠ other) : closerOf symbol ≠ closerOf other := by
  simp only [Cursor.isOpener, Bool.or_eq_true, beq_iff_eq] at h h'
  rcases h with (rfl | rfl) | rfl <;> rcases h' with (rfl | rfl) | rfl <;> first | exact absurd rfl hne | decide

/-- Behind a mark that closes, what it was to close is open no longer. -/
theorem open_of_pending_closer {result : List Char} (hs : Cursor.isCloser symbol = true)
    (h : pending stops awaited (.mark symbol :: kinds) = some result) :
    ∃ rest, awaited = symbol :: rest ∧ pending stops rest kinds = some result := by
  rw [pending, not_isOpener_of_isCloser hs, if_neg Bool.false_ne_true, if_pos hs] at h
  split at h
  · rename_i hhead
    obtain ⟨rest, rfl⟩ := List.head?_eq_some_iff.mp hhead
    exact ⟨rest, rfl, h⟩
  · cases h

/-- A mark of another kind, or a token that is no mark, leaves open what is open. -/
theorem pending_of_flat {kind : Token.Kind} {result : List Char} (hflat : kind.Flat) (h : pending stops awaited (kind :: kinds) = some result) :
    pending stops awaited kinds = some result := by
  cases kind with
  | mark symbol =>
    obtain ⟨hopener, hcloser⟩ := hflat symbol rfl
    rw [pending, hopener, if_neg Bool.false_ne_true, hcloser, if_neg Bool.false_ne_true] at h
    split at h
    · cases h
    · exact h
  | _ => exact h

end

namespace Cursor

/-! ## Blocks -/

/-- Only marks of one pair are counted, but in properly nested tokens the others do not come in between. -/
theorem afterBlock_pending {stops : List Char} {opening : Char} (hopening : isOpener opening = true) (depth : Nat)
    (rest : List Token) :
    ∀ (run : List Token) (awaited result : List Char), pending stops awaited (run.map Token.kind) = some result →
      afterBlock opening (closerOf opening) (awaited.count (closerOf opening) + depth + 1) (run ++ rest) =
        afterBlock opening (closerOf opening) (result.count (closerOf opening) + depth + 1) rest := by
  intro run
  induction run with
  | nil =>
    intro awaited result h
    obtain rfl := Option.some.inj h
    rfl
  | cons t run ih =>
    intro awaited result h
    rw [List.map_cons] at h
    rw [List.cons_append, afterBlock]
    rcases t.kind.nesting_cases with ⟨symbol, hkind, hopener⟩ | ⟨symbol, hkind, hcloser⟩ | hflat
    · rw [hkind, pending_opener hopener] at h
      have hnext := ih _ _ h
      rw [isMark_of_kind hkind, isMark_of_kind hkind]
      by_cases hsame : symbol = opening
      · subst hsame
        rw [List.count_cons_self] at hnext
        rw [beq_self_eq_true, if_pos rfl, ← hnext]
        congr 1
        omega
      · have hother : closerOf symbol ≠ closerOf opening := closerOf_ne hopener hopening hsame
        have hcloser : symbol ≠ closerOf opening := by
          rintro rfl
          rw [not_isOpener_of_isCloser (isCloser_closerOf opening)] at hopener
          cases hopener
        rw [List.count_cons_of_ne hother] at hnext
        rw [beq_false_of_ne hsame, if_neg Bool.false_ne_true, beq_false_of_ne hcloser, if_neg Bool.false_ne_true]
        exact hnext
    · rw [hkind] at h
      obtain ⟨tail, rfl, htail⟩ := open_of_pending_closer hcloser h
      have hnext := ih _ _ htail
      have hne : symbol ≠ opening := by
        rintro rfl
        rw [not_isOpener_of_isCloser hcloser] at hopening
        cases hopening
      rw [isMark_of_kind hkind, isMark_of_kind hkind, beq_false_of_ne hne, if_neg Bool.false_ne_true]
      by_cases hsame : symbol = closerOf opening
      · subst hsame
        rw [beq_self_eq_true, if_pos rfl, List.count_cons_self, if_neg (by omega), ← hnext]
        congr 1
        omega
      · rw [beq_false_of_ne hsame, if_neg Bool.false_ne_true, List.count_cons_of_ne hsame]
        exact hnext
    · rw [not_isMark_of_flat hflat (Or.inl hopening), if_neg Bool.false_ne_true,
        not_isMark_of_flat hflat (Or.inr (isCloser_closerOf opening)), if_neg Bool.false_ne_true]
      exact ih _ _ (pending_of_flat hflat h)

/-- A block is passed over up to the mark that closes it. -/
theorem afterBlock_nested {stops : List Char} {opening : Char} (hopening : isOpener opening = true) {run rest : List Token}
    {t : Token} (hrun : Nested stops (run.map Token.kind)) (ht : t.kind = .mark (closerOf opening)) :
    afterBlock opening (closerOf opening) 1 (run ++ t :: rest) = rest := by
  have h := afterBlock_pending hopening 0 (t :: rest) run [] [] hrun
  rw [List.count_nil] at h
  rw [h, afterBlock, isMark_of_kind ht, isMark_of_kind ht, beq_self_eq_true]
  have hne : closerOf opening ≠ opening := by
    intro heq
    have hcloser := isCloser_closerOf opening
    rw [heq] at hcloser
    rw [not_isOpener_of_isCloser hcloser] at hopening
    cases hopening
  rw [beq_false_of_ne hne]
  rfl

/-! ## Captures -/

/-- A mark that does not end a capture is taken. -/
theorem splitCapture_mark {stops : List Char} {depth : Nat} {t : Token} {ts : List Token} {symbol : Char}
    (hkind : t.kind = .mark symbol) (h : depth = 0 → symbol ∉ stops ∧ isCloser symbol = false) :
    splitCapture stops depth (t :: ts) = (t :: (splitCapture stops (depthAfter depth symbol) ts).1,
      (splitCapture stops (depthAfter depth symbol) ts).2) := by
  rw [splitCapture, hkind]
  refine if_neg ?_
  rintro ⟨hdepth, hstop | hcloser⟩
  · exact (h hdepth).1 (List.contains_iff_mem.mp hstop)
  · rw [(h hdepth).2] at hcloser
    cases hcloser

/-- A token that is no mark is taken. -/
theorem splitCapture_other {stops : List Char} {depth : Nat} {t : Token} {ts : List Token}
    (hkind : ∀ symbol, t.kind ≠ .mark symbol) :
    splitCapture stops depth (t :: ts) = (t :: (splitCapture stops depth ts).1, (splitCapture stops depth ts).2) := by
  rw [splitCapture]
  split
  · exact absurd ‹_› (hkind _)
  · rfl

/-- A stop outside all nesting ends a capture, as a mark does that closes what was open before. -/
theorem splitCapture_stop {stops : List Char} {t : Token} {ts : List Token} {symbol : Char} (hkind : t.kind = .mark symbol)
    (h : symbol ∈ stops ∨ isCloser symbol = true) : splitCapture stops 0 (t :: ts) = ([], t :: ts) := by
  rw [splitCapture, hkind]
  refine if_pos ⟨rfl, ?_⟩
  rcases h with h | h
  · exact Or.inl (List.contains_iff_mem.mpr h)
  · exact Or.inr h

/-- A capture takes nested tokens whole, whatever is open before them. -/
theorem splitCapture_pending {stops : List Char} (rest : List Token) :
    ∀ (run : List Token) (awaited result : List Char), pending stops awaited (run.map Token.kind) = some result →
      ∀ {stops' : List Char}, (∀ symbol ∈ stops', isOpener symbol = false ∧ (symbol ∈ stops ∨ isCloser symbol = true)) →
      splitCapture stops' awaited.length (run ++ rest) =
        (run ++ (splitCapture stops' result.length rest).1, (splitCapture stops' result.length rest).2) := by
  intro run
  induction run with
  | nil =>
    intro awaited result h stops' _
    obtain rfl := Option.some.inj h
    rfl
  | cons t run ih =>
    intro awaited result h stops' hstops
    rw [List.map_cons] at h
    rw [List.cons_append]
    cases hkind : t.kind with
    | mark symbol =>
      rw [hkind] at h
      cases hopener : isOpener symbol with
      | true =>
        rw [pending_opener hopener] at h
        have hdepth : depthAfter awaited.length symbol = (closerOf symbol :: awaited).length := if_pos hopener
        have hopen : symbol ∉ stops' := by
          intro hmem
          rw [(hstops symbol hmem).1] at hopener
          cases hopener
        rw [splitCapture_mark hkind (fun _ => ⟨hopen, not_isCloser_of_isOpener hopener⟩), hdepth, ih _ _ h hstops]
        rfl
      | false =>
        cases hcloser : isCloser symbol with
        | true =>
          obtain ⟨tail, rfl, htail⟩ := open_of_pending_closer hcloser h
          have hdepth : depthAfter (symbol :: tail).length symbol = tail.length := by
            rw [depthAfter, hopener, hcloser]
            rfl
          have hopen : (symbol :: tail).length ≠ 0 := Nat.succ_ne_zero _
          rw [splitCapture_mark hkind (fun hnil => absurd hnil hopen), hdepth, ih _ _ htail hstops]
          rfl
        | false =>
          have hdepth : depthAfter awaited.length symbol = awaited.length := by
            rw [depthAfter, hopener, hcloser]
            rfl
          rw [pending, hopener, if_neg Bool.false_ne_true, hcloser, if_neg Bool.false_ne_true] at h
          split at h
          · cases h
          · rename_i hstop
            have hopen : awaited.length = 0 → symbol ∉ stops' ∧ isCloser symbol = false := by
              refine fun hnil => ⟨fun hmem => ?_, hcloser⟩
              rcases (hstops symbol hmem).2 with hmem | hclose
              · exact hstop ⟨List.length_eq_zero_iff.mp hnil, hmem⟩
              · rw [hcloser] at hclose
                cases hclose
            rw [splitCapture_mark hkind hopen, hdepth, ih _ _ h hstops]
            rfl
    | _ =>
      rw [hkind] at h
      rw [splitCapture_other (by rw [hkind]; exact fun _ => Token.Kind.noConfusion), ih _ _ h hstops]
      rfl

/-- What is captured and what is left are the tokens. -/
theorem append_splitCapture (stops : List Char) (depth : Nat) (ts : List Token) :
    (splitCapture stops depth ts).1 ++ (splitCapture stops depth ts).2 = ts := by
  fun_induction splitCapture stops depth ts with
  | case1 => rfl
  | case2 => rfl
  | case3 _ t ts _ _ _ _ ih => exact congrArg (t :: ·) ih
  | case4 _ t ts _ _ ih => exact congrArg (t :: ·) ih

/-- A captured text is that of the tokens in front of what ends the capture. -/
theorem capture_eq (c : Cursor) (stops : List Char) : c.capture stops =
    (if (runText c.source (splitCapture stops 0 c.unread).1).isEmpty then none
      else some (String.ofList (runText c.source (splitCapture stops 0 c.unread).1)),
      { c with unread := (splitCapture stops 0 c.unread).2 }) := by
  have htext : Text.trimBy Text.isBlank (c.slice c.peek.start
      (((splitCapture stops 0 c.unread).1.getLast?.map Token.stop).getD c.peek.start)) =
      runText c.source (splitCapture stops 0 c.unread).1 := by
    have happend := append_splitCapture stops 0 c.unread
    cases hrun : (splitCapture stops 0 c.unread).1 with
    | nil =>
      rw [List.getLast?_nil, Option.map_none, Option.getD_none, slice, Nat.sub_self, List.take_zero]
      rfl
    | cons t ts =>
      have hpeek : c.peek = t := by
        rw [hrun] at happend
        rw [peek, ← happend]
        rfl
      rewrite [hpeek]
      rfl
  rewrite [← htext]
  rfl

/-- The source text from the first of some tokens to the last one. -/
def textOf (c : Cursor) (run : List Token) : String :=
  String.ofList (c.slice ((run.head?.map Token.start).getD 0) ((run.getLast?.map Token.stop).getD 0))

/-- Nothing is captured if no token is. -/
theorem capture_eq_none_iff {c : Cursor} (hc : c.Lined) (stops : List Char) :
    (c.capture stops).1 = none ↔ (splitCapture stops 0 c.unread).1 = [] := by
  have hprefix : (splitCapture stops 0 c.unread).1 <+: c.unread := ⟨_, append_splitCapture stops 0 c.unread⟩
  rw [capture_eq]
  by_cases hnil : (splitCapture stops 0 c.unread).1 = []
  · rw [hnil]
    exact iff_of_true rfl rfl
  · refine iff_of_false (fun h => ?_) hnil
    rw [if_neg (by rw [List.isEmpty_iff]; exact (hc.of_prefix hprefix).runText_ne_nil hnil)] at h
    cases h

/-- With a token behind what is captured, the text goes on, and what is captured is copied as it is written. -/
theorem capture_of_splitCapture {c : Cursor} (hc : c.Lined) {stops : List Char} {run rest : List Token} {t : Token}
    (hsplit : splitCapture stops 0 c.unread = (run, t :: rest)) (hne : run ≠ []) :
    c.capture stops = (some (c.textOf run), { c with unread := t :: rest }) := by
  have happend := append_splitCapture stops 0 c.unread
  rw [hsplit] at happend
  rw [Lined, ← happend] at hc
  have hempty : runText c.source run ≠ [] := (hc.of_prefix (List.prefix_append _ _)).runText_ne_nil hne
  have htext : runText c.source run = runSpan c.source run := hc.runText_eq_runSpan hne
  rewrite [capture_eq, hsplit]
  dsimp only
  rw [if_neg (by rwa [List.isEmpty_iff]), htext]
  rfl

/-- Nested tokens are captured up to the mark behind them, and their text is copied as it is written. -/
theorem capture_nested {c : Cursor} (hc : c.Lined) {run rest : List Token} {t : Token} {stops stops' : List Char} {symbol : Char}
    (hunread : c.unread = run ++ t :: rest) (hne : run ≠ []) (hrun : Nested stops (run.map Token.kind))
    (hstops : ∀ symbol ∈ stops', isOpener symbol = false ∧ (symbol ∈ stops ∨ isCloser symbol = true))
    (ht : t.kind = .mark symbol) (hsymbol : symbol ∈ stops' ∨ isCloser symbol = true) :
    c.capture stops' = (some (c.textOf run), { c with unread := t :: rest }) := by
  refine capture_of_splitCapture hc ?_ hne
  have h := splitCapture_pending (t :: rest) run [] [] hrun hstops
  rw [List.length_nil, splitCapture_stop ht hsymbol, List.append_nil] at h
  rw [hunread, h]

end Cursor

end HeaderAtlas
