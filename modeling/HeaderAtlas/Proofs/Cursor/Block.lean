import HeaderAtlas.Proofs.Cursor.Nesting

/-!
# Inside a block

A reader that has entered a block between two marks stands outside of the inner blocks of the same marks, though perhaps inside
other brackets (`InBlock`). It stays so whatever it reads token by token, as long as it passes over inner blocks whole and stops at
the mark that closes the block; so it cannot miss that mark. What passes over more than one token at once is shown to keep this:
blocks, statements, parameters and captures.
-/

namespace HeaderAtlas

/-! ## Places outside of inner blocks -/

/-- The depth in blocks of one pair of marks behind a token. -/
def depthBehind (opening : Char) (depth : Nat) (kind : Token.Kind) : Nat :=
  if kind = .mark opening then depth + 1 else if kind = .mark (closerOf opening) then depth - 1 else depth

/-- At every token outside of the blocks of one pair of marks, what begins there passes the test. -/
def everyPlace (opening : Char) (test : List Token.Kind → Bool) : Nat → List Token.Kind → Bool
  | _, [] => true
  | depth, kind :: kinds =>
    (depth != 0 || test (kind :: kinds)) && everyPlace opening test (depthBehind opening depth kind) kinds

theorem everyPlace_true (opening : Char) (depth : Nat) (kinds : List Token.Kind) :
    everyPlace opening (fun _ => true) depth kinds = true := by
  induction kinds generalizing depth with
  | nil => rfl
  | cons kind kinds ih => rw [everyPlace, ih, Bool.or_true, Bool.and_true]

section

variable {stops awaited result : List Char} {kind : Token.Kind} {kinds : List Token.Kind} {opening : Char}

/-- Behind one token, what is open of one pair of marks is as its depth says. -/
theorem pending_cons (hopening : Cursor.isOpener opening = true) (h : pending stops awaited (kind :: kinds) = some result) :
    ∃ awaited', pending stops awaited' kinds = some result ∧
      awaited'.count (closerOf opening) = depthBehind opening (awaited.count (closerOf opening)) kind := by
  unfold depthBehind
  rcases kind.nesting_cases with ⟨symbol, rfl, hopener⟩ | ⟨symbol, rfl, hcloser⟩ | hflat
  · refine ⟨_, (pending_opener hopener).symm.trans h, ?_⟩
    by_cases hsame : symbol = opening
    · subst hsame
      rw [if_pos rfl, List.count_cons_self]
    · have hcloser : symbol ≠ closerOf opening := by
        rintro rfl
        rw [not_isOpener_of_isCloser (isCloser_closerOf opening)] at hopener
        cases hopener
      rw [if_neg (by simpa using hsame), if_neg (by simpa using hcloser),
        List.count_cons_of_ne (closerOf_ne hopener hopening hsame)]
  · obtain ⟨tail, rfl, htail⟩ := open_of_pending_closer hcloser h
    have hne : symbol ≠ opening := by
      rintro rfl
      rw [not_isOpener_of_isCloser hcloser] at hopening
      cases hopening
    refine ⟨tail, htail, ?_⟩
    rw [if_neg (by simpa using hne)]
    by_cases hsame : symbol = closerOf opening
    · subst hsame
      rw [if_pos rfl, List.count_cons_self, Nat.add_sub_cancel]
    · rw [if_neg (by simpa using hsame), List.count_cons_of_ne hsame]
  · refine ⟨awaited, pending_of_flat hflat h, ?_⟩
    rw [if_neg, if_neg]
    · rintro rfl
      exact absurd (isCloser_closerOf opening) (Bool.eq_false_iff.mp (hflat _ rfl).2)
    · rintro rfl
      exact absurd hopening (Bool.eq_false_iff.mp (hflat _ rfl).1)

/-- Tokens that are not of the pair of marks leave as much of it open. -/
theorem count_pending (hopening : Cursor.isOpener opening = true) : ∀ {kinds : List Token.Kind} {awaited : List Char},
    pending stops awaited kinds = some result → (∀ kind ∈ kinds, kind ≠ .mark opening ∧ kind ≠ .mark (closerOf opening)) →
      result.count (closerOf opening) = awaited.count (closerOf opening) := by
  intro kinds
  induction kinds with
  | nil =>
    intro awaited h _
    rw [Option.some.inj h]
  | cons kind kinds ih =>
    intro awaited h hmarks
    obtain ⟨⟨hopen, hclose⟩, hmarks⟩ := List.forall_mem_cons.mp hmarks
    obtain ⟨awaited', hrest, hcount⟩ := pending_cons hopening h
    rw [ih hrest hmarks, hcount, depthBehind, if_neg hopen, if_neg hclose]

/-- Behind some tokens the places are those of what follows, at the depth that is left. -/
theorem everyPlace_behind (hopening : Cursor.isOpener opening = true) {test : List Token.Kind → Bool} {more : List Token.Kind} :
    ∀ {kinds : List Token.Kind} {awaited : List Char}, pending stops awaited kinds = some result →
      everyPlace opening test (awaited.count (closerOf opening)) (kinds ++ more) = true →
      everyPlace opening test (result.count (closerOf opening)) more = true := by
  intro kinds
  induction kinds with
  | nil =>
    intro awaited h hplaces
    obtain rfl := Option.some.inj h
    exact hplaces
  | cons kind kinds ih =>
    intro awaited h hplaces
    obtain ⟨awaited', hrest, hcount⟩ := pending_cons hopening h
    rw [List.cons_append, everyPlace, Bool.and_eq_true, ← hcount] at hplaces
    exact ih hrest hplaces.2

theorem pending_closer {symbol : Char} (h : Cursor.isCloser symbol = true) :
    pending stops (symbol :: awaited) (.mark symbol :: kinds) = pending stops awaited kinds := by
  rw [pending, not_isOpener_of_isCloser h, if_neg Bool.false_ne_true, if_pos h, List.head?_cons, if_pos rfl, List.tail_cons]

theorem pending_flat (h : kind.Flat) : pending [] awaited (kind :: kinds) = pending [] awaited kinds := by
  cases kind with
  | mark symbol =>
    obtain ⟨hopener, hcloser⟩ := h symbol rfl
    rw [pending, hopener, if_neg Bool.false_ne_true, hcloser, if_neg Bool.false_ne_true, if_neg]
    exact fun h => List.not_mem_nil h.2
  | _ => rfl

/-- With more open before, as much more is open behind. -/
theorem pending_add (base : List Char) : ∀ {kinds : List Token.Kind} {awaited result : List Char},
    pending [] awaited kinds = some result → pending [] (awaited ++ base) kinds = some (result ++ base) := by
  intro kinds
  induction kinds with
  | nil =>
    intro awaited result h
    obtain rfl := Option.some.inj h
    rfl
  | cons kind kinds ih =>
    intro awaited result h
    rcases kind.nesting_cases with ⟨symbol, rfl, hopener⟩ | ⟨symbol, rfl, hcloser⟩ | hflat
    · rw [pending_opener hopener] at h ⊢
      exact ih h
    · obtain ⟨tail, rfl, htail⟩ := open_of_pending_closer hcloser h
      rw [List.cons_append, pending_closer hcloser]
      exact ih htail
    · rw [pending_flat hflat]
      exact ih (pending_of_flat hflat h)

/-- What is open is closed by a mark behind properly nested tokens. -/
theorem exists_closer {closing : Char} (before : List Char) : ∀ {run : List Token} {opened : List Char},
    pending [] (opened ++ closing :: before) (run.map Token.kind) = some [] →
      ∃ inner t run', run = inner ++ t :: run' ∧ t.kind = .mark closing ∧ pending [] opened (inner.map Token.kind) = some [] ∧
        pending [] before (run'.map Token.kind) = some [] := by
  intro run
  induction run with
  | nil =>
    intro opened h
    have hnil := Option.some.inj h
    simp at hnil
  | cons t run ih =>
    intro opened h
    rw [List.map_cons] at h
    rcases t.kind.nesting_cases with ⟨symbol, hkind, hopener⟩ | ⟨symbol, hkind, hcloser⟩ | hflat
    · rw [hkind, pending_opener hopener, ← List.cons_append] at h
      obtain ⟨inner, u, run', rfl, hu, hinner, hrun'⟩ := ih h
      refine ⟨t :: inner, u, run', rfl, hu, ?_, hrun'⟩
      rw [List.map_cons, hkind, pending_opener hopener]
      exact hinner
    · rw [hkind] at h
      obtain ⟨tail, hopened, htail⟩ := open_of_pending_closer hcloser h
      cases opened with
      | nil =>
        obtain ⟨rfl, rfl⟩ := List.cons.inj hopened
        exact ⟨[], t, run, rfl, hkind, rfl, htail⟩
      | cons first opened =>
        obtain ⟨rfl, rfl⟩ := List.cons.inj hopened
        obtain ⟨inner, u, run', rfl, hu, hinner, hrun'⟩ := ih htail
        refine ⟨t :: inner, u, run', rfl, hu, ?_, hrun'⟩
        rw [List.map_cons, hkind, pending_closer hcloser]
        exact hinner
    · obtain ⟨inner, u, run', rfl, hu, hinner, hrun'⟩ := ih (pending_of_flat hflat h)
      refine ⟨t :: inner, u, run', rfl, hu, ?_, hrun'⟩
      rw [List.map_cons, pending_flat hflat]
      exact hinner

end

theorem kind_of_isMark {t : Token} {symbol : Char} (h : t.isMark symbol = true) : t.kind = .mark symbol := beq_iff_eq.mp h

theorem kind_ne_of_not_isMark {t : Token} {symbol : Char} (h : ¬t.isMark symbol = true) : t.kind ≠ .mark symbol :=
  fun hkind => h (beq_iff_eq.mpr hkind)

theorem flat_mark {symbol : Char} (hopener : Cursor.isOpener symbol = false) (hcloser : Cursor.isCloser symbol = false) :
    (Token.Kind.mark symbol).Flat := by
  rintro other ⟨⟩
  exact ⟨hopener, hcloser⟩

theorem flat_word (name : String) : (Token.Kind.word name).Flat := fun _ h => Token.Kind.noConfusion h

/-! ## Standing in a block -/

/-- The tokens stand in a block that `opening` began, outside of its inner blocks of the same marks, and `rest` behind the block.
Besides the block, `base` is open for sure, and perhaps more; the places up to the end of the block pass the test. -/
def InBlock (opening : Char) (test : List Token.Kind → Bool) (base : List Char) (rest ts : List Token) : Prop :=
  ∃ (run : List Token) (t : Token) (opened : List Char), ts = run ++ t :: rest ∧ t.kind = .mark (closerOf opening) ∧
    pending [] (opened ++ base) (run.map Token.kind) = some [] ∧ closerOf opening ∉ opened ++ base ∧
    everyPlace opening test 0 (run.map Token.kind) = true

namespace InBlock

variable {opening : Char} {test : List Token.Kind → Bool} {base : List Char} {rest ts : List Token} {t : Token}

/-- Nested tokens that pass the test and the mark that closes the block behind them. -/
theorem of_nested {run : List Token} (hrun : Nested [] (run.map Token.kind))
    (hplaces : everyPlace opening test 0 (run.map Token.kind) = true) (ht : t.kind = .mark (closerOf opening)) :
    InBlock opening test [] rest (run ++ t :: rest) :=
  ⟨run, t, [], rfl, ht, hrun, List.not_mem_nil, hplaces⟩

/-- The block has not ended. -/
theorem exists_cons (h : InBlock opening test base rest ts) : ∃ t ts', ts = t :: ts' := by
  obtain ⟨run, t, opened, rfl, -⟩ := h
  cases run with
  | nil => exact ⟨t, rest, rfl⟩
  | cons u run => exact ⟨u, run ++ t :: rest, rfl⟩

/-- Less is known to be open. -/
theorem forget (h : InBlock opening test base rest ts) : InBlock opening test [] rest ts := by
  obtain ⟨run, t, opened, hts, ht, hrun, hopened, hplaces⟩ := h
  exact ⟨run, t, opened ++ base, hts, ht, by rwa [List.append_nil], by rwa [List.append_nil], hplaces⟩

/-- The mark that closes the block in front is its end. -/
theorem eq_rest (h : InBlock opening test base rest (t :: ts)) (ht : t.kind = .mark (closerOf opening)) : ts = rest := by
  obtain ⟨run, u, opened, hts, hu, hrun, hopened, -⟩ := h
  cases run with
  | nil => exact (List.cons.inj hts).2
  | cons v run =>
    obtain ⟨rfl, -⟩ := List.cons.inj hts
    rw [List.map_cons, ht] at hrun
    obtain ⟨tail, htail, -⟩ := open_of_pending_closer (isCloser_closerOf opening) hrun
    rw [htail] at hopened
    exact absurd List.mem_cons_self hopened

/-- Any other token is one of the block, and what begins there passes the test. -/
theorem exists_place (h : InBlock opening test base rest (t :: ts)) (ht : t.kind ≠ .mark (closerOf opening)) :
    ∃ run u, ts = run ++ u :: rest ∧ u.kind = .mark (closerOf opening) ∧ test (t.kind :: run.map Token.kind) = true := by
  obtain ⟨run, u, opened, hts, hu, -, -, hplaces⟩ := h
  cases run with
  | nil =>
    obtain ⟨rfl, -⟩ := List.cons.inj hts
    exact absurd hu ht
  | cons v run =>
    obtain ⟨rfl, rfl⟩ := List.cons.inj hts
    rw [List.map_cons, everyPlace, Bool.and_eq_true] at hplaces
    exact ⟨run, u, rfl, hu, hplaces.1⟩

/-- Behind one token that is not of the pair of marks. -/
theorem advance (hopening : Cursor.isOpener opening = true) (h : InBlock opening test [] rest (t :: ts))
    (hopen : t.kind ≠ .mark opening) (hclose : t.kind ≠ .mark (closerOf opening)) : InBlock opening test [] rest ts := by
  obtain ⟨run, u, opened, hts, hu, hrun, hopened, hplaces⟩ := h
  cases run with
  | nil =>
    obtain ⟨rfl, -⟩ := List.cons.inj hts
    exact absurd hu hclose
  | cons v run =>
    obtain ⟨rfl, rfl⟩ := List.cons.inj hts
    rw [List.append_nil] at hrun hopened
    rw [List.map_cons] at hrun
    obtain ⟨awaited, hrest, hcount⟩ := pending_cons hopening hrun
    have hdepth : ∀ depth, depthBehind opening depth t.kind = depth := by
      intro depth
      rw [depthBehind, if_neg hopen, if_neg hclose]
    rw [hdepth, List.count_eq_zero.mpr hopened] at hcount
    rw [List.map_cons, everyPlace, Bool.and_eq_true, hdepth] at hplaces
    exact ⟨run, u, awaited, rfl, hu, by rwa [List.append_nil], by rw [List.append_nil]; exact List.count_eq_zero.mp hcount,
      hplaces.2⟩

/-- Behind properly opened tokens that are not of the pair of marks, at least the same is open. -/
theorem behind (hopening : Cursor.isOpener opening = true) (run : List Token) {opened : List Char}
    (h : InBlock opening test base rest (run ++ ts)) (hrun : pending [] [] (run.map Token.kind) = some opened)
    (hmarks : ∀ t ∈ run, t.kind ≠ .mark opening ∧ t.kind ≠ .mark (closerOf opening)) : InBlock opening test base rest ts := by
  obtain ⟨run', u, before, hts, hu, hpending, hbefore, hplaces⟩ := h
  obtain ⟨tail, rfl, rfl⟩ : ∃ tail, run' = run ++ tail ∧ ts = tail ++ u :: rest := by
    rcases List.append_eq_append_iff.mp hts with ⟨tail, hrun', hts⟩ | ⟨tail, hrun', hts⟩
    · exact ⟨tail, hrun', hts⟩
    · cases tail with
      | nil => exact ⟨[], by rw [hrun', List.append_nil, List.append_nil], hts.symm⟩
      | cons v tail =>
        obtain ⟨rfl, -⟩ := List.cons.inj hts
        exact absurd hu (hmarks u (by rw [hrun']; exact List.mem_append_right _ List.mem_cons_self)).2
  have hadd := pending_add (before ++ base) hrun
  rw [List.nil_append] at hadd
  rw [List.map_append, pending_append, hadd, Option.bind_some] at hpending
  rw [List.map_append] at hplaces
  have hcount := count_pending hopening hadd (List.forall_mem_map.mpr hmarks)
  have hzero := List.count_eq_zero.mpr hbefore
  rw [← hzero] at hplaces
  have htail := everyPlace_behind hopening hadd hplaces
  rw [hcount, hzero] at htail
  rw [hzero, List.count_eq_zero] at hcount
  rw [← List.append_assoc] at hpending hcount
  exact ⟨tail, u, opened ++ before, rfl, hu, hpending, hcount, htail⟩

/-- A block of any marks in front ends in the block around it. -/
theorem exists_block (hopening : Cursor.isOpener opening = true) {symbol : Char} (hsymbol : Cursor.isOpener symbol = true)
    (h : InBlock opening test base rest (t :: ts)) (ht : t.kind = .mark symbol) :
    ∃ inner u ts', ts = inner ++ u :: ts' ∧ u.kind = .mark (closerOf symbol) ∧ Nested [] (inner.map Token.kind) ∧
      InBlock opening test base rest ts' := by
  obtain ⟨run, close, opened, hts, hclose, hrun, hopened, hplaces⟩ := h
  cases run with
  | nil =>
    obtain ⟨rfl, -⟩ := List.cons.inj hts
    rw [ht] at hclose
    rw [Token.Kind.mark.inj hclose, not_isOpener_of_isCloser (isCloser_closerOf opening)] at hsymbol
    cases hsymbol
  | cons v run =>
    obtain ⟨rfl, rfl⟩ := List.cons.inj hts
    rw [List.map_cons, ht, pending_opener hsymbol] at hrun
    rw [← List.nil_append (closerOf symbol :: _)] at hrun
    obtain ⟨inner, u, run', rfl, hu, hinner, hrun'⟩ := exists_closer (opened ++ base) hrun
    refine ⟨inner, u, run' ++ close :: rest, List.append_assoc .., hu, hinner, run', close, opened, rfl, hclose, hrun', hopened, ?_⟩
    -- the block with its marks leaves open what is open
    have hblock : pending [] (opened ++ base) (t.kind :: inner.map Token.kind ++ [u.kind]) = some (opened ++ base) := by
      have hadd := pending_add (closerOf symbol :: (opened ++ base)) hinner
      rw [List.cons_append, ht, pending_opener hsymbol, pending_append, hu]
      rw [List.nil_append] at hadd
      rw [hadd, Option.bind_some, pending_closer (isCloser_closerOf symbol), pending]
    have hzero := List.count_eq_zero.mpr hopened
    rw [List.map_cons, List.map_append, List.map_cons, List.append_cons, ← List.cons_append, ← hzero] at hplaces
    have htail := everyPlace_behind hopening hblock hplaces
    rwa [hzero] at htail

/-- A flat token in front leaves open what is open. -/
theorem flat (hopening : Cursor.isOpener opening = true) (h : InBlock opening test base rest (t :: ts)) (hflat : t.kind.Flat) :
    InBlock opening test base rest ts := by
  have hpending : pending [] [] [t.kind] = some [] := pending_flat hflat
  refine behind hopening [t] h hpending (List.forall_mem_singleton.mpr ⟨?_, ?_⟩)
  · intro hkind
    exact absurd hopening (Bool.eq_false_iff.mp (hflat _ hkind).1)
  · intro hkind
    exact absurd (isCloser_closerOf opening) (Bool.eq_false_iff.mp (hflat _ hkind).2)

/-- Behind one token that is not of the pair of marks and does not close what is known to be open. -/
theorem advance_of_open (hopening : Cursor.isOpener opening = true) {closing : Char}
    (h : InBlock opening test (closing :: base) rest (t :: ts)) (hopen : t.kind ≠ .mark opening) (hclose : t.kind ≠ .mark closing) :
    InBlock opening test (closing :: base) rest ts := by
  rcases t.kind.nesting_cases with ⟨symbol, hkind, hopener⟩ | ⟨symbol, hkind, hcloser⟩ | hflat
  · have hpending : pending [] [] [t.kind] = some [closerOf symbol] := by rw [hkind, pending_opener hopener, pending]
    refine behind hopening [t] h hpending (List.forall_mem_singleton.mpr ⟨hopen, ?_⟩)
    intro hkind'
    rw [hkind, Token.Kind.mark.injEq] at hkind'
    rw [hkind', not_isOpener_of_isCloser (isCloser_closerOf opening)] at hopener
    cases hopener
  · -- it closes what was opened later
    obtain ⟨run, u, opened, hts, hu, hrun, hopened, hplaces⟩ := h
    cases run with
    | nil => simp [pending] at hrun
    | cons v run =>
      obtain ⟨rfl, rfl⟩ := List.cons.inj hts
      rw [List.map_cons, hkind] at hrun
      obtain ⟨tail, htail, hrest⟩ := open_of_pending_closer hcloser hrun
      cases opened with
      | nil => exact absurd (by rw [hkind, (List.cons.inj htail).1]) hclose
      | cons first opened =>
        obtain ⟨rfl, rfl⟩ := List.cons.inj htail
        have hne : t.kind ≠ .mark (closerOf opening) := by
          rw [hkind]
          intro heq
          rw [Token.Kind.mark.inj heq] at hopened
          exact hopened List.mem_cons_self
        rw [List.map_cons, everyPlace, Bool.and_eq_true, depthBehind, if_neg hopen, if_neg hne] at hplaces
        exact ⟨run, u, opened, rfl, hu, hrest, fun hmem => hopened (List.mem_cons_of_mem _ hmem), hplaces.2⟩
  · exact h.flat hopening hflat

/-- Behind a mark that opens another nesting, what closes it is known to be open. -/
theorem enter (hopening : Cursor.isOpener opening = true) {symbol : Char} (hsymbol : Cursor.isOpener symbol = true)
    (h : InBlock opening test base rest (t :: ts)) (ht : t.kind = .mark symbol) (hne : symbol ≠ opening) :
    ∃ before, InBlock opening test (closerOf symbol :: before) rest ts := by
  obtain ⟨run, u, opened, hts, hu, hrun, hopened, hplaces⟩ := h
  have hclose : symbol ≠ closerOf opening := by
    rintro rfl
    rw [not_isOpener_of_isCloser (isCloser_closerOf opening)] at hsymbol
    cases hsymbol
  cases run with
  | nil =>
    obtain ⟨rfl, -⟩ := List.cons.inj hts
    exact absurd (Token.Kind.mark.inj (ht.symm.trans hu)) hclose
  | cons v run =>
    obtain ⟨rfl, rfl⟩ := List.cons.inj hts
    rw [List.map_cons, ht, pending_opener hsymbol] at hrun
    rw [List.map_cons, everyPlace, Bool.and_eq_true, ht, depthBehind, if_neg (by simpa using hne),
      if_neg (by simpa using hclose)] at hplaces
    refine ⟨opened ++ base, run, u, [], rfl, hu, hrun, ?_, hplaces.2⟩
    exact List.not_mem_cons_of_ne_of_not_mem (closerOf_ne hsymbol hopening hne).symm hopened

/-- Behind a block in front. -/
theorem afterBlock (hopening : Cursor.isOpener opening = true) {symbol : Char} (hsymbol : Cursor.isOpener symbol = true)
    (h : InBlock opening test base rest (t :: ts)) (ht : t.kind = .mark symbol) :
    InBlock opening test base rest (Cursor.afterBlock symbol (closerOf symbol) 1 ts) := by
  obtain ⟨inner, u, ts', rfl, hu, hinner, hblock⟩ := h.exists_block hopening hsymbol ht
  rwa [Cursor.afterBlock_nested hsymbol hinner hu]

/-- A flat mark in front passed over. -/
theorem afterMark (hopening : Cursor.isOpener opening = true) {symbol : Char} (hsymbol : (Token.Kind.mark symbol).Flat)
    (h : InBlock opening test base rest ts) : InBlock opening test base rest (Cursor.afterMark symbol ts) := by
  obtain ⟨t, ts, rfl⟩ := h.exists_cons
  rw [Cursor.afterMark]
  split
  · rename_i ht
    refine h.flat hopening ?_
    rwa [kind_of_isMark ht]
  · exact h

/-- What a capture takes is properly nested: it ends at the latest at a mark that closes what was open before. -/
theorem exists_captured {stops : List Char} (hstops : stops.any Cursor.isOpener = false) {closing : Char}
    (hclosing : Cursor.isCloser closing = true) (ht : t.kind = .mark closing) (awaited : List Char) :
    ∀ {run : List Token} {inner : List Char}, pending [] (inner ++ awaited) (run.map Token.kind) = some [] →
      ∃ taken run', run = taken ++ run' ∧ pending [] inner (taken.map Token.kind) = some [] ∧
        (Cursor.splitCapture stops inner.length (run ++ t :: rest)).2 = run' ++ t :: rest := by
  intro run
  induction run with
  | nil =>
    intro inner h
    obtain ⟨rfl, -⟩ := List.append_eq_nil_iff.mp (Option.some.inj h)
    refine ⟨[], [], rfl, rfl, ?_⟩
    rw [List.nil_append, List.length_nil, Cursor.splitCapture_stop ht (Or.inr hclosing)]
  | cons u run ih =>
    intro inner h
    rw [List.map_cons] at h
    rw [List.cons_append]
    rcases u.kind.nesting_cases with ⟨symbol, hkind, hopener⟩ | ⟨symbol, hkind, hcloser⟩ | hflat
    · rw [hkind, pending_opener hopener, ← List.cons_append] at h
      obtain ⟨taken, run', rfl, htaken, hsplit⟩ := ih h
      refine ⟨u :: taken, run', rfl, by rw [List.map_cons, hkind, pending_opener hopener, htaken], ?_⟩
      have hdepth : Cursor.depthAfter inner.length symbol = (closerOf symbol :: inner).length := if_pos hopener
      have hstop : symbol ∉ stops := fun hmem => List.any_eq_false.mp hstops symbol hmem hopener
      rw [Cursor.splitCapture_mark hkind (fun _ => ⟨hstop, not_isCloser_of_isOpener hopener⟩), hdepth]
      exact hsplit
    · rw [hkind] at h
      obtain ⟨tail, htail, hrest⟩ := open_of_pending_closer hcloser h
      cases inner with
      | nil =>
        refine ⟨[], u :: run, rfl, rfl, ?_⟩
        rw [List.length_nil, Cursor.splitCapture_stop hkind (Or.inr hcloser)]
        rfl
      | cons first inner =>
        obtain ⟨rfl, rfl⟩ := List.cons.inj htail
        obtain ⟨taken, run', rfl, htaken, hsplit⟩ := ih hrest
        refine ⟨u :: taken, run', rfl, by rw [List.map_cons, hkind, pending_closer hcloser, htaken], ?_⟩
        have hdepth : Cursor.depthAfter (first :: inner).length first = inner.length := by
          rw [Cursor.depthAfter, not_isOpener_of_isCloser hcloser, hcloser]
          rfl
        have hopen : (first :: inner).length ≠ 0 := Nat.succ_ne_zero _
        rw [Cursor.splitCapture_mark hkind (fun hzero => absurd hzero hopen), hdepth]
        exact hsplit
    · obtain ⟨taken, run', rfl, htaken, hsplit⟩ := ih (pending_of_flat hflat h)
      have htake : pending [] inner ((u :: taken).map Token.kind) = some [] := by
        rw [List.map_cons, pending_flat hflat, htaken]
      cases hkind : u.kind with
      | mark symbol =>
        obtain ⟨hopener, hcloser⟩ := hflat symbol hkind
        by_cases hstop : inner = [] ∧ symbol ∈ stops
        · obtain ⟨rfl, hstop⟩ := hstop
          refine ⟨[], _, rfl, rfl, ?_⟩
          rw [List.length_nil, Cursor.splitCapture_stop hkind (Or.inl hstop)]
          rfl
        · refine ⟨u :: taken, run', rfl, htake, ?_⟩
          have hdepth : Cursor.depthAfter inner.length symbol = inner.length := by
            rw [Cursor.depthAfter, hopener, hcloser]
            rfl
          have hgo : inner.length = 0 → symbol ∉ stops ∧ Cursor.isCloser symbol = false :=
            fun hzero => ⟨fun hmem => hstop ⟨List.length_eq_zero_iff.mp hzero, hmem⟩, hcloser⟩
          rw [Cursor.splitCapture_mark hkind hgo, hdepth]
          exact hsplit
      | _ =>
        refine ⟨u :: taken, run', rfl, htake, ?_⟩
        rw [Cursor.splitCapture_other (by rw [hkind]; exact fun _ => Token.Kind.noConfusion)]
        exact hsplit

/-- Behind a capture. -/
theorem capture (hopening : Cursor.isOpener opening = true) {stops : List Char}
    (hstops : stops.any Cursor.isOpener = false) (h : InBlock opening test base rest ts) :
    InBlock opening test base rest (Cursor.splitCapture stops 0 ts).2 := by
  obtain ⟨run, t, opened, rfl, ht, hrun, hopened, hplaces⟩ := h
  rw [← List.nil_append (opened ++ base)] at hrun
  obtain ⟨taken, run', rfl, htaken, hsplit⟩ := exists_captured hstops (isCloser_closerOf opening) ht (opened ++ base) hrun
  have hadd := pending_add (opened ++ base) htaken
  have hzero := List.count_eq_zero.mpr hopened
  rw [List.map_append, pending_append, hadd, Option.bind_some] at hrun
  rw [List.map_append, ← hzero, ← List.nil_append (opened ++ base)] at hplaces
  have hplaces' := everyPlace_behind hopening hadd hplaces
  rw [List.nil_append, hzero] at hplaces'
  exact ⟨run', t, opened, hsplit, ht, hrun, hopened, hplaces'⟩

/-- A statement in the body of a type ends in that body. -/
theorem afterStatement (h : InBlock '{' test [] rest ts) : InBlock '{' test [] rest (Cursor.afterStatement ts) := by
  fun_induction Cursor.afterStatement ts with
  | case1 => exact h
  | case2 t ts ht => exact h.advance rfl (by rw [kind_of_isMark ht]; decide) (by rw [kind_of_isMark ht]; decide)
  | case3 => exact h
  | case4 t ts _ _ ht => exact (h.afterBlock rfl rfl (kind_of_isMark ht)).afterMark rfl (flat_mark rfl rfl)
  | case5 t ts _ _ _ ht ih => exact ih (h.afterBlock rfl rfl (kind_of_isMark ht))
  | case6 t ts _ _ _ _ ht ih => exact ih (h.afterBlock rfl rfl (kind_of_isMark ht))
  | case7 t ts _ hclose hopen _ _ ih =>
    exact ih (h.advance rfl (kind_ne_of_not_isMark hopen) (kind_ne_of_not_isMark hclose))

/-- A parameter ends in the parentheses around it. -/
theorem afterParameter (h : InBlock '{' test (')' :: base) rest ts) :
    InBlock '{' test (')' :: base) rest (Cursor.afterParameter ts) := by
  fun_induction Cursor.afterParameter ts with
  | case1 => exact h
  | case2 => exact h
  | case3 => exact h
  | case4 t ts _ _ ht => exact h.flat rfl (by rw [kind_of_isMark ht]; exact flat_mark rfl rfl)
  | case5 t ts _ _ _ ht ih => exact ih (h.afterBlock rfl rfl (kind_of_isMark ht))
  | case6 t ts _ _ _ _ ht ih => exact ih (h.afterBlock rfl rfl (kind_of_isMark ht))
  | case7 t ts _ _ _ _ _ ht ih => exact ih (h.afterBlock rfl rfl (kind_of_isMark ht))
  | case8 t ts hclose _ _ _ _ hopen ih =>
    exact ih (h.advance_of_open rfl (kind_ne_of_not_isMark hopen) (kind_ne_of_not_isMark hclose))

end InBlock

end HeaderAtlas
