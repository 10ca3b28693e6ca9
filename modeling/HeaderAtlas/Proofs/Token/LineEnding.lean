import HeaderAtlas.Proofs.Token.Filler
import HeaderAtlas.Proofs.Token.Run

/-!
# Line endings

A line may end with a newline, or with a carriage return and a newline (`crlf`). Blanks and comments are passed over either way, and
no token but quoted text reaches over the end of a line, so the tokens are the same, on the same lines (`tokens_crlf`). Only a
directive tells the two apart: a backslash continues it if the newline is the very next character. The carriage return stands between
them, the directive ends there, and its second line is read (`crlf_ends_directive`).
-/

namespace HeaderAtlas

/-! ## Texts -/

/-- The text with a carriage return in front of every newline. -/
def crlf (cs : List Char) : List Char := cs.flatMap fun c => if c == '\n' then ['\r', '\n'] else [c]

section

variable {c : Char} {cs : List Char}

theorem crlf_newline (cs : List Char) : crlf ('\n' :: cs) = '\r' :: '\n' :: crlf cs := rfl

/-- Other characters stay. -/
theorem crlf_cons (hc : c ≠ '\n') (cs : List Char) : crlf (c :: cs) = c :: crlf cs := by
  rw [crlf, List.flatMap_cons, if_neg (by simpa using hc)]
  rfl

/-- Line endings are written part by part. -/
theorem crlf_append (cs ds : List Char) : crlf (cs ++ ds) = crlf cs ++ crlf ds := List.flatMap_append

/-- A text without a newline stays. -/
theorem crlf_eq_self (h : '\n' ∉ cs) : crlf cs = cs := by
  induction cs with
  | nil => rfl
  | cons c cs ih =>
    rw [List.mem_cons, not_or] at h
    rw [crlf_cons (Ne.symm h.1), ih h.2]

/-- The first character is kept, or it is the carriage return in front of a newline. -/
theorem head?_crlf (h : (crlf cs).head? = some c) : c = '\r' ∨ (c ≠ '\n' ∧ cs.head? = some c) := by
  cases cs with
  | nil => cases h
  | cons d cs =>
    by_cases hd : d = '\n'
    · rw [hd, crlf_newline] at h
      exact Or.inl (Option.some.inj h).symm
    · rw [crlf_cons hd] at h
      obtain rfl := Option.some.inj h
      exact Or.inr ⟨hd, rfl⟩

/-- There are as many lines as before. -/
theorem count_newline_crlf (cs : List Char) : (crlf cs).count '\n' = cs.count '\n' := by
  induction cs with
  | nil => rfl
  | cons c cs ih =>
    by_cases hc : c = '\n'
    · rw [hc, crlf_newline, List.count_cons_of_ne (by decide), List.count_cons_self, List.count_cons_self, ih]
    · rw [crlf_cons hc, List.count_cons_of_ne hc, List.count_cons_of_ne hc, ih]

/-- What stands behind a lexeme may have the other line endings. -/
theorem inPlaceOf_crlf (cs : List Char) : InPlaceOf (crlf cs) cs := by
  induction cs with
  | nil => exact .nil []
  | cons c cs ih =>
    by_cases hc : c = '\n'
    · rw [hc, crlf_newline]
      exact .blank _ rfl (List.cons_ne_nil _ _)
    · rw [crlf_cons hc]
      exact ih.cons c

end

/-! ## Gaps -/

/-- A line goes on with any character but a newline. -/
theorem lineBody_cons {c : Char} (hc : c ≠ '\n') (cs : List Char) : lineBody (c :: cs) = (c :: (lineBody cs).1, (lineBody cs).2) := by
  rw [lineBody, if_neg (by simpa using hc)]

/-- A line ends with its newline, with or without a carriage return in front. -/
theorem lineBody_crlf (cs : List Char) : lineBody (crlf cs) = (crlf (lineBody cs).1, crlf (lineBody cs).2) := by
  fun_induction lineBody cs with
  | case1 => rfl
  | case2 c cs hc =>
    rw [eq_of_beq hc, crlf_newline, lineBody_cons (by decide)]
    rfl
  | case3 c cs hc r ih =>
    have hne : c ≠ '\n' := by simpa using hc
    rw [crlf_cons hne, crlf_cons hne, lineBody_cons hne, ih]

/-- A character that does not close the comment with the next one belongs to it. -/
theorem commentBody_cons {c : Char} {cs : List Char} (h : c = '*' → cs.head? ≠ some '/') :
    commentBody (c :: cs) = (c :: (commentBody cs).1, (commentBody cs).2) := by
  cases cs with
  | nil => rfl
  | cons d ds =>
    rw [commentBody, if_neg]
    simp only [Bool.and_eq_true, beq_iff_eq, not_and]
    exact fun hc hd => h hc (congrArg some hd)

/-- A comment ends at its `*/`, which line endings do not touch. -/
theorem commentBody_crlf (cs : List Char) : commentBody (crlf cs) = (crlf (commentBody cs).1, crlf (commentBody cs).2) := by
  fun_induction commentBody cs with
  | case1 => rfl
  | case2 c =>
    by_cases hc : c = '\n'
    · rw [hc]
      rfl
    · rw [crlf_cons hc]
      rfl
  | case3 c d cs hc =>
    simp only [Bool.and_eq_true, beq_iff_eq] at hc
    obtain ⟨rfl, rfl⟩ := hc
    rfl
  | case4 c d cs hc r ih =>
    by_cases hnewline : c = '\n'
    · subst hnewline
      rw [crlf_newline, crlf_newline, commentBody_cons (by simp), commentBody_cons (by simp), ih]
    · rw [crlf_cons hnewline, crlf_cons hnewline, commentBody_cons, ih]
      rintro rfl hhead
      rcases head?_crlf hhead with hreturn | ⟨-, hslash⟩
      · cases hreturn
      · obtain rfl := Option.some.inj hslash
        exact hc rfl

/-- A character that neither ends the directive nor continues it with the next one belongs to it. -/
theorem directiveBody_cons {c : Char} {cs : List Char} (hc : c ≠ '\n') (h : c = '\\' → cs.head? ≠ some '\n') :
    directiveBody (c :: cs) = (c :: (directiveBody cs).1, (directiveBody cs).2) := by
  cases cs with
  | nil => rfl
  | cons d ds =>
    rw [directiveBody, if_neg, if_neg (by simpa using hc)]
    simp only [Bool.and_eq_true, beq_iff_eq, not_and]
    exact fun hc hd => h hc (congrArg some hd)

/-- A directive ends with its newline. -/
theorem directiveBody_newline (cs : List Char) : directiveBody ('\n' :: cs) = (['\n'], cs) := by
  cases cs <;> rfl

/-- With a carriage return in front of each newline a directive ends with its line, and nothing continues it. -/
theorem directiveBody_crlf (cs : List Char) : directiveBody (crlf cs) = (crlf (lineBody cs).1, crlf (lineBody cs).2) := by
  fun_induction lineBody cs with
  | case1 => rfl
  | case2 c cs hc =>
    rw [eq_of_beq hc, crlf_newline, directiveBody_cons (by decide) (by simp), directiveBody_newline]
    rfl
  | case3 c cs hc r ih =>
    have hne : c ≠ '\n' := by simpa using hc
    rw [crlf_cons hne, crlf_cons hne, directiveBody_cons hne, ih]
    rintro - hhead
    rcases head?_crlf hhead with hreturn | ⟨hnewline, -⟩
    · cases hreturn
    · exact hnewline rfl

/-- A directive that is not continued ends with its line. -/
theorem directiveBody_eq_lineBody (cs : List Char) (h : ¬['\\', '\n'] <:+: (directiveBody cs).1) :
    directiveBody cs = lineBody cs := by
  fun_induction directiveBody cs with
  | case1 => rfl
  | case2 c =>
    rw [lineBody]
    split
    · rfl
    · rfl
  | case3 c d cs hcd r =>
    simp only [Bool.and_eq_true, beq_iff_eq] at hcd
    obtain ⟨rfl, rfl⟩ := hcd
    exact absurd ⟨[], r.1, rfl⟩ h
  | case4 c d cs _ hc => rw [lineBody, if_pos hc]
  | case5 c d cs hcd hc r ih =>
    have hr : ¬['\\', '\n'] <:+: r.1 := fun hfound => h (hfound.trans (List.suffix_cons c r.1).isInfix)
    rw [lineBody, if_neg hc, ← ih hr]

/-- What begins with a gap that is neither a newline nor a continued directive begins with the same gap. -/
theorem gap?_crlf {cs : List Char} {g : List Char × List Char} (h : gap? cs = some g) (hne : g.1 ≠ ['\n'])
    (hdirective : g.1.head? = some '#' → ¬['\\', '\n'] <:+: g.1) : gap? (crlf cs) = some (crlf g.1, crlf g.2) := by
  have happend := gap?_append h
  rcases gap?_cases h with ⟨c, rest, hblank, rfl⟩ | ⟨rest, rfl⟩ | ⟨rest, rfl⟩ | ⟨rest, rfl⟩
  · have hc : c ≠ '\n' := fun hc => hne (congrArg (· :: []) hc)
    rw [← happend, List.singleton_append, crlf_cons hc, crlf_cons hc]
    exact if_pos hblank
  · obtain ⟨tail, htail⟩ := exists_eq_cons_of_append_eq (directiveBody_append ('#' :: rest)) (directiveBody_ne_nil '#' rest)
    have hline := directiveBody_eq_lineBody ('#' :: rest) (hdirective (by rw [htail]; rfl))
    rw [← happend, directiveBody_append, hline, ← directiveBody_crlf]
    rfl
  · rw [← happend, List.cons_append, List.cons_append, lineBody_append]
    exact congrArg (fun r : List Char × List Char => some ('/' :: '/' :: r.1, r.2)) (lineBody_crlf rest)
  · rw [← happend, List.cons_append, List.cons_append, commentBody_append]
    exact congrArg (fun r : List Char × List Char => some ('/' :: '*' :: r.1, r.2)) (commentBody_crlf rest)

/-- The gaps that a text is cut into between its lexemes. -/
def gapTexts : List Char → List (List Char)
  | [] => []
  | c :: cs =>
    match _h : gap? (c :: cs) with
    | some g => g.1 :: gapTexts g.2
    | none => gapTexts (lexeme c cs).rest
termination_by cs => cs.length
decreasing_by
  · exact length_rest_gap _h
  · exact length_rest_lexeme c cs

/-- The directives of a text, each with all the lines it is continued over. -/
def directives (source : List Char) : List (List Char) := (gapTexts source).filter fun gap => gap.head? == some '#'

/-- No directive of the text is continued: in none of them does a newline stand directly behind a backslash. -/
def Uncontinued (source : List Char) : Prop := ∀ directive ∈ directives source, ¬['\\', '\n'] <:+: directive

instance (source : List Char) : Decidable (Uncontinued source) :=
  letI (directive : List Char) : Decidable (['\\', '\n'] <:+: directive) := List.instDecidableIsInfixOfDecidableEq _ _
  List.decidableBAll _ _

/-- The first gap of a text is the first of its gaps. -/
theorem gapTexts_gap {cs : List Char} {g : List Char × List Char} (h : gap? cs = some g) :
    gapTexts cs = g.1 :: gapTexts g.2 := by
  cases cs with
  | nil => cases h
  | cons c cs =>
    rw [gapTexts.eq_def]
    dsimp only
    split
    · rename_i g' hgap
      obtain rfl := Option.some.inj (hgap.symm.trans h)
      rfl
    · rename_i hgap
      cases hgap.symm.trans h

/-- A token in front has no gaps in it. -/
theorem gapTexts_isCut {kind : Token.Kind} {text rest : List Char} (h : IsCut kind text rest) :
    gapTexts (text ++ rest) = gapTexts rest := by
  obtain ⟨c, cs, rfl, hgap, hlexeme⟩ := h
  rw [List.cons_append, gapTexts.eq_def]
  dsimp only
  split
  · rename_i g hgap'
    cases hgap.symm.trans hgap'
  · rw [hlexeme]

/-- Where no directive is continued, none of the later ones is. -/
theorem Uncontinued.of_suffix {cs rest : List Char} (h : Uncontinued cs) (hs : gapTexts rest <:+ gapTexts cs) : Uncontinued rest :=
  fun directive hmem => h directive (hs.filter _ |>.subset hmem)

/-- A gap is still cut into gaps: a newline into two blanks, everything else into itself. -/
theorem gaps_crlf_of_gap? {cs : List Char} {g : List Char × List Char} (h : gap? cs = some g)
    (hdirective : g.1.head? = some '#' → ¬['\\', '\n'] <:+: g.1) : Gaps (crlf g.1) (crlf g.2) := by
  by_cases hne : g.1 = ['\n']
  · rw [hne]
    exact (Gaps.single rfl _).append (Gaps.single rfl _)
  · have hgap := gap?_crlf h hne hdirective
    rw [← gap?_append h, crlf_append] at hgap
    have hcons : Gaps (crlf g.1 ++ []) (crlf g.2) := .cons hgap (.nil _)
    rwa [List.append_nil] at hcons

/-- Gaps with other line endings are gaps, as long as no directive in them is continued. -/
theorem gaps_crlf {gaps rest : List Char} (h : Gaps gaps rest) (huncontinued : Uncontinued (gaps ++ rest)) :
    Gaps (crlf gaps) (crlf rest) ∧ Uncontinued rest := by
  induction h with
  | nil rest => exact ⟨.nil _, huncontinued⟩
  | @cons gap more rest hgap _ ih =>
    have htexts := gapTexts_gap hgap
    rw [List.append_assoc] at huncontinued
    obtain ⟨hmore, hrest⟩ := ih (huncontinued.of_suffix (htexts ▸ List.suffix_cons _ _))
    have hfirst := gaps_crlf_of_gap? hgap fun hhead => huncontinued gap (by
      rw [directives, htexts]
      exact List.mem_filter.mpr ⟨List.mem_cons_self, beq_iff_eq.mpr hhead⟩)
    rw [crlf_append] at hfirst ⊢
    exact ⟨hfirst.append hmore, hrest⟩

/-! ## Cells -/

/-- The cell in the text with the other line endings. -/
def Cell.crlf (c : Cell) : Cell := ⟨HeaderAtlas.crlf c.gap, c.kind, HeaderAtlas.crlf c.text⟩

/-- The text of cells with other line endings is the text with other line endings. -/
theorem cellsText_crlf (cells : List Cell) : cellsText (cells.map Cell.crlf) = crlf (cellsText cells) := by
  induction cells with
  | nil => rfl
  | cons c cells ih =>
    rw [List.map_cons, cellsText_cons, cellsText_cons, ih, crlf_append, crlf_append]
    rfl

/-- Cells that are laid out are laid out with the other line endings too, if no line ends inside the text of one of them. -/
theorem laid_crlf {cells : List Cell} {trail : List Char} (h : Laid cells trail) (htext : ∀ c ∈ cells, '\n' ∉ c.text)
    (huncontinued : Uncontinued (cellsText cells ++ trail)) : Laid (cells.map Cell.crlf) (crlf trail) := by
  induction cells with
  | nil =>
    rw [cellsText, List.flatMap_nil, List.nil_append, ← List.append_nil trail] at huncontinued
    exact (gaps_crlf h huncontinued).1
  | cons c cells ih =>
    obtain ⟨hgap, hcut, hcells⟩ := h
    rw [cellsText_cons, List.append_assoc, List.append_assoc] at huncontinued
    obtain ⟨hgaps, hbehind⟩ := gaps_crlf hgap huncontinued
    have hself : crlf c.text = c.text := crlf_eq_self (htext c List.mem_cons_self)
    refine ⟨?_, ?_, ih hcells (fun d hd => htext d (List.mem_cons_of_mem c hd)) ?_⟩
    · rwa [crlf_append, crlf_append, ← cellsText_crlf] at hgaps
    · have hcut' := hcut.inPlaceOf (inPlaceOf_crlf _)
      rw [crlf_append, ← cellsText_crlf] at hcut'
      rwa [Cell.crlf, hself]
    · exact hbehind.of_suffix (gapTexts_isCut hcut ▸ List.suffix_refl _)

/-- Folding looks at kinds, which line endings leave. -/
theorem foldCells_crlf (cells : List Cell) : foldCells (cells.map Cell.crlf) = (foldCells cells).map Cell.crlf := by
  have hcompound : ∀ (c : Cell) (cells : List Cell), compoundCell? c.crlf (cells.map Cell.crlf) = compoundCell? c cells :=
    fun c cells => compoundCell?_congr c (by rw [List.map_map]; rfl)
  fun_induction foldCells cells with
  | case1 => rw [List.map_nil, foldCells]
  | case2 c cells name n hc ih =>
    rw [List.map_cons, foldCells, hcompound, hc]
    dsimp only
    rw [← List.map_take, ← List.map_drop, ih, cellsText_crlf, List.map_cons, Cell.crlf, Cell.crlf, crlf_append]
  | case3 c cells hc ih =>
    rw [List.map_cons, foldCells, hcompound, hc]
    dsimp only
    rw [ih, List.map_cons]

/-! ## Lines -/

/-- What a token says, and the line it stands on. -/
def Token.onLine (t : Token) : Token.Kind × Nat := (t.kind, t.location.line)

/-- A text moves on by as many lines as it has newlines. -/
theorem line_after (p : Place) (cs : List Char) : (p.after cs).location.line = p.location.line + cs.count '\n' := by
  induction cs generalizing p with
  | nil => rfl
  | cons c cs ih =>
    rw [Place.after, List.foldl_cons]
    refine (ih (p.next c)).trans ?_
    by_cases hc : c = '\n'
    · subst hc
      rw [List.count_cons_self, Nat.add_comm (cs.count '\n'), ← Nat.add_assoc]
      rfl
    · rw [List.count_cons_of_ne hc, Place.next, Location.next, if_neg (by simpa using hc)]

/-- Other line endings move on by as many lines. -/
theorem line_after_crlf {p p' : Place} (h : p'.location.line = p.location.line) (cs : List Char) :
    (p'.after (crlf cs)).location.line = (p.after cs).location.line := by
  rw [line_after, line_after, count_newline_crlf, h]

/-- Tokens stay on their lines. -/
theorem map_onLine_cellTokens_crlf {p p' : Place} (h : p'.location.line = p.location.line) (cells : List Cell) :
    (cellTokens p' (cells.map Cell.crlf)).map Token.onLine = (cellTokens p cells).map Token.onLine := by
  induction cells generalizing p p' with
  | nil => rfl
  | cons c cells ih =>
    have hchars : c.crlf.chars = crlf c.chars := (crlf_append c.gap c.text).symm
    rw [List.map_cons, cellTokens, cellTokens, List.map_cons, List.map_cons, hchars, ih (line_after_crlf h c.chars)]
    exact congrArg (fun line => (c.kind, line) :: _) (line_after_crlf h c.gap)

/-! ## Tokens -/

/-- The token is quoted text. -/
def Token.Kind.isQuoted : Token.Kind → Bool
  | .quoted _ => true
  | _ => false

/-- No line ends inside a quoted text. -/
def QuotedOnLines (source : List Char) : Prop := ∀ t ∈ tokens source, t.kind.isQuoted = true → '\n' ∉ t.span source

instance (source : List Char) : Decidable (QuotedOnLines source) := List.decidableBAll _ _

/-- Only quoted text can have a blank in it. -/
theorem IsCut.noBlank {kind : Token.Kind} {text rest : List Char} (h : IsCut kind text rest) :
    kind.isQuoted = true ∨ NoBlank text := by
  obtain ⟨c, cs, rfl, hgap, hlexeme⟩ := h
  have hc := gap?_blank hgap
  have hkind : (lexeme c (cs ++ rest)).kind = kind := by rw [hlexeme]
  have htext : (lexeme c (cs ++ rest)).text = c :: cs := by rw [hlexeme]
  rw [← hkind, ← htext]
  unfold lexeme
  split
  · exact Or.inl rfl
  · split
    · exact Or.inr (noBlank_numberLexeme hc _)
    · split
      · exact Or.inr (noBlank_wordLexeme hc _)
      · exact Or.inr (noBlank_markLexeme hc _)

/-- A cell that is no word is a token of the text. -/
theorem Laid.exists_token {front back : List Cell} {c : Cell} {trail : List Char} (h : Laid (front ++ c :: back) trail)
    (hword : c.kind.word? = none) :
    ∃ t ∈ tokens (cellsText (front ++ c :: back) ++ trail), t.kind = c.kind ∧
      t.span (cellsText (front ++ c :: back) ++ trail) = c.text := by
  have hhead : (c :: back).head?.bind (·.kind.word?) = none := hword
  have hfold : foldCells (front ++ c :: back) = foldCells front ++ c :: foldCells back := by
    rw [foldCells_append front hhead, foldCells_cons hword]
  have hsource : cellsText (front ++ c :: back) ++ trail = cellsText front ++ (cellsText [c] ++ (cellsText back ++ trail)) := by
    rw [List.append_cons, cellsText_append, cellsText_append, List.append_assoc, List.append_assoc]
  have hoffset : (Place.start.after (cellsText front)).offset = (cellsText front).length := by
    rw [Place.offset_after]
    exact Nat.zero_add _
  have hspan := runSpan_cellTokens hoffset (List.cons_ne_nil c []) (cellsText back ++ trail)
  refine ⟨Token.at ((Place.start.after (cellsText front)).after c.gap) c.kind c.text.length, ?_, rfl, ?_⟩
  · rw [tokens_laid h, hfold, cellTokens_append, cellsText_foldCells, cellTokens]
    exact List.mem_append_right _ List.mem_cons_self
  · rw [hsource]
    exact hspan.trans (List.append_nil c.text)

/-- No line ends inside a cell if none ends inside a quoted text. -/
theorem Laid.newline_not_mem {cells : List Cell} {trail : List Char} (h : Laid cells trail)
    (hquoted : QuotedOnLines (cellsText cells ++ trail)) : ∀ c ∈ cells, '\n' ∉ c.text := by
  intro c hc
  obtain ⟨front, back, rfl⟩ := List.append_of_mem hc
  rcases h.of_append.2.1.noBlank with hkind | hblank
  · have hword : c.kind.word? = none := by
      cases hcell : c.kind with
      | word => rw [hcell] at hkind; cases hkind
      | int | float | quoted | mark | shiftLeft | eof => rfl
    obtain ⟨t, ht, htkind, hspan⟩ := h.exists_token hword
    rw [← hspan]
    exact hquoted t ht (htkind ▸ hkind)
  · intro hnewline
    exact Bool.false_ne_true ((hblank _ hnewline).symm.trans rfl)

/-- The line endings of a text do not matter if no quoted text spans lines and no directive is continued. -/
theorem tokens_crlf {source : List Char} (hquoted : QuotedOnLines source) (huncontinued : Uncontinued source) :
    (tokensWithEnd (crlf source)).map Token.onLine = (tokensWithEnd source).map Token.onLine := by
  have hend : (endToken (Place.start.after (crlf source))).onLine = (endToken (Place.start.after source)).onLine :=
    congrArg (Token.Kind.eof, ·) (line_after_crlf rfl source)
  rw [tokensWithEnd, tokensWithEnd, List.map_append, List.map_append, List.map_singleton, List.map_singleton, hend]
  obtain ⟨cells, trail, rfl, hlaid⟩ := exists_laid source
  have hcrlf := laid_crlf hlaid (hlaid.newline_not_mem hquoted) huncontinued
  rw [tokens_laid hlaid, crlf_append, ← cellsText_crlf, tokens_laid hcrlf, foldCells_crlf, map_onLine_cellTokens_crlf rfl]

/-- Lines that end in a directive, in a comment, between two words that are folded, in a comment behind a backslash, between two
marks that would be a shift and behind the letter of an exponent. -/
theorem tokens_crlf_at_every_gap :
    let source := "#if A\n/* \n*/unsigned// \\\nint x<\n<1e\n+'q\\'';\n".toList
    QuotedOnLines source ∧ Uncontinued source ∧ directives source = ["#if A\n".toList] ∧
      (tokensWithEnd (crlf source)).map Token.onLine =
        [(.word "uint32_t", 3), (.word "x", 4), (.mark '<', 4), (.mark '<', 5), (.int 1, 5), (.word "e", 5), (.mark '+', 6),
          (.quoted "q\\'", 6), (.mark ';', 6), (.eof, 7)] := by
  have hread :
      let source := "#if A\n/* \n*/unsigned// \\\nint x<\n<1e\n+'q\\'';\n".toList
      QuotedOnLines source ∧ Uncontinued source ∧ directives source = ["#if A\n".toList] ∧
        (tokensWithEnd source).map Token.onLine =
          [(.word "uint32_t", 3), (.word "x", 4), (.mark '<', 4), (.mark '<', 5), (.int 1, 5), (.word "e", 5), (.mark '+', 6),
            (.quoted "q\\'", 6), (.mark ';', 6), (.eof, 7)] := by
    decide +kernel
  obtain ⟨hquoted, huncontinued, hdirectives, htokens⟩ := hread
  exact ⟨hquoted, huncontinued, hdirectives, (tokens_crlf hquoted huncontinued).trans htokens⟩

/-- A directive that is continued over the declaration of `x` hides it, but not behind a carriage return. -/
theorem crlf_ends_directive :
    let source := "#define A \\\nint x;\n".toList
    '\r' ∉ source ∧ QuotedOnLines source ∧ (tokensWithEnd source).map Token.onLine = [(.eof, 3)] ∧
      (tokensWithEnd (crlf source)).map Token.onLine = [(.word "int", 2), (.word "x", 2), (.mark ';', 2), (.eof, 3)] := by
  decide +kernel

end HeaderAtlas
