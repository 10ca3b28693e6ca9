import HeaderAtlas.Proofs.Token.Cell

/-!
# A text with one blank between its tokens

`spaced` keeps the characters that the tokens of a text cover and puts one blank between each two tokens. The new text has the same
tokens, but for where they stand (`tokens_spaced`): each covers the same characters, and spacing it once more changes nothing
(`spaced_spaced`). A run of tokens has, as a text of its own, the same tokens too (`Laid.exists_run`), so that spacing the run is
cutting it out of the spaced text (`spaced_trimBy_run`).
-/

namespace HeaderAtlas

/-- The characters that a token covers. -/
def Token.span (source : List Char) (t : Token) : List Char := (source.drop t.start).take (t.stop - t.start)

/-- The characters that the tokens of a text cover, with one blank between each two tokens. -/
def spaced (source : List Char) : List Char := [' '].intercalate ((tokens source).map (Token.span source))

/-! ## One blank in front of each cell but the first -/

/-- The cells with these gaps: `gap` in front of the first one and a blank in front of each other. -/
def spread (gap : List Char) : List Cell → List Cell
  | [] => []
  | c :: cells => { c with gap := gap } :: spread [' '] cells

/-- What does not look at gaps is the same with other gaps. -/
theorem map_spread {α : Type} {f : Cell → α} (hf : ∀ c gap, f { c with gap := gap } = f c) (gap : List Char) (cells : List Cell) :
    (spread gap cells).map f = cells.map f := by
  induction cells generalizing gap with
  | nil => rfl
  | cons c cells ih => rw [spread, List.map_cons, List.map_cons, ih, hf]

/-- Spreading a run of cells goes on in the second part with a blank, or with the gap if the first part is empty. -/
theorem spread_append (gap : List Char) (front cells : List Cell) :
    ∃ gap', spread gap (front ++ cells) = spread gap front ++ spread gap' cells := by
  induction front generalizing gap with
  | nil => exact ⟨gap, rfl⟩
  | cons c front ih =>
    obtain ⟨gap', hgap⟩ := ih [' ']
    exact ⟨gap', by rw [List.cons_append, spread, spread, List.cons_append, hgap]⟩

/-- Spreading keeps the number of cells. -/
theorem length_spread (gap : List Char) (cells : List Cell) : (spread gap cells).length = cells.length := by
  induction cells generalizing gap with
  | nil => rfl
  | cons c cells ih => rw [spread, List.length_cons, List.length_cons, ih]

/-- The text of spread cells has one blank between each two of them. -/
theorem cellsText_spread (gap : List Char) {cells : List Cell} (h : cells ≠ []) :
    cellsText (spread gap cells) = gap ++ [' '].intercalate (cells.map Cell.text) := by
  induction cells generalizing gap with
  | nil => exact absurd rfl h
  | cons c cells ih =>
    rw [spread, cellsText_cons]
    cases cells with
    | nil => simp [spread, cellsText]
    | cons d cells =>
      rw [ih _ (List.cons_ne_nil d cells), List.map_cons, List.map_cons, List.map_cons, List.intercalate_cons_cons,
        List.append_assoc]

/-- Without a gap in front, the text is that of the cells joined by blanks. -/
theorem cellsText_spread_nil (cells : List Cell) : cellsText (spread [] cells) = [' '].intercalate (cells.map Cell.text) := by
  cases cells with
  | nil => rfl
  | cons c cells => exact cellsText_spread [] (List.cons_ne_nil c cells)

/-- The cells with these gaps in front of what is folded into one cell; the gaps inside are kept. -/
def respace (gap : List Char) : List Cell → List Cell
  | [] => []
  | c :: cells =>
    match compoundCell? c cells with
    | some (_, n) => { c with gap := gap } :: (cells.take n ++ respace [' '] (cells.drop n))
    | none => { c with gap := gap } :: respace [' '] cells
termination_by cells => cells.length

/-- What does not look at gaps is kept by other gaps. -/
theorem map_respace {α : Type} {f : Cell → α} (hf : ∀ c gap, f { c with gap := gap } = f c) (gap : List Char) (cells : List Cell) :
    (respace gap cells).map f = cells.map f := by
  fun_induction respace gap cells with
  | case1 => rfl
  | case2 gap c cells name n _ ih =>
    rw [List.map_cons, List.map_append, ih, ← List.map_append, List.take_append_drop, List.map_cons, hf]
  | case3 gap c cells _ ih => rw [List.map_cons, ih, List.map_cons, hf]

/-- Other gaps keep the kinds of cells. -/
theorem map_kind_respace (gap : List Char) (cells : List Cell) : (respace gap cells).map Cell.kind = cells.map Cell.kind :=
  map_respace (fun _ _ => rfl) gap cells

/-- Folding cells with other gaps is spreading the folded cells. -/
theorem foldCells_respace (gap : List Char) (cells : List Cell) : foldCells (respace gap cells) = spread gap (foldCells cells) := by
  fun_induction respace gap cells with
  | case1 => rw [foldCells, spread]
  | case2 gap c cells name n hcompound ih =>
    have hn := le_length_of_compoundCell? hcompound
    have hlength : (cells.take n).length = n := by rw [List.length_take, Nat.min_eq_left hn]
    have hkinds : (cells.take n ++ respace [' '] (cells.drop n)).map Cell.kind = cells.map Cell.kind := by
      rw [List.map_append, map_kind_respace, ← List.map_append, List.take_append_drop]
    rw [foldCells, compoundCell?_gap, compoundCell?_congr c hkinds, hcompound]
    dsimp only
    rw [List.take_left' hlength, List.drop_left' hlength, ih, foldCells, hcompound]
    dsimp only
    rw [spread]
  | case3 gap c cells hcompound ih =>
    rw [foldCells, compoundCell?_gap, compoundCell?_congr c (map_kind_respace _ _), hcompound]
    dsimp only
    rw [ih, foldCells, hcompound]
    dsimp only
    rw [spread]

/-- Cells in front may keep their gaps. -/
theorem Respaced.append_left {cells' cells : List Cell} (h : Respaced cells' cells) (front : List Cell) :
    Respaced (front ++ cells') (front ++ cells) := by
  induction front with
  | nil => exact h
  | cons c front ih => exact .cons (.inl rfl) ih

/-- Blanks between the cells are other gaps, if the first gap is its own or a blank. -/
theorem respaced_respace {gap : List Char} {cells : List Cell} (h : ∀ c, cells.head? = some c → gap = c.gap ∨ gap = [' ']) :
    Respaced (respace gap cells) cells := by
  fun_induction respace gap cells with
  | case1 => exact .nil []
  | case2 gap c cells name n _ ih =>
    have htail := (ih fun _ _ => .inr rfl).append_left (cells.take n)
    rw [List.take_append_drop] at htail
    exact .cons (h c rfl) htail
  | case3 gap c cells _ ih => exact .cons (h c rfl) (ih fun _ _ => .inr rfl)

/-- The cells without the gap in front of the first one. -/
def ungapped : List Cell → List Cell
  | [] => []
  | c :: cells => { c with gap := [] } :: cells

/-- Cells are laid out without the gap in front. -/
theorem Laid.drop_gap {cells : List Cell} {trail : List Char} (h : Laid cells trail) : Laid (ungapped cells) trail := by
  cases cells with
  | nil => exact h
  | cons c cells => exact ⟨.nil _, h.2.1, h.2.2⟩

/-- Giving cells other gaps overwrites the gap in front, so it may be left out before. -/
theorem respace_ungapped (gap : List Char) (cells : List Cell) : respace gap (ungapped cells) = respace gap cells := by
  cases cells with
  | nil => rfl
  | cons c cells =>
    rw [ungapped, respace, respace, compoundCell?_gap]

/-- Folding leaves the gap in front to the first cell. -/
theorem foldCells_ungapped (cells : List Cell) : foldCells (ungapped cells) = ungapped (foldCells cells) := by
  cases cells with
  | nil => rw [ungapped, foldCells, ungapped]
  | cons c cells =>
    rw [ungapped, foldCells, foldCells, compoundCell?_gap]
    cases compoundCell? c cells <;> rfl

/-- Cells that are laid out are laid out with one blank between each two of what they are folded into. -/
theorem Laid.respace {cells : List Cell} {trail : List Char} (h : Laid cells trail) : Laid (respace [] cells) [] := by
  rw [← respace_ungapped]
  refine h.drop_gap.respaced (respaced_respace fun c hc => .inl ?_)
  cases cells with
  | nil => cases hc
  | cons d cells =>
    obtain rfl := Option.some.inj hc
    rfl

/-! ## What tokens cover -/

/-- Tokens cover the texts of their cells. -/
theorem map_span_cellTokens {p : Place} {front : List Char} (hp : p.offset = front.length) (cells : List Cell)
    (back : List Char) : (cellTokens p cells).map (Token.span (front ++ (cellsText cells ++ back))) = cells.map Cell.text := by
  induction cells generalizing p front with
  | nil => rfl
  | cons c cells ih =>
    have hsplit : front ++ (cellsText (c :: cells) ++ back) = (front ++ c.chars) ++ (cellsText cells ++ back) := by
      rw [cellsText_cons, Cell.chars]
      simp only [List.append_assoc]
    have hspan :
        Token.span (front ++ (cellsText (c :: cells) ++ back)) (Token.at (p.after c.gap) c.kind c.text.length) = c.text := by
      rw [cellsText_cons, Token.span, Token.at]
      dsimp only
      rw [Place.offset_after, hp, Nat.add_sub_cancel_left, List.append_assoc, ← List.append_assoc front,
        ← List.length_append, List.drop_left, List.append_assoc, List.take_left]
    rw [cellTokens, List.map_cons, List.map_cons, hspan, hsplit, ih]
    rw [Place.offset_after, hp, List.length_append]

/-- The tokens of a text cover the texts of its folded cells. -/
theorem map_span_laid {cells : List Cell} {trail : List Char} (h : Laid cells trail) :
    (tokens (cellsText cells ++ trail)).map (Token.span (cellsText cells ++ trail)) = (foldCells cells).map Cell.text := by
  have hstart : Place.start.offset = ([] : List Char).length := rfl
  have hspans := map_span_cellTokens hstart (foldCells cells) trail
  rwa [List.nil_append, cellsText_foldCells, ← tokens_laid h] at hspans

/-- A spaced text is that of its folded cells, joined by blanks. -/
theorem spaced_laid {cells : List Cell} {trail : List Char} (h : Laid cells trail) :
    spaced (cellsText cells ++ trail) = [' '].intercalate ((foldCells cells).map Cell.text) := by
  rw [spaced, map_span_laid h]

/-- The tokens of a text and those of the text with one blank between them: the same kinds and the same characters. -/
theorem tokens_spaced (source : List Char) : ∃ cells trail, source = cellsText cells ++ trail ∧ Laid cells trail ∧
    tokens source = cellTokens .start (foldCells cells) ∧ spaced source = cellsText (spread [] (foldCells cells)) ∧
      tokens (spaced source) = cellTokens .start (spread [] (foldCells cells)) := by
  obtain ⟨cells, trail, rfl, hlaid⟩ := exists_laid source
  have hspaced : spaced (cellsText cells ++ trail) = cellsText (spread [] (foldCells cells)) := by
    rw [spaced_laid hlaid, cellsText_spread_nil]
  have hrespaced := tokens_laid hlaid.respace
  rw [List.append_nil, ← cellsText_foldCells, foldCells_respace, ← hspaced] at hrespaced
  exact ⟨cells, trail, rfl, hlaid, tokens_laid hlaid, hspaced, hrespaced⟩

/-- Spacing keeps the kinds of tokens. -/
theorem map_kind_spaced (source : List Char) : (tokens (spaced source)).map Token.kind = (tokens source).map Token.kind := by
  obtain ⟨cells, trail, -, -, htokens, -, hspaced⟩ := tokens_spaced source
  rw [htokens, hspaced, map_kind_cellTokens, map_kind_cellTokens, map_spread fun _ _ => rfl]

/-- The tokens of the spaced text cover what the tokens of the text cover. -/
theorem map_span_spaced (source : List Char) :
    (tokens (spaced source)).map (Token.span (spaced source)) = (tokens source).map (Token.span source) := by
  obtain ⟨cells, trail, rfl, hlaid⟩ := exists_laid source
  have hspans := map_span_laid hlaid.respace
  rwa [List.append_nil, ← cellsText_foldCells, foldCells_respace, map_spread fun _ _ => rfl, cellsText_spread_nil,
    ← spaced_laid hlaid, ← map_span_laid hlaid] at hspans

/-- Spacing a spaced text changes nothing. -/
theorem spaced_spaced (source : List Char) : spaced (spaced source) = spaced source := by
  rw [spaced, map_span_spaced, spaced]

/-! ## Blanks at the end of a run -/

/-- Quoted text that is not closed is not closed when it is cut short. -/
theorem quotedBody_of_append {quote : Char} {cs more : List Char} (h : (quotedBody quote (cs ++ more)).2.1 = []) :
    quotedBody quote cs = (cs, [], []) := by
  have happend := quotedBody_append quote cs
  by_cases hclosed : (quotedBody quote cs).2.1 = []
  · have hrest : (quotedBody quote cs).2.2 = [] :=
      Decidable.byContradiction fun hne => List.cons_ne_nil quote [] ((quotedBody_closed quote cs hne).symm.trans hclosed)
    rw [hclosed, hrest, List.append_nil, List.append_nil] at happend
    exact Prod.ext happend (Prod.ext hclosed hrest)
  · have hlonger := quotedBody_append_of_closed quote cs ((quotedBody quote cs).2.2 ++ more) hclosed
    rw [← List.append_assoc, happend] at hlonger
    rw [hlonger] at h
    exact absurd h hclosed

/-- What closes quoted text is its quote. -/
theorem quotedBody_eq_of_ne_nil (quote : Char) (cs : List Char) (h : (quotedBody quote cs).2.1 ≠ []) :
    (quotedBody quote cs).2.1 = [quote] := by
  fun_induction quotedBody quote cs with
  | case1 => exact absurd rfl h
  | case2 c hc => rw [eq_of_beq hc]
  | case3 c => exact absurd rfl h
  | case4 c d cs hc => rw [eq_of_beq hc]
  | case5 c d cs _ _ _ ih => exact ih h
  | case6 c d cs _ _ _ ih => exact ih h

/-- A lexeme ends with no blank, but for quoted text that is not closed. -/
theorem isBlank_getLast_or_open {c : Char} (hc : Text.isBlank c = false) (cs : List Char) :
    (∀ d, (lexeme c cs).text.getLast? = some d → Text.isBlank d = false) ∨
      ((c == '"' || c == '\'') = true ∧ (quotedBody c cs).2.1 = []) := by
  have hlast : ∀ {text : List Char}, NoBlank text → ∀ d, text.getLast? = some d → Text.isBlank d = false :=
    fun htext d hd => htext d (List.mem_of_getLast? hd)
  unfold lexeme
  split
  · rename_i hquote
    by_cases hclosed : (quotedBody c cs).2.1 = []
    · exact .inr ⟨hquote, hclosed⟩
    · refine .inl fun d hd => ?_
      have hend : (quotedBody c cs).2.1 = [c] := quotedBody_eq_of_ne_nil c cs hclosed
      simp only [quotedLexeme, hend] at hd
      rw [← List.cons_append, List.getLast?_concat] at hd
      rw [← Option.some.inj hd]
      exact hc
  · split
    · exact .inl (hlast (noBlank_numberLexeme hc cs))
    · split
      · exact .inl (hlast (noBlank_wordLexeme hc cs))
      · exact .inl (hlast (noBlank_markLexeme hc cs))

/-- Text in front of a text that is not all blanks keeps what it is. -/
theorem trimBy_append {p : Char → Bool} {front text : List Char} (hfront : Stops p front) (htext : Stops p text) (hne : text ≠ []) :
    Text.trimBy p (front ++ text) = front ++ Text.trimBy p text := by
  have hself : ∀ {cs : List Char}, Stops p cs → cs.dropWhile p = cs := by
    intro cs hcs
    cases cs with
    | nil => rfl
    | cons c cs => rw [List.dropWhile_cons_of_neg (by rw [hcs c rfl]; decide)]
  have hboth : Stops p (front ++ text) := by
    cases front with
    | nil => exact htext
    | cons c front => exact hfront
  have hleft : text.reverse.dropWhile p ≠ [] := by
    obtain ⟨c, cs, rfl⟩ := List.exists_cons_of_ne_nil hne
    intro hnil
    have hall := List.takeWhile_append_dropWhile (p := p) (l := (c :: cs).reverse)
    rw [hnil, List.append_nil] at hall
    have hpc : p c = true := mem_takeWhile_imp c (by rw [hall]; simp)
    rw [htext c rfl] at hpc
    cases hpc
  rw [Text.trimBy, Text.trimBy, hself hboth, hself htext, List.reverse_append, dropWhile_append_of_ne_nil hleft,
    List.reverse_append, List.reverse_reverse]

/-- A token begins with no blank. -/
theorem IsCut.stops {kind : Token.Kind} {text rest : List Char} (h : IsCut kind text rest) : Stops Text.isBlank text := by
  obtain ⟨c, cs, rfl, hgap, -⟩ := h
  intro d hd
  obtain rfl := Option.some.inj hd
  exact gap?_blank hgap

/-- A token at the end of a text either ends with no blank, or it is no word and is still a token, though another one, without the
blanks it ends with. -/
theorem IsCut.trimBy {kind : Token.Kind} {text : List Char} (h : IsCut kind text []) :
    (∀ d, text.getLast? = some d → Text.isBlank d = false) ∨
      (kind.word? = none ∧ ∃ kind' more, kind'.word? = none ∧ text = Text.trimBy Text.isBlank text ++ more ∧
        IsCut kind' (Text.trimBy Text.isBlank text) []) := by
  obtain ⟨c, cs, rfl, hgap, hlexeme⟩ := h
  have hc := gap?_blank hgap
  rw [List.append_nil] at hlexeme
  rcases isBlank_getLast_or_open hc cs with hlast | ⟨hquote, hopen⟩
  · rw [hlexeme] at hlast
    exact .inl hlast
  · obtain ⟨front, more, rfl, htrim⟩ := trimBy_cons hc cs
    have hkind : (lexeme c (front ++ more)).kind = .quoted (String.ofList (quotedBody c (front ++ more)).1) := by
      rw [lexeme, if_pos hquote, quotedLexeme]
    rw [hlexeme] at hkind
    dsimp only at hkind
    rw [htrim, hkind]
    refine .inr ⟨rfl, .quoted (String.ofList front), more, rfl, rfl, c, front, rfl, ?_, ?_⟩
    · rw [List.append_nil] at hgap
      exact gap?_eq_none_inPlaceOf hgap (.nil more)
    · rw [List.append_nil, lexeme, if_pos hquote, quotedLexeme, quotedBody_of_append hopen, List.append_nil]

/-! ## Runs of tokens -/

/-- Text of cells that begins with a token begins with no blank. -/
theorem Laid.stops {cells : List Cell} {trail : List Char} (h : Laid cells trail) (hfirst : ungapped cells = cells) :
    Stops Text.isBlank (cellsText cells) := by
  cases cells with
  | nil => exact fun _ hd => by cases hd
  | cons c cells =>
    have hgap : c.gap = [] := (congrArg Cell.gap (List.cons.inj hfirst).1).symm
    obtain ⟨d, ds, htext⟩ := List.exists_cons_of_ne_nil h.2.1.ne_nil
    have hstops := h.2.1.stops
    rw [htext] at hstops
    rw [cellsText_cons, hgap, htext]
    exact hstops

/-- What the last text is joined to does not depend on it. -/
theorem intercalate_concat (texts : List (List Char)) :
    ∃ front, ∀ text, [' '].intercalate (texts ++ [text]) = front ++ text := by
  induction texts with
  | nil => exact ⟨[], fun text => by rw [List.nil_append, List.intercalate_singleton, List.nil_append]⟩
  | cons first texts ih =>
    obtain ⟨front, hfront⟩ := ih
    refine ⟨first ++ [' '] ++ front, fun text => ?_⟩
    have hne : texts ++ [text] ≠ [] := List.append_ne_nil_of_right_ne_nil texts (List.cons_ne_nil text [])
    obtain ⟨second, others, hothers⟩ := List.exists_cons_of_ne_nil hne
    rw [List.cons_append, hothers, List.intercalate_cons_cons, ← hothers, hfront]
    simp only [List.append_assoc]

/-- A cell that is no word is left as it is. -/
theorem foldCells_cons {c : Cell} (h : c.kind.word? = none) (cells : List Cell) : foldCells (c :: cells) = c :: foldCells cells := by
  have hcompound : compoundCell? c cells = none := compoundName?_of_not_mem fun name hname => by
    rw [Token.word?, Token.at, h] at hname
    cases hname
  rw [foldCells, hcompound]

/-- A last cell that is no word is not folded. -/
theorem foldCells_concat (cells : List Cell) {c : Cell} (h : c.kind.word? = none) :
    foldCells (cells ++ [c]) = foldCells cells ++ [c] := by
  have hword : [c].head?.bind (·.kind.word?) = none := h
  rw [foldCells_append cells hword, foldCells_cons h, foldCells]

/-- The first part stops what the whole stops. -/
theorem stops_of_append {p : Char → Bool} {front back : List Char} (h : Stops p (front ++ back)) : Stops p front := by
  cases front with
  | nil => exact fun _ hd => by cases hd
  | cons c front => exact h

/-- The text of cells ends with the text of the last one. -/
theorem getLast?_cellsText {cells : List Cell} {texts : List (List Char)} {text : List Char}
    (h : cells.map Cell.text = texts ++ [text]) (hne : text ≠ []) : (cellsText cells).getLast? = text.getLast? := by
  obtain ⟨front, last, rfl, -, hlast⟩ := List.map_eq_append_iff.mp h
  obtain ⟨c, rfl, rfl⟩ := List.map_eq_singleton_iff.mp hlast
  have htext : cellsText [c] = c.gap ++ c.text := List.append_nil _
  rw [cellsText_append, htext, ← List.append_assoc, List.getLast?_append, List.getLast?_eq_some_getLast hne, Option.some_or]

/-- Cells that are respaced without a first gap have none to leave out. -/
theorem ungapped_respace (cells : List Cell) : ungapped (respace [] cells) = respace [] cells := by
  cases cells with
  | nil => rw [respace, ungapped]
  | cons c cells =>
    rw [respace]
    cases compoundCell? c cells <;> rfl

/-- Cells that are laid out with nothing in front: to leave out the blanks at the end and to space commute. -/
theorem spaced_trimBy_laid {cells : List Cell} (h : Laid cells []) (hne : cells ≠ []) (hfirst : ungapped cells = cells) :
    spaced (Text.trimBy Text.isBlank (cellsText cells)) =
      Text.trimBy Text.isBlank ([' '].intercalate ((foldCells cells).map Cell.text)) := by
  have hspaced := spaced_laid h
  have hstops := h.stops hfirst
  have hrespace : [' '].intercalate ((foldCells cells).map Cell.text) = cellsText (respace [] cells) := by
    rw [← cellsText_spread_nil, ← foldCells_respace, cellsText_foldCells]
  have hstops' := h.respace.stops (ungapped_respace cells)
  obtain ⟨front, c, rfl⟩ := (List.eq_nil_or_concat cells).resolve_left hne
  rw [List.concat_eq_append] at *
  have hcut : IsCut c.kind c.text [] := h.of_append.2.1
  have htexts : (front ++ [c]).map Cell.text = front.map Cell.text ++ [c.text] := List.map_append
  rcases hcut.trimBy with hlast | ⟨hword, kind, more, hword', hmore, hcut'⟩
  · -- nothing is left out
    have hlast' : ∀ {cells : List Cell}, cells.map Cell.text = front.map Cell.text ++ [c.text] →
        ∀ d, (cellsText cells).getLast? = some d → Text.isBlank d = false := fun hcells d hd =>
      hlast d (by rwa [getLast?_cellsText hcells hcut.ne_nil] at hd)
    rw [List.append_nil, hrespace] at hspaced
    rw [trimBy_eq_self hstops (hlast' htexts), hspaced, hrespace,
      trimBy_eq_self hstops' (hlast' ((map_respace (fun _ _ => rfl) [] _).trans htexts))]
  · -- the last token is quoted text that runs to the end; without the blanks it still does
    have hshort : Laid (front ++ [⟨c.gap, kind, Text.trimBy Text.isBlank c.text⟩]) [] :=
      h.respaced ((Respaced.short [] hmore hcut').append_left front)
    have hspaced' := spaced_laid hshort
    have htext : ∀ c : Cell, cellsText (front ++ [c]) = (cellsText front ++ c.gap) ++ c.text := by
      intro c
      have hsingle : cellsText [c] = c.gap ++ c.text := List.append_nil _
      rw [cellsText_append, hsingle, List.append_assoc]
    obtain ⟨before, hbefore⟩ := intercalate_concat ((foldCells front).map Cell.text)
    rw [← hrespace, foldCells_concat front hword, List.map_append, List.map_singleton, hbefore] at hstops'
    rw [foldCells_concat front hword', List.map_append, List.map_singleton, hbefore, List.append_nil, htext] at hspaced'
    rw [htext] at hstops ⊢
    rw [foldCells_concat front hword, List.map_append, List.map_singleton, hbefore,
      trimBy_append (stops_of_append hstops) hcut.stops hcut.ne_nil, trimBy_append (stops_of_append hstops') hcut.stops hcut.ne_nil,
      hspaced']

/-- A run of what cells are folded into is the folding of cells that are laid out as a text of their own. -/
theorem Laid.exists_run {cells front run back : List Cell} {trail : List Char} (h : Laid cells trail)
    (hcells : foldCells cells = front ++ (run ++ back)) : ∃ middle, foldCells middle = run ∧ Laid (ungapped middle) [] := by
  obtain ⟨first, others, rfl, -, hothers⟩ := foldCells_eq_append hcells
  obtain ⟨middle, last, rfl, hmiddle, -⟩ := foldCells_eq_append hothers
  refine ⟨middle, hmiddle, ?_⟩
  cases middle with
  | nil => exact .nil []
  | cons c middle => exact h.of_append.drop_gap.respaced (Respaced.refl (ungapped (c :: middle)) last)

/-- A run of tokens, cut out of its text, spaced: the same as the run of the spaced text. -/
theorem spaced_trimBy_run {cells front run back : List Cell} {trail : List Char} (h : Laid cells trail)
    (hcells : foldCells cells = front ++ (run ++ back)) (hrun : run ≠ []) :
    spaced (Text.trimBy Text.isBlank (cellsText (ungapped run))) =
      Text.trimBy Text.isBlank ([' '].intercalate (run.map Cell.text)) := by
  obtain ⟨middle, hmiddle, hlaid⟩ := h.exists_run hcells
  have hne : middle ≠ [] := by
    rintro rfl
    rw [foldCells] at hmiddle
    exact hrun hmiddle.symm
  obtain ⟨c, middle, rfl⟩ := List.exists_cons_of_ne_nil hne
  have htexts : run.map Cell.text = (foldCells (ungapped (c :: middle))).map Cell.text := by
    rw [foldCells_ungapped, hmiddle]
    cases run <;> rfl
  rw [htexts, ← spaced_trimBy_laid hlaid (List.cons_ne_nil _ _) rfl, ← hmiddle, ← foldCells_ungapped, cellsText_foldCells]

end HeaderAtlas
