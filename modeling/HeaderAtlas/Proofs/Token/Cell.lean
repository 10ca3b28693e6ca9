import HeaderAtlas.Proofs.Token.Lookahead

/-!
# Texts as tokens with gaps between them

Every text is a run of cells with gaps behind the last one (`exists_laid`). A cell is a token as it stands in the text: the gaps
in front of it and the characters it covers. Its cells say what the tokens of a text are (`tokensFrom_laid`, `tokens_laid`), and
cells can be laid out anew: in place of the gaps between two tokens a blank will do, and the run may end behind any token
(`Laid.respaced`).
-/

namespace HeaderAtlas

/-! ## Cells -/

/-- A token as it stands in a text: what stands in front of it, and the characters it covers. -/
structure Cell where
  gap : List Char
  kind : Token.Kind
  text : List Char

/-- The characters of a cell. -/
def Cell.chars (c : Cell) : List Char := c.gap ++ c.text

/-- The text that cells make up. -/
def cellsText (cells : List Cell) : List Char := cells.flatMap Cell.chars

/-- The text of cells begins with the gap of the first. -/
theorem cellsText_cons (c : Cell) (cells : List Cell) : cellsText (c :: cells) = c.gap ++ (c.text ++ cellsText cells) :=
  List.append_assoc _ _ _

/-- The text of more cells goes on behind that of the first ones. -/
theorem cellsText_append (cells more : List Cell) : cellsText (cells ++ more) = cellsText cells ++ cellsText more :=
  List.flatMap_append

/-- The tokens of cells that begin at a place. -/
def cellTokens (p : Place) : List Cell → List Token
  | [] => []
  | c :: cells => Token.at (p.after c.gap) c.kind c.text.length :: cellTokens (p.after c.chars) cells

/-- The tokens of more cells begin where the text of the first ones ends. -/
theorem cellTokens_append (p : Place) (cells more : List Cell) :
    cellTokens p (cells ++ more) = cellTokens p cells ++ cellTokens (p.after (cellsText cells)) more := by
  induction cells generalizing p with
  | nil => rfl
  | cons c cells ih =>
    rw [List.cons_append, cellTokens, cellTokens, ih, ← Place.after_append]
    rfl

/-- There is one token for each cell. -/
theorem length_cellTokens (p : Place) (cells : List Cell) : (cellTokens p cells).length = cells.length := by
  induction cells generalizing p with
  | nil => rfl
  | cons c cells ih => rw [cellTokens, List.length_cons, List.length_cons, ih]

/-- Where the tokens of cells are split, the cells are split at the same place. -/
theorem cellTokens_eq_append {p : Place} {cells : List Cell} {front back : List Token} (h : cellTokens p cells = front ++ back) :
    ∃ first last, cells = first ++ last ∧ first.length = front.length ∧ front = cellTokens p first ∧
      back = cellTokens (p.after (cellsText first)) last := by
  have hlength : (cells.take front.length).length = front.length := by
    have hcells := length_cellTokens p cells
    rw [h, List.length_append] at hcells
    rw [List.length_take]
    omega
  refine ⟨cells.take front.length, cells.drop front.length, (List.take_append_drop ..).symm, hlength, ?_⟩
  have hsplit := cellTokens_append p (cells.take front.length) (cells.drop front.length)
  rw [List.take_append_drop, h] at hsplit
  exact List.append_inj hsplit (by rw [length_cellTokens, hlength])

/-- A token has the kind of its cell. -/
theorem map_kind_cellTokens (p : Place) (cells : List Cell) : (cellTokens p cells).map Token.kind = cells.map Cell.kind := by
  induction cells generalizing p with
  | nil => rfl
  | cons c cells ih =>
    rw [cellTokens, List.map_cons, List.map_cons, ih]
    rfl

/-- The last of the tokens ends where the text of the cells ends. -/
theorem stop_getLast?_cellTokens (p : Place) {cells : List Cell} (h : cells ≠ []) :
    (cellTokens p cells).getLast?.map Token.stop = some (p.offset + (cellsText cells).length) := by
  obtain ⟨front, c, rfl⟩ := (List.eq_nil_or_concat cells).resolve_left h
  rw [List.concat_eq_append, cellTokens_append, List.getLast?_append, cellTokens, cellTokens, List.getLast?_singleton,
    cellsText_append, cellsText_cons]
  simp [Token.at, cellsText]
  omega

/-! ## Cells that are laid out -/

/-- In front of `rest`, the characters are cut into gaps. -/
inductive Gaps : List Char → List Char → Prop where
  | nil (rest : List Char) : Gaps [] rest
  | cons {gap more rest : List Char} (hgap : gap? (gap ++ (more ++ rest)) = some (gap, more ++ rest)) (h : Gaps more rest) :
      Gaps (gap ++ more) rest

/-- One blank is a gap, whatever follows. -/
theorem Gaps.single {c : Char} (hc : Text.isBlank c = true) (rest : List Char) : Gaps [c] rest := by
  have hgap : gap? ([c] ++ ([] ++ rest)) = some ([c], [] ++ rest) := if_pos hc
  exact .cons hgap (.nil rest)

theorem Gaps.blank (rest : List Char) : Gaps [' '] rest := .single rfl rest

/-- Gaps behind gaps are gaps. -/
theorem Gaps.append {gaps more rest : List Char} (h : Gaps gaps (more ++ rest)) (h' : Gaps more rest) : Gaps (gaps ++ more) rest := by
  generalize hbehind : more ++ rest = behind at h
  induction h with
  | nil => exact h'
  | cons hgap _ ih =>
    subst hbehind
    rw [List.append_assoc]
    refine .cons ?_ (ih rfl)
    rwa [List.append_assoc]

/-- Gaps that something stands behind are closed, and gaps in front of anything. -/
theorem Gaps.closed {gaps rest : List Char} (h : Gaps gaps rest) (hne : rest ≠ []) (rest' : List Char) : Gaps gaps rest' := by
  induction h with
  | nil => exact .nil rest'
  | cons hgap _ ih => exact .cons (gap?_closed hgap (by simp [hne]) _) (ih hne)

/-- Gaps give no tokens and move the place. -/
theorem tokensFrom_gaps {gaps rest : List Char} (h : Gaps gaps rest) (p : Place) :
    tokensFrom p (gaps ++ rest) = tokensFrom (p.after gaps) rest := by
  induction h generalizing p with
  | nil => rfl
  | cons hgap _ ih => rw [List.append_assoc, tokensFrom_gap hgap, ih, Place.after_append]

/-- In front of `rest`, the characters are cut off as a token of this kind. -/
def IsCut (kind : Token.Kind) (text rest : List Char) : Prop :=
  ∃ c cs, text = c :: cs ∧ gap? (c :: (cs ++ rest)) = none ∧ lexeme c (cs ++ rest) = ⟨kind, c :: cs, rest⟩

/-- A token covers a character. -/
theorem IsCut.ne_nil {kind : Token.Kind} {text rest : List Char} (h : IsCut kind text rest) : text ≠ [] := by
  obtain ⟨c, cs, rfl, -, -⟩ := h
  exact List.cons_ne_nil c cs

/-- A token is cut off in the same way in front of what may stand in place of the rest. -/
theorem IsCut.inPlaceOf {kind : Token.Kind} {text rest rest' : List Char} (h : IsCut kind text rest)
    (hrest : InPlaceOf rest' rest) : IsCut kind text rest' := by
  obtain ⟨c, cs, rfl, hgap, hlexeme⟩ := h
  refine ⟨c, cs, rfl, gap?_eq_none_inPlaceOf hgap hrest, ?_⟩
  have htext : (lexeme c (cs ++ rest)).text = c :: cs := by rw [hlexeme]
  have hstop : InPlaceOf rest' (lexeme c (cs ++ rest)).rest := by rwa [hlexeme]
  rw [lexeme_inPlaceOf htext hstop, hlexeme]

/-- What is cut off is the first token, and the others are those of the rest. -/
theorem tokensFrom_isCut {kind : Token.Kind} {text rest : List Char} (h : IsCut kind text rest) (p : Place) :
    tokensFrom p (text ++ rest) = Token.at p kind text.length :: tokensFrom (p.after text) rest := by
  obtain ⟨c, cs, rfl, hgap, hlexeme⟩ := h
  rw [List.cons_append, tokensFrom_lexeme hgap, hlexeme]

/-- The text of the cells, with `trail` behind it, is cut into these cells, and `trail` into gaps. -/
def Laid : List Cell → List Char → Prop
  | [], trail => Gaps trail []
  | c :: cells, trail =>
    Gaps c.gap (c.text ++ (cellsText cells ++ trail)) ∧ IsCut c.kind c.text (cellsText cells ++ trail) ∧ Laid cells trail

/-- The tokens of a text are those of its cells, before compounds are folded. -/
theorem tokensFrom_laid {cells : List Cell} {trail : List Char} (h : Laid cells trail) (p : Place) :
    tokensFrom p (cellsText cells ++ trail) = cellTokens p cells := by
  induction cells generalizing p with
  | nil =>
    have htrail := tokensFrom_gaps h p
    rw [List.append_nil, tokensFrom_nil] at htrail
    exact htrail
  | cons c cells ih =>
    obtain ⟨hgap, hcut, hcells⟩ := h
    rw [cellsText_cons, List.append_assoc, List.append_assoc, tokensFrom_gaps hgap, tokensFrom_isCut hcut, ih hcells, cellTokens,
      Cell.chars, Place.after_append]

/-- Every text is laid out. -/
theorem exists_laid (cs : List Char) : ∃ cells trail, cs = cellsText cells ++ trail ∧ Laid cells trail := by
  -- the place does not matter; the induction follows the cuts
  induction Place.start, cs using tokensFrom.induct with
  | case1 => exact ⟨[], [], rfl, .nil []⟩
  | case2 p c cs g hgap ih =>
    obtain ⟨cells, trail, hrest, hlaid⟩ := ih
    have hsplit := gap?_append hgap
    rw [← hsplit] at hgap ⊢
    cases cells with
    | nil =>
      obtain rfl : g.2 = trail := hrest
      refine ⟨[], g.1 ++ g.2, rfl, .cons ?_ hlaid⟩
      rwa [List.append_nil]
    | cons c cells =>
      obtain ⟨hgaps, hcut, hcells⟩ := hlaid
      have hrest' : g.2 = c.gap ++ (c.text ++ (cellsText cells ++ trail)) := by
        rw [hrest, cellsText_cons, List.append_assoc, List.append_assoc]
      refine ⟨{ c with gap := g.1 ++ c.gap } :: cells, trail, ?_, .cons ?_ hgaps, hcut, hcells⟩
      · rw [hrest', cellsText_cons, List.append_assoc, List.append_assoc, List.append_assoc]
      · rw [← hrest']
        exact hgap
  | case3 p c cs hgap l ih =>
    obtain ⟨cells, trail, hrest, hlaid⟩ := ih
    have hsplit : l.text ++ l.rest = c :: cs := lexeme_append c cs
    obtain ⟨tail, htail⟩ := exists_eq_cons_of_append_eq hsplit (lexeme_text_ne_nil c cs)
    have hcs : tail ++ l.rest = cs := by
      rw [htail] at hsplit
      exact (List.cons.inj hsplit).2
    refine ⟨⟨[], l.kind, l.text⟩ :: cells, trail, ?_, .nil _, ⟨c, tail, htail, ?_, ?_⟩, hlaid⟩
    · rw [cellsText_cons, List.nil_append, List.append_assoc, ← hrest, hsplit]
    · rwa [← hrest, hcs]
    · rw [← hrest, hcs, ← htail]

/-- The last cells of a text are laid out. -/
theorem Laid.of_append {front cells : List Cell} {trail : List Char} (h : Laid (front ++ cells) trail) : Laid cells trail := by
  induction front with
  | nil => exact h
  | cons c front ih => exact ih h.2.2

/-! ## Other gaps -/

/-- A text may still stand in place of another with one character in front of both. -/
theorem InPlaceOf.cons {rest' rest : List Char} (h : InPlaceOf rest' rest) (c : Char) : InPlaceOf (c :: rest') (c :: rest) := by
  cases h with
  | nil rest => exact .single c rest
  | blank more hb _ => exact .secondBlank c more _ hb
  | single d rest => exact .two c d [] rest
  | secondBlank d more rest hb => exact .two c d _ rest
  | two d e more rest => exact .two c d _ _

/-- A text may still stand in place of another with the same text in front of both. -/
theorem InPlaceOf.append_left {rest' rest : List Char} (h : InPlaceOf rest' rest) (front : List Char) :
    InPlaceOf (front ++ rest') (front ++ rest) := by
  induction front with
  | nil => exact h
  | cons c front ih => exact ih.cons c

/-- The beginning of a text may stand in its place. -/
theorem InPlaceOf.of_append (text rest : List Char) : InPlaceOf text (text ++ rest) := by
  have h := (InPlaceOf.nil rest).append_left text
  rwa [List.append_nil] at h

/-- The cells with the gaps kept or a blank put in their place, up to some cell. Of the last one the text may be cut short, if what
is left is a token. -/
inductive Respaced : List Cell → List Cell → Prop where
  | nil (cells : List Cell) : Respaced [] cells
  | cons {c : Cell} {gap : List Char} {cells' cells : List Cell} (hgap : gap = c.gap ∨ gap = [' ']) (h : Respaced cells' cells) :
      Respaced ({ c with gap := gap } :: cells') (c :: cells)
  | short {c : Cell} {kind : Token.Kind} {text more : List Char} (cells : List Cell) (htext : c.text = text ++ more)
      (hcut : IsCut kind text []) : Respaced [⟨c.gap, kind, text⟩] (c :: cells)

/-- A run of cells may end early, with its gaps as they are. -/
theorem Respaced.refl (cells more : List Cell) : Respaced cells (cells ++ more) := by
  induction cells with
  | nil => exact .nil more
  | cons c cells ih => exact .cons (.inl rfl) ih

/-- The text of cells with other gaps may stand in place of the text with its own. -/
theorem Respaced.inPlaceOf {cells' cells : List Cell} (h : Respaced cells' cells) {trail : List Char} (hlaid : Laid cells trail) :
    InPlaceOf (cellsText cells') (cellsText cells ++ trail) := by
  induction h with
  | nil => exact .nil _
  | @cons c gap cells' cells hgap _ ih =>
    obtain ⟨-, hcut, hcells⟩ := hlaid
    rw [cellsText_cons, cellsText_cons, List.append_assoc, List.append_assoc]
    rcases hgap with rfl | rfl
    · exact ((ih hcells).append_left c.text).append_left c.gap
    · exact .blank _ rfl (by simp [hcut.ne_nil])
  | @short c kind text more cells htext _ =>
    rw [cellsText_cons, cellsText_cons, htext, List.append_assoc, List.append_assoc, List.append_assoc]
    have hnil : cellsText [] = [] := rfl
    rw [hnil, List.append_nil]
    exact (InPlaceOf.of_append text _).append_left c.gap

/-- Cells that are laid out are laid out with other gaps too. -/
theorem Laid.respaced {cells' cells : List Cell} {trail : List Char} (hlaid : Laid cells trail) (h : Respaced cells' cells) :
    Laid cells' [] := by
  induction h with
  | nil => exact .nil []
  | @cons c gap cells' cells hgap h ih =>
    obtain ⟨hgaps, hcut, hcells⟩ := hlaid
    refine ⟨?_, ?_, ih hcells⟩
    · rcases hgap with rfl | rfl
      · exact hgaps.closed (by simp [hcut.ne_nil]) _
      · exact .blank _
    · rw [List.append_nil]
      exact hcut.inPlaceOf (h.inPlaceOf hcells)
  | short cells htext hcut =>
    obtain ⟨hgaps, hcut', -⟩ := hlaid
    exact ⟨hgaps.closed (by simp [hcut'.ne_nil]) _, hcut, .nil []⟩

/-! ## Folded cells -/

/-- The words at the head of cells that are one primitive type. -/
def compoundCell? (c : Cell) (cells : List Cell) : Option (String × Nat) :=
  compoundAt? (Token.at .start c.kind 0) (cells.map fun c => Token.at .start c.kind 0)

/-- The cells with every primitive type of several words in one cell. -/
def foldCells : List Cell → List Cell
  | [] => []
  | c :: cells =>
    match compoundCell? c cells with
    | some (name, n) => ⟨c.gap, .word name, c.text ++ cellsText (cells.take n)⟩ :: foldCells (cells.drop n)
    | none => c :: foldCells cells
termination_by cells => cells.length

/-- A compound folds cells that are there. -/
theorem le_length_of_compoundCell? {c : Cell} {cells : List Cell} {name : String} {n : Nat}
    (h : compoundCell? c cells = some (name, n)) : n ≤ cells.length := by
  have hle := le_length_of_compoundAt? h
  rwa [List.length_map] at hle

/-- The gap in front of a compound is no part of it. -/
theorem compoundCell?_gap (c : Cell) (gap : List Char) (cells : List Cell) :
    compoundCell? { c with gap := gap } cells = compoundCell? c cells := rfl

/-- Only the kinds of the cells matter. -/
theorem compoundCell?_congr (c : Cell) {cells cells' : List Cell} (h : cells'.map Cell.kind = cells.map Cell.kind) :
    compoundCell? c cells' = compoundCell? c cells := by
  have hmap : ∀ cells : List Cell, cells.map (fun c => Token.at .start c.kind 0) =
      (cells.map Cell.kind).map fun kind => Token.at .start kind 0 := fun cells => by rw [List.map_map]; rfl
  rw [compoundCell?, compoundCell?, hmap, hmap, h]

/-- Cells are folded where their tokens are. -/
theorem compoundAt?_cellTokens (c : Cell) (cells : List Cell) (p : Place) (t : Token) (ht : t.kind = c.kind) :
    compoundAt? t (cellTokens p cells) = compoundCell? c cells := by
  have hhead : ∀ (p : Place) (cells : List Cell), (cellTokens p cells).head?.bind Token.word? =
      (cells.map fun c => Token.at .start c.kind 0).head?.bind Token.word? := by
    intro p cells
    cases cells <;> rfl
  rw [compoundCell?, compoundAt?, compoundAt?, hhead, Token.word?, ht]
  cases cells with
  | nil => rfl
  | cons c cells => exact congrArg _ (hhead _ cells)

/-- The token of a folded compound covers the text of its cells. -/
theorem fold_cellTokens (p : Place) (c : Cell) (name : String) (folded : List Cell) :
    (Token.at (p.after c.gap) c.kind c.text.length).fold name (cellTokens (p.after c.chars) folded) =
      Token.at (p.after c.gap) (.word name) (c.text ++ cellsText folded).length := by
  have hstop : ((cellTokens (p.after c.chars) folded).getLast?.map Token.stop).getD ((p.after c.gap).offset + c.text.length) =
      (p.after c.gap).offset + (c.text ++ cellsText folded).length := by
    by_cases hnil : folded = []
    · subst hnil
      rw [cellTokens, cellsText, List.flatMap_nil, List.append_nil]
      rfl
    · rw [stop_getLast?_cellTokens _ hnil, Option.getD_some, Cell.chars]
      simp only [Place.offset_after, List.length_append]
      omega
  rw [Token.fold, Token.at, hstop]
  rfl

/-- Folding tokens is folding their cells. -/
theorem foldCompounds_cellTokens (p : Place) (cells : List Cell) :
    foldCompounds (cellTokens p cells) = cellTokens p (foldCells cells) := by
  fun_induction foldCells cells generalizing p with
  | case1 => rw [cellTokens, foldCompounds]
  | case2 c cells name n hcompound ih =>
    have hsplit := cellTokens_append (p.after c.chars) (cells.take n) (cells.drop n)
    have hn := le_length_of_compoundCell? hcompound
    have hlength : (cellTokens (p.after c.chars) (cells.take n)).length = n := by
      rw [length_cellTokens, List.length_take, Nat.min_eq_left hn]
    rw [List.take_append_drop] at hsplit
    rw [cellTokens, foldCompounds, compoundAt?_cellTokens c cells _ _ rfl, hcompound]
    dsimp only
    rw [hsplit, List.take_left' hlength, List.drop_left' hlength, ih, cellTokens]
    rw [fold_cellTokens, ← Place.after_append, Cell.chars, Cell.chars, List.append_assoc]
  | case3 c cells hcompound ih =>
    rw [cellTokens, foldCompounds, compoundAt?_cellTokens c cells _ _ rfl, hcompound]
    dsimp only
    rw [ih, cellTokens]

/-- The tokens of a text are those of its folded cells. -/
theorem tokens_laid {cells : List Cell} {trail : List Char} (h : Laid cells trail) :
    tokens (cellsText cells ++ trail) = cellTokens .start (foldCells cells) := by
  rw [tokens, tokensFrom_laid h, foldCompounds_cellTokens]

/-- Folding cells leaves their text. -/
theorem cellsText_foldCells (cells : List Cell) : cellsText (foldCells cells) = cellsText cells := by
  fun_induction foldCells cells with
  | case1 => rfl
  | case2 c cells name n _ ih =>
    rw [cellsText_cons, ih, List.append_assoc, ← cellsText_append, List.take_append_drop, cellsText_cons]
  | case3 c cells _ ih => rw [cellsText_cons, ih, cellsText_cons]

/-- Words are not folded over a cell that is no word. -/
theorem foldCells_append (cells : List Cell) {more : List Cell} (h : more.head?.bind (·.kind.word?) = none) :
    foldCells (cells ++ more) = foldCells cells ++ foldCells more := by
  have hhead : (more.map fun c => Token.at .start c.kind 0).head?.bind Token.word? = none := by
    cases more with
    | nil => rfl
    | cons c more => exact h
  have hcompound : ∀ (c : Cell) (cells : List Cell), compoundCell? c (cells ++ more) = compoundCell? c cells := by
    intro c cells
    rw [compoundCell?, List.map_append]
    exact compoundAt?_append hhead
  fun_induction foldCells cells with
  | case1 => rfl
  | case2 c cells name n hc ih =>
    have hle := le_length_of_compoundCell? hc
    rw [List.cons_append, foldCells, hcompound, hc]
    dsimp only
    rw [List.take_append_of_le_length hle, List.drop_append_of_le_length hle, ih, List.cons_append]
  | case3 c cells hc ih =>
    rw [List.cons_append, foldCells, hcompound, hc]
    dsimp only
    rw [ih, List.cons_append]

/-- A compound that does not reach beyond the first cells is seen in them alone. -/
theorem compoundCell?_of_append {c : Cell} {cells : List Cell} (more : List Cell)
    (h : ∀ r, compoundCell? c (cells ++ more) = some r → r.2 ≤ cells.length) :
    compoundCell? c cells = compoundCell? c (cells ++ more) := by
  rw [compoundCell?, List.map_append] at h
  rw [compoundCell?, compoundCell?, List.map_append]
  refine compoundAt?_of_append fun r hr => ?_
  rw [List.length_map]
  exact h r hr

/-- A run of folded cells stands for a run of cells, of which it is the folding. -/
theorem foldCells_eq_append {cells front back : List Cell} (h : foldCells cells = front ++ back) :
    ∃ first last, cells = first ++ last ∧ foldCells first = front ∧ foldCells last = back := by
  fun_induction foldCells cells generalizing front with
  | case1 =>
    obtain ⟨rfl, rfl⟩ := List.append_eq_nil_iff.mp h.symm
    exact ⟨[], [], rfl, by rw [foldCells], by rw [foldCells]⟩
  | case2 c cells name n hcompound ih =>
    cases front with
    | nil => exact ⟨[], c :: cells, rfl, by rw [foldCells], by rw [foldCells, hcompound]; exact h⟩
    | cons d front =>
      obtain ⟨hd, htail⟩ := List.cons.inj h
      obtain ⟨first, last, hsplit, hfirst, hlast⟩ := ih htail
      have hcells : cells = (cells.take n ++ first) ++ last := by rw [List.append_assoc, ← hsplit, List.take_append_drop]
      have hlength : (cells.take n).length = n := by
        rw [List.length_take, Nat.min_eq_left (le_length_of_compoundCell? hcompound)]
      have hcut : compoundCell? c (cells.take n ++ first) = some (name, n) := by
        rw [compoundCell?_of_append last, ← hcells, hcompound]
        rw [← hcells, hcompound]
        rintro _ ⟨⟩
        rw [List.length_append, hlength]
        exact Nat.le_add_right n _
      refine ⟨c :: (cells.take n ++ first), last, by rw [List.cons_append, ← hcells], ?_, hlast⟩
      rw [foldCells, hcut]
      dsimp only
      rw [List.take_left' hlength, List.drop_left' hlength, hfirst, hd]
  | case3 c cells hcompound ih =>
    cases front with
    | nil => exact ⟨[], c :: cells, rfl, by rw [foldCells], by rw [foldCells, hcompound]; exact h⟩
    | cons d front =>
      obtain ⟨hd, htail⟩ := List.cons.inj h
      obtain ⟨first, last, hsplit, hfirst, hlast⟩ := ih htail
      have hcut : compoundCell? c first = none := by
        rw [compoundCell?_of_append last, ← hsplit, hcompound]
        rw [← hsplit, hcompound]
        rintro _ ⟨⟩
      refine ⟨c :: first, last, by rw [hsplit, List.cons_append], ?_, hlast⟩
      rw [foldCells, hcut]
      dsimp only
      rw [hfirst, hd]

end HeaderAtlas
