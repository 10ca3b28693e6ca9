import HeaderAtlas.Proofs.Enum.Reading
import HeaderAtlas.Proofs.Layout.Spaced
import HeaderAtlas.Proofs.Token.Chunk

/-!
# The text in front of a cursor

A cursor holds tokens and the text they were cut from. Where it stands in front of a known text (`Cursor.StandsAt`), gaps are
passed without moving it, and a token is read together with the characters it covers. Every cursor of a text stands so at the
token in front of it (`standsAt_of_suffix`): where a token begins, the text is cut as if nothing stood before.
-/

namespace HeaderAtlas.Cursor

/-- The cursor stands at a place of its source, with this text from there on. -/
structure StandsAt (c : Cursor) (p : Place) (text : List Char) : Prop where
  source : c.source.drop p.offset = text
  unread : c.unread = foldCompounds (tokensFrom p text)

namespace StandsAt

variable {c : Cursor} {p : Place} {kind : Token.Kind} {cs rest : List Char}

theorem drop_after (h : c.source.drop p.offset = cs ++ rest) : c.source.drop (p.after cs).offset = rest := by
  rw [Place.offset_after, ← List.drop_drop, h, List.drop_left]

theorem gap (h : c.StandsAt p (cs ++ rest)) (hgaps : Gaps cs rest) : c.StandsAt (p.after cs) rest :=
  ⟨drop_after h.source, by rw [h.unread, tokensFrom_gaps hgaps]⟩

/-- A token that is folded into one of another kind, or none, is read with the characters it covers. -/
theorem first (h : c.StandsAt p (cs ++ rest))
    (hfold : foldCompounds (tokensFrom p (cs ++ rest)) = Token.at p kind cs.length :: foldCompounds (tokensFrom (p.after cs) rest)) :
    c.Faces [kind] c.advance.unread ∧ c.takeText.1 = String.ofList cs ∧ c.advance.StandsAt (p.after cs) rest := by
  have hunread := h.unread.trans hfold
  have htail : c.advance.unread = foldCompounds (tokensFrom (p.after cs) rest) := by rw [advance, hunread, List.tail_cons]
  have hpeek : c.peek = Token.at p kind cs.length := by rw [peek, hunread, List.headD_cons]
  refine ⟨⟨[Token.at p kind cs.length], rfl, by rw [hunread, htail, List.singleton_append]⟩, ?_, drop_after h.source, htail⟩
  rw [takeText, hpeek, Token.at, slice, Nat.add_sub_cancel_left, h.source, List.take_left]

theorem token (h : c.StandsAt p (cs ++ rest)) (hone : OneToken kind cs rest) (hkind : kind.word? = none) :
    c.Faces [kind] c.advance.unread ∧ c.takeText.1 = String.ofList cs ∧ c.advance.StandsAt (p.after cs) rest := by
  refine h.first ?_
  have hword : ∀ name, (Token.at p kind cs.length).word? = some name → name ∉ foldedWords := by
    intro name hname
    have hnone : (Token.at p kind cs.length).word? = none := hkind
    rw [hnone] at hname
    cases hname
  rw [hone, foldCompounds_cons _ hword]

theorem mark {symbol : Char} (h : c.StandsAt p (symbol :: rest)) (hone : OneToken (.mark symbol) [symbol] rest) :
    c.Faces [.mark symbol] c.advance.unread ∧ c.advance.StandsAt (p.after [symbol]) rest := by
  have htext : c.StandsAt p ([symbol] ++ rest) := h
  obtain ⟨hfaces, -, hnext⟩ := htext.token hone rfl
  exact ⟨hfaces, hnext⟩

/-- A word in front of a token that is no word. -/
theorem word {name : String} (h : c.StandsAt p (name.toList ++ rest)) (hone : OneToken (.word name) name.toList rest)
    (hnext : ∀ q, (tokensFrom q rest).head?.bind Token.word? = none) :
    c.Faces [.word (soleName name)] c.advance.unread ∧ c.advance.StandsAt (p.after name.toList) rest := by
  have hfold : foldCompounds (tokensFrom p (name.toList ++ rest)) =
      Token.at p (.word (soleName name)) name.toList.length :: foldCompounds (tokensFrom (p.after name.toList) rest) := by
    rw [hone]
    exact foldCompounds_cons_alone rfl (hnext _)
  exact ⟨(h.first hfold).1, (h.first hfold).2.2⟩

end StandsAt

theorem cellTokens_ungapped (p : Place) (d : Cell) (ds : List Cell) :
    cellTokens (p.after d.gap) ({ d with gap := [] } :: ds) = cellTokens p (d :: ds) := by
  have hchars : (p.after d.gap).after d.text = p.after d.chars := (Place.after_append p d.gap d.text).symm
  rewrite [cellTokens, cellTokens, ← hchars]
  rfl

/-- A cursor in front of a token of its source stands where the token begins. -/
theorem standsAt_of_suffix {c : Cursor} {before text : List Char} (hsource : c.source = before ++ text)
    (hunread : c.unread <:+ tokens c.source) (hstart : c.unread.head?.map Token.start = some before.length) :
    c.StandsAt (Place.start.after before) text := by
  obtain ⟨read, hread⟩ := hunread
  obtain ⟨cells, trail, hcells, hlaid⟩ := exists_laid c.source
  rw [hcells, tokens_laid hlaid] at hread
  obtain ⟨first, last, hfold, -, -, hlast⟩ := cellTokens_eq_append hread.symm
  obtain ⟨front, back, rfl, rfl, rfl⟩ := foldCells_eq_append hfold
  cases hcell : foldCells back with
  | nil =>
    rw [hlast, hcell] at hstart
    cases hstart
  | cons d ds =>
    rw [hcell] at hlast
    have hoffset : (cellsText front ++ d.gap).length = before.length := by
      rw [hlast, cellTokens, List.head?_cons, Option.map_some, cellsText_foldCells, ← Place.after_append] at hstart
      have hlength := Option.some.inj hstart
      rwa [Token.at, Place.offset_after, show Place.start.offset = 0 from rfl, Nat.zero_add] at hlength
    -- without its first gap, what is left is cut alike
    have hungapped : foldCells (ungapped back) = { d with gap := [] } :: ds := by rw [foldCells_ungapped, hcell, ungapped]
    have hback : cellsText (ungapped back) = d.text ++ cellsText ds := by
      rw [← cellsText_foldCells, hungapped, cellsText_cons, List.nil_append]
    have hsplit : (cellsText front ++ d.gap) ++ (cellsText (ungapped back) ++ trail) = before ++ text := by
      rw [← hsource, hcells, cellsText_append, ← cellsText_foldCells back, hcell, cellsText_cons, hback]
      simp only [List.append_assoc]
    obtain ⟨rfl, rfl⟩ := List.append_inj hsplit hoffset
    refine ⟨?_, ?_⟩
    · rw [hsource, Place.offset_after, show Place.start.offset = 0 from rfl, Nat.zero_add, List.drop_left]
    · rw [tokensFrom_laid hlaid.of_append.drop_gap, foldCompounds_cellTokens, hungapped, hlast, cellsText_foldCells,
        Place.after_append, cellTokens_ungapped]

end HeaderAtlas.Cursor
