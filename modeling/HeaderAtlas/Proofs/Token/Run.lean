import HeaderAtlas.Proofs.Layout.Spaced

/-!
# Runs of tokens

Reading is local. The text from the first to the last of some tokens that stand one behind the other is read, alone, as these tokens
(`map_kind_runSpan`): no token is what it is because of something in front of it or behind it. This is so for a single token, and the
tokens of a text may also be moved apart, with one blank between each two of them (`tokens_local`).
-/

namespace HeaderAtlas

theorem runSpan_singleton (source : List Char) (t : Token) : runSpan source [t] = t.span source := rfl

theorem runSpan_cellTokens {p : Place} {front : List Char} (hp : p.offset = front.length) {cells : List Cell} (hne : cells ≠ [])
    (back : List Char) :
    runSpan (front ++ (cellsText cells ++ back)) (cellTokens p cells) = cellsText (ungapped cells) := by
  have hstop := stop_getLast?_cellTokens p hne
  obtain ⟨c, cells, rfl⟩ := List.exists_cons_of_ne_nil hne
  have hstart : ((cellTokens p (c :: cells)).head?.map Token.start).getD 0 = (front ++ c.gap).length := by
    rw [List.length_append, ← hp, ← Place.offset_after]
    rfl
  have hlength : p.offset + (c.gap ++ (c.text ++ cellsText cells)).length - (front ++ c.gap).length =
      (c.text ++ cellsText cells).length := by
    simp only [List.length_append]
    omega
  rw [runSpan, hstart, hstop, Option.getD_some, ungapped, cellsText_cons, cellsText_cons, hlength, List.append_assoc,
    ← List.append_assoc front, List.drop_left, List.take_left]
  rfl

theorem map_kind_ungapped (cells : List Cell) : (ungapped cells).map Cell.kind = cells.map Cell.kind := by
  cases cells <;> rfl

/-- A run of the tokens of a text is, as a text of its own, read as the same tokens. -/
theorem map_kind_runSpan {source : List Char} {front run back : List Token} (h : tokens source = front ++ (run ++ back)) :
    (tokens (runSpan source run)).map Token.kind = run.map Token.kind := by
  obtain ⟨cells, trail, rfl, hlaid⟩ := exists_laid source
  rw [tokens_laid hlaid] at h
  obtain ⟨first, others, hcells, -, -, hothers⟩ := cellTokens_eq_append h
  obtain ⟨middle, last, rfl, -, rfl, -⟩ := cellTokens_eq_append hothers.symm
  by_cases hne : middle = []
  · subst hne
    simp [cellTokens, runSpan, tokens, tokensFrom_nil, foldCompounds]
  · have hspan : runSpan (cellsText cells ++ trail) (cellTokens (Place.start.after (cellsText first)) middle) =
        cellsText (ungapped middle) := by
      have hoffset : (Place.start.after (cellsText first)).offset = (cellsText first).length := by
        rw [Place.offset_after]
        exact Nat.zero_add _
      rw [← cellsText_foldCells, hcells, cellsText_append, cellsText_append, List.append_assoc, List.append_assoc]
      exact runSpan_cellTokens hoffset hne _
    obtain ⟨alone, rfl, halone⟩ := hlaid.exists_run hcells
    have htokens := tokens_laid halone
    rw [List.append_nil, ← cellsText_foldCells, foldCells_ungapped] at htokens
    rw [hspan, htokens, map_kind_cellTokens, map_kind_cellTokens, map_kind_ungapped]

theorem map_kind_tokensWithEnd (source : List Char) :
    (tokensWithEnd source).map Token.kind = (tokens source).map Token.kind ++ [.eof] := List.map_append

/-- The characters that the tokens of a text cover, put one behind the other with a blank between each two, are read as the same
tokens; and what a single token covers is read as this token and nothing else. -/
theorem tokens_local (source : List Char) :
    (tokensWithEnd ([' '].intercalate ((tokens source).map (Token.span source)))).map Token.kind =
        (tokensWithEnd source).map Token.kind ∧
      ∀ t ∈ tokens source, (tokensWithEnd (t.span source)).map Token.kind = [t.kind, .eof] := by
  constructor
  · rw [map_kind_tokensWithEnd, map_kind_tokensWithEnd]
    exact congrArg (· ++ [.eof]) (map_kind_spaced source)
  · intro t ht
    obtain ⟨front, back, hsplit⟩ := List.append_of_mem ht
    have hrun : tokens source = front ++ ([t] ++ back) := hsplit
    rw [map_kind_tokensWithEnd, ← runSpan_singleton, map_kind_runSpan hrun]
    rfl

/-- Three words of which two are folded over a comment, a shift in front of a mark that is half of one, a number that ends with a
sign, and quoted text that is cut off. -/
theorem tokens_local_in_crowd :
    let source := "long/*!*/long long<<<1e+.e/'a\\".toList
    tokens source = [⟨.word "int64_t", 0, 13, ⟨1, 1⟩⟩, ⟨.word "int64_t", 14, 18, ⟨1, 15⟩⟩, ⟨.shiftLeft, 18, 20, ⟨1, 19⟩⟩,
        ⟨.mark '<', 20, 21, ⟨1, 21⟩⟩, ⟨.float ⟨0⟩, 21, 24, ⟨1, 22⟩⟩, ⟨.mark '.', 24, 25, ⟨1, 25⟩⟩, ⟨.word "e", 25, 26, ⟨1, 26⟩⟩,
        ⟨.mark '/', 26, 27, ⟨1, 27⟩⟩, ⟨.quoted "a\\", 27, 30, ⟨1, 28⟩⟩] ∧
      (tokensWithEnd "long/*!*/long long << < 1e+ . e / 'a\\".toList).map Token.kind = (tokensWithEnd source).map Token.kind ∧
      (tokensWithEnd "long/*!*/long".toList).map Token.kind = [.word "int64_t", .eof] := by
  have hread :
      let source := "long/*!*/long long<<<1e+.e/'a\\".toList
      tokens source = [⟨.word "int64_t", 0, 13, ⟨1, 1⟩⟩, ⟨.word "int64_t", 14, 18, ⟨1, 15⟩⟩, ⟨.shiftLeft, 18, 20, ⟨1, 19⟩⟩,
          ⟨.mark '<', 20, 21, ⟨1, 21⟩⟩, ⟨.float ⟨0⟩, 21, 24, ⟨1, 22⟩⟩, ⟨.mark '.', 24, 25, ⟨1, 25⟩⟩, ⟨.word "e", 25, 26, ⟨1, 26⟩⟩,
          ⟨.mark '/', 26, 27, ⟨1, 27⟩⟩, ⟨.quoted "a\\", 27, 30, ⟨1, 28⟩⟩] := by
    decide +kernel
  intro source
  obtain ⟨hspaced, hsingle⟩ := tokens_local source
  refine ⟨hread, ?_, hsingle ⟨.word "int64_t", 0, 13, ⟨1, 1⟩⟩ (by rw [hread]; exact List.mem_cons_self)⟩
  rw [hread] at hspaced
  exact hspaced

end HeaderAtlas
