import HeaderAtlas.Proofs.Token.Filler

/-!
# Tokens stand for their characters

What a token says is what its characters are (`Spelled`): a word, a mark and the shift are their characters, a quoted text is what
stands between its quotes, and a word that several were folded into covers one of the spellings of a primitive type. With the spans
of `Lined` and the fillers between them, and with the locations of their first characters, this is all that the tokens of a text
have to do with it (`tokensWithEnd_exact`).
-/

namespace HeaderAtlas

/-! ## Locations -/

/-- The location behind characters: a line for each newline, and a column for each character behind the last of them. -/
def locationBehind (cs : List Char) : Location :=
  ⟨1 + cs.count '\n', 1 + (cs.reverse.takeWhile (· != '\n')).length⟩

/-- The location behind one character more. -/
theorem next_locationBehind (cs : List Char) (c : Char) : (locationBehind cs).next c = locationBehind (cs ++ [c]) := by
  by_cases hc : c = '\n'
  · subst hc
    simp [Location.next, locationBehind, Nat.add_assoc]
  · simp [Location.next, locationBehind, hc, Nat.add_comm]

/-- A place that is located behind a text stays so along a further one. -/
theorem location_after_of_location {p : Place} {before : List Char} (h : p.location = locationBehind before) (cs : List Char) :
    (p.after cs).location = locationBehind (before ++ cs) := by
  induction cs generalizing p before with
  | nil => simpa [Place.after] using h
  | cons c cs ih =>
    have hnext : (p.next c).location = locationBehind (before ++ [c]) := by
      rw [← next_locationBehind, ← h]
      rfl
    have hrest := ih hnext
    rwa [List.append_assoc] at hrest

/-- From the start, the place behind a text is its length and the location behind it. -/
theorem after_start (cs : List Char) : Place.start.after cs = ⟨cs.length, locationBehind cs⟩ := by
  have hlocation : (Place.start.after cs).location = locationBehind ([] ++ cs) := location_after_of_location rfl cs
  have hoffset : (Place.start.after cs).offset = 0 + cs.length := Place.offset_after .start cs
  rw [Nat.zero_add] at hoffset
  rw [← hoffset, ← List.nil_append cs, ← hlocation]
  rfl

/-! ## Quoted text -/

/-- Characters among which the quote stands only behind a backslash, which keeps the character behind it. -/
inductive QuotedText (quote : Char) : List Char → Prop where
  | nil : QuotedText quote []
  | plain {c : Char} {cs : List Char} (hquote : c ≠ quote) (hescape : c ≠ '\\') (h : QuotedText quote cs) :
      QuotedText quote (c :: cs)
  | escaped {cs : List Char} (c : Char) (h : QuotedText quote cs) : QuotedText quote ('\\' :: c :: cs)

/-- Quoted text that the end of the text has cut off, perhaps behind a backslash. -/
def CutText (quote : Char) (cs : List Char) : Prop :=
  QuotedText quote cs ∨ ∃ front, cs = front ++ ['\\'] ∧ QuotedText quote front

/-- A character that neither ends nor escapes leaves a quoted text cut off. -/
theorem CutText.plain {quote c : Char} {cs : List Char} (hquote : c ≠ quote) (hescape : c ≠ '\\') (h : CutText quote cs) :
    CutText quote (c :: cs) := by
  rcases h with h | ⟨front, rfl, h⟩
  · exact Or.inl (h.plain hquote hescape)
  · exact Or.inr ⟨c :: front, rfl, h.plain hquote hescape⟩

/-- An escaped character leaves a quoted text cut off. -/
theorem CutText.escaped {quote : Char} {cs : List Char} (c : Char) (h : CutText quote cs) : CutText quote ('\\' :: c :: cs) := by
  rcases h with h | ⟨front, rfl, h⟩
  · exact Or.inl (h.escaped c)
  · exact Or.inr ⟨'\\' :: c :: front, rfl, h.escaped c⟩

/-- Quoted text ends at its quote, or is cut off by the end of the text. -/
theorem quotedBody_cases (quote : Char) (cs : List Char) :
    QuotedText quote (quotedBody quote cs).1 ∧ (quotedBody quote cs).2.1 = [quote] ∨
      CutText quote (quotedBody quote cs).1 ∧ (quotedBody quote cs).2 = ([], []) := by
  fun_induction quotedBody quote cs with
  | case1 => exact Or.inr ⟨Or.inl .nil, rfl⟩
  | case2 c hc => exact Or.inl ⟨.nil, by rw [eq_of_beq hc]⟩
  | case3 c hc =>
    have hne : c ≠ quote := by simpa using hc
    by_cases hescape : c = '\\'
    · exact Or.inr ⟨Or.inr ⟨[], by rw [hescape]; rfl, .nil⟩, rfl⟩
    · exact Or.inr ⟨Or.inl (.plain hne hescape .nil), rfl⟩
  | case4 c d cs hc => exact Or.inl ⟨.nil, by rw [eq_of_beq hc]⟩
  | case5 c d cs _ hescape r ih =>
    obtain rfl := eq_of_beq hescape
    exact ih.imp (fun h => ⟨h.1.escaped d, h.2⟩) fun h => ⟨h.1.escaped d, h.2⟩
  | case6 c d cs hc hescape r ih =>
    have hne : c ≠ quote := by simpa using hc
    have hne' : c ≠ '\\' := by simpa using hescape
    exact ih.imp (fun h => ⟨h.1.plain hne hne', h.2⟩) fun h => ⟨h.1.plain hne hne', h.2⟩

/-! ## Primitive types of several words -/

/-- The words that a primitive type may be written in, and its fixed-width name. -/
def compoundSpellings : List (List String × String) :=
  [(["unsigned", "char"], "uint8_t"), (["unsigned", "short"], "uint16_t"), (["unsigned", "int"], "uint32_t"),
    (["unsigned", "long"], "uint64_t"), (["unsigned", "long", "long"], "uint64_t"), (["signed", "char"], "int8_t"),
    (["short"], "int16_t"), (["long"], "int64_t"), (["long", "long"], "int64_t")]

/-- The words of a compound are one of the spellings of its name. -/
theorem compoundName?_cases {first second third : Option String} {name : String} {n : Nat}
    (h : compoundName? first second third = some (name, n)) :
    (n = 0 ∧ ∃ u, first = some u ∧ ([u], name) ∈ compoundSpellings) ∨
      (n = 1 ∧ ∃ u v, first = some u ∧ second = some v ∧ ([u, v], name) ∈ compoundSpellings) ∨
      (n = 2 ∧ ∃ u v w, first = some u ∧ second = some v ∧ third = some w ∧ ([u, v, w], name) ∈ compoundSpellings) := by
  unfold compoundName? at h
  split at h <;> cases h <;> simp [compoundSpellings]

/-- Words with nothing but fillers between them. -/
inductive SpelledWords : List String → List Char → Prop where
  | single (word : String) : SpelledWords [word] word.toList
  | cons (word : String) {gap text : List Char} {words : List String} (hgap : Fillers gap text) (h : SpelledWords words text) :
      SpelledWords (word :: words) (word.toList ++ (gap ++ text))

/-- Words of a primitive type were folded into a token of this kind, which covers the text. -/
def Folded (kind : Token.Kind) (text : List Char) : Prop :=
  ∃ words name, kind = .word name ∧ (words, name) ∈ compoundSpellings ∧ SpelledWords words text

/-- What is folded are the words of a spelling. -/
theorem words_of_compoundAt? {t : Token} {ts : List Token} {name : String} {n : Nat} (h : compoundAt? t ts = some (name, n)) :
    ∃ words, (words, name) ∈ compoundSpellings ∧ (t :: ts.take n).map Token.kind = words.map .word := by
  rcases compoundName?_cases h with ⟨rfl, u, hu, hmem⟩ | ⟨rfl, u, v, hu, hv, hmem⟩ | ⟨rfl, u, v, w, hu, hv, hw, hmem⟩
  · exact ⟨[u], hmem, by simp [Token.kind_of_word? hu]⟩
  · cases ts with
    | nil => cases hv
    | cons t' ts => exact ⟨[u, v], hmem, by simp [Token.kind_of_word? hu, Token.kind_of_word? hv]⟩
  · cases ts with
    | nil => cases hv
    | cons t' ts =>
      cases ts with
      | nil => cases hw
      | cons t'' ts =>
        exact ⟨[u, v, w], hmem, by simp [Token.kind_of_word? hu, Token.kind_of_word? hv, Token.kind_of_word? hw]⟩

/-- The cells of a compound are words that spell its name. -/
theorem words_of_compoundCell? {c : Cell} {cells : List Cell} {name : String} {n : Nat}
    (h : compoundCell? c cells = some (name, n)) :
    ∃ words, (words, name) ∈ compoundSpellings ∧ (c :: cells.take n).map Cell.kind = words.map .word := by
  obtain ⟨words, hmem, hkinds⟩ := words_of_compoundAt? h
  rw [← List.map_take, List.map_cons, List.map_map] at hkinds
  exact ⟨words, hmem, hkinds⟩

/-! ## What tokens say -/

/-- The characters that a token of a kind covers in front of `rest`, folded ones apart. -/
inductive Spelled (rest : List Char) : Token.Kind → List Char → Prop where
  | word (name : String) : Spelled rest (.word name) name.toList
  | int (value : Int64) {c : Char} (hc : c.isDigit = true) (cs : List Char) : Spelled rest (.int value) (c :: cs)
  | float (value : Number.Binary64) {c : Char} (hc : c.isDigit = true) (cs : List Char) : Spelled rest (.float value) (c :: cs)
  | quoted {quote : Char} {text : List Char} (hquote : quote = '"' ∨ quote = '\'') (h : QuotedText quote text) :
      Spelled rest (.quoted (String.ofList text)) (quote :: (text ++ [quote]))
  | cutQuoted {quote : Char} {text : List Char} (hquote : quote = '"' ∨ quote = '\'') (h : CutText quote text)
      (hrest : rest = []) : Spelled rest (.quoted (String.ofList text)) (quote :: text)
  | mark (symbol : Char) : Spelled rest (.mark symbol) [symbol]
  | shiftLeft : Spelled rest .shiftLeft ['<', '<']

/-- No characters spell the end. -/
theorem Spelled.ne_eof {rest text : List Char} {kind : Token.Kind} (h : Spelled rest kind text) : kind ≠ .eof := by
  rintro rfl
  cases h

/-- A word is its characters. -/
theorem Spelled.text_eq {rest text : List Char} {name : String} (h : Spelled rest (.word name) text) : text = name.toList := by
  cases h
  rfl

/-- The characters of a number spell it. -/
theorem spelled_numberLexeme {c : Char} (hc : c.isDigit = true) (cs : List Char) :
    Spelled (numberLexeme c cs).rest (numberLexeme c cs).kind (numberLexeme c cs).text := by
  have hdecimal : ∀ cs, Spelled (decimalLexeme c cs).rest (decimalLexeme c cs).kind (decimalLexeme c cs).text := by
    intro cs
    simp only [decimalLexeme]
    split
    · exact .float _ hc _
    · exact .int _ hc _
  unfold numberLexeme
  split
  · split
    · exact .int _ hc _
    · exact hdecimal _
  · exact hdecimal _

/-- The characters of a quoted text spell what stands between the quotes. -/
theorem spelled_quotedLexeme {quote : Char} (hquote : quote = '"' ∨ quote = '\'') (cs : List Char) :
    Spelled (quotedLexeme quote cs).rest (quotedLexeme quote cs).kind (quotedLexeme quote cs).text := by
  rcases quotedBody_cases quote cs with ⟨htext, hclosed⟩ | ⟨htext, hend⟩
  · simp only [quotedLexeme, hclosed]
    exact .quoted hquote htext
  · simp only [quotedLexeme, hend, List.append_nil]
    exact .cutQuoted hquote htext rfl

/-- The characters of a mark, and of the shift, spell it. -/
theorem spelled_markLexeme (c : Char) (cs : List Char) :
    Spelled (markLexeme c cs).rest (markLexeme c cs).kind (markLexeme c cs).text := by
  unfold markLexeme
  split
  · split
    · rename_i hshift
      simp only [Bool.and_eq_true, beq_iff_eq] at hshift
      rw [hshift.1, hshift.2]
      exact .shiftLeft
    · exact .mark c
  · exact .mark c

/-- Every lexeme is spelled by its characters. -/
theorem spelled_lexeme (c : Char) (cs : List Char) : Spelled (lexeme c cs).rest (lexeme c cs).kind (lexeme c cs).text := by
  unfold lexeme
  split
  · rename_i hquote
    exact spelled_quotedLexeme (by simpa using hquote) cs
  · split
    · rename_i hdigit
      exact spelled_numberLexeme hdigit cs
    · split
      · have hname : Spelled (wordLexeme c cs).rest (wordLexeme c cs).kind
            (String.ofList (c :: cs.takeWhile Text.isWordChar)).toList := .word _
        rwa [String.toList_ofList] at hname
      · exact spelled_markLexeme c cs

/-- What is cut off a text is spelled by its characters. -/
theorem IsCut.spelled {kind : Token.Kind} {text rest : List Char} (h : IsCut kind text rest) : Spelled rest kind text := by
  obtain ⟨c, cs, rfl, -, hlexeme⟩ := h
  have hspelled := spelled_lexeme c (cs ++ rest)
  rwa [hlexeme] at hspelled

/-- Cells of words that are laid out one behind the other spell these words. -/
theorem Laid.spelledWords {run : List Cell} : ∀ {c : Cell} {back : List Cell} {trail : List Char} {words : List String},
    Laid (c :: (run ++ back)) trail → (c :: run).map Cell.kind = words.map .word →
      SpelledWords words (c.text ++ cellsText run) := by
  have htext : ∀ {c : Cell} {cells : List Cell} {trail : List Char} {word : String}, Laid (c :: cells) trail →
      c.kind = .word word → c.text = word.toList := by
    intro c cells trail word h hkind
    have hspelled := h.2.1.spelled
    rw [hkind] at hspelled
    exact hspelled.text_eq
  induction run with
  | nil =>
    intro c back trail words h hkinds
    obtain ⟨word, rest, rfl, hkind, hrest⟩ := List.map_eq_cons_iff.mp hkinds.symm
    obtain rfl : rest = [] := by simpa using hrest
    rw [htext h hkind.symm]
    simpa [cellsText] using SpelledWords.single word
  | cons d run ih =>
    intro c back trail words h hkinds
    obtain ⟨word, rest, rfl, hkind, hrest⟩ := List.map_eq_cons_iff.mp hkinds.symm
    have hrun := ih h.2.2 hrest.symm
    -- what follows the gap is not empty, so what is behind that does not matter
    have hgap : Fillers d.gap (d.text ++ cellsText run) := h.2.2.1.fillers.closed (by simp [h.2.2.2.1.ne_nil]) _
    rw [htext h hkind.symm, cellsText_cons]
    exact .cons word hgap hrun

/-- A token says what its characters are, or it is folded. -/
theorem Laid.spelled_foldCells {cells front back : List Cell} {c : Cell} {trail : List Char} (h : Laid cells trail)
    (hfold : foldCells cells = front ++ c :: back) : Spelled (cellsText back ++ trail) c.kind c.text ∨ Folded c.kind c.text := by
  obtain ⟨first, last, rfl, -, hlast⟩ := foldCells_eq_append hfold
  have hlaid := h.of_append
  cases last with
  | nil =>
    rw [foldCells] at hlast
    cases hlast
  | cons d more =>
    rw [foldCells] at hlast
    split at hlast
    · rename_i name n hcompound
      obtain ⟨rfl, -⟩ := List.cons.inj hlast
      obtain ⟨words, hname, hkinds⟩ := words_of_compoundCell? hcompound
      rw [← List.take_append_drop n more] at hlaid
      exact Or.inr ⟨words, name, rfl, hname, hlaid.spelledWords hkinds⟩
    · obtain ⟨rfl, rfl⟩ := List.cons.inj hlast
      rw [cellsText_foldCells]
      exact Or.inl hlaid.2.1.spelled

/-! ## The tokens of a text -/

/-- A cell stands for a token that begins behind all that is in front of its characters. -/
theorem exists_cell_of_mem_cellTokens {cells : List Cell} {p : Place} {t : Token} (h : t ∈ cellTokens p cells) :
    ∃ front c back, cells = front ++ c :: back ∧ t = Token.at (p.after (cellsText front ++ c.gap)) c.kind c.text.length := by
  induction cells generalizing p with
  | nil => simp [cellTokens] at h
  | cons c cells ih =>
    rcases List.mem_cons.mp h with rfl | h
    · exact ⟨[], c, cells, rfl, rfl⟩
    · obtain ⟨front, d, back, hcells, ht⟩ := ih h
      refine ⟨c :: front, d, back, by rw [hcells, List.cons_append], ?_⟩
      rw [ht, ← Place.after_append, cellsText_cons, Cell.chars, List.append_assoc, List.append_assoc, List.append_assoc]

theorem extract_middle (before text after : List Char) :
    (before ++ (text ++ after)).extract before.length (before.length + text.length) = text := by
  simp [List.extract]

theorem drop_middle (before text after : List Char) :
    (before ++ (text ++ after)).drop (before.length + text.length) = after := by
  simp

/-- A token of a text has the location behind what stands in front of it, and covers what it says. -/
theorem read_of_mem_tokens {source : List Char} {t : Token} (h : t ∈ tokens source) :
    t.location = locationBehind (source.take t.start) ∧ (Spelled (source.drop t.stop) t.kind (source.extract t.start t.stop) ∨
      Folded t.kind (source.extract t.start t.stop)) := by
  obtain ⟨cells, trail, rfl, hlaid⟩ := exists_laid source
  rw [tokens_laid hlaid] at h
  obtain ⟨front, c, back, hfold, rfl⟩ := exists_cell_of_mem_cellTokens h
  have hsource : cellsText cells ++ trail = (cellsText front ++ c.gap) ++ (c.text ++ (cellsText back ++ trail)) := by
    rw [← cellsText_foldCells cells, hfold, cellsText_append, cellsText_cons]
    simp only [List.append_assoc]
  rw [hsource, after_start, Token.at]
  dsimp only
  rw [extract_middle, drop_middle, List.take_left]
  exact ⟨rfl, hlaid.spelled_foldCells hfold⟩

/-- A character that no token covers belongs to a filler that no token reaches into. -/
theorem exists_filler {source : List Char} {i : Nat} (hi : i < source.length)
    (huncovered : ∀ t ∈ tokens source, ¬(t.start ≤ i ∧ i < t.stop)) :
    ∃ a b, a ≤ i ∧ i < b ∧ b ≤ source.length ∧ Filler (source.extract a b) (source.drop b) ∧
      ∀ t ∈ tokens source, t.stop ≤ a ∨ b ≤ t.start := by
  obtain ⟨cells, trail, hcells, hlaid⟩ := exists_laid source
  have htokens : tokens source = cellTokens .start (foldCells cells) := by rw [hcells, tokens_laid hlaid]
  have hsource : source = cellsText (foldCells cells) ++ trail := by rw [hcells, cellsText_foldCells]
  rw [hsource] at hi
  rcases hlaid.padded.foldCells.covers .start hi with
    ⟨t, ht, hcovered⟩ | ⟨before, piece, after, hsplit, hle, hlt, hpiece, hclear⟩
  · rw [← htokens] at ht
    simp only [Place.start, Nat.zero_add] at hcovered
    exact absurd hcovered (huncovered t ht)
  · simp only [Place.start, Nat.zero_add] at hclear
    rw [htokens, hsource, hsplit]
    refine ⟨before.length, before.length + piece.length, hle, hlt, by simp, ?_, hclear⟩
    rw [extract_middle, drop_middle]
    exact hpiece

/-- The tokens of a text. The last one is the end of the text, with no characters, and no other is. The others cover characters, each
of them behind those of the one before. A character that is not covered belongs to a blank, a comment or a directive. A token has the
location of its first character, and is what its characters say, if it is not folded: then they spell a primitive type. -/
theorem tokensWithEnd_exact (source : List Char) :
    (∃ front, tokensWithEnd source = front ++ [⟨.eof, source.length, source.length, locationBehind source⟩] ∧
      ∀ t ∈ front, t.kind ≠ .eof ∧ t.start < t.stop ∧ t.stop ≤ source.length) ∧
    (tokensWithEnd source).Pairwise (fun t u => t.stop ≤ u.start) ∧
    (∀ i < source.length, (∀ t ∈ tokensWithEnd source, ¬(t.start ≤ i ∧ i < t.stop)) →
      ∃ a b, a ≤ i ∧ i < b ∧ b ≤ source.length ∧ Filler (source.extract a b) (source.drop b) ∧
        ∀ t ∈ tokensWithEnd source, t.stop ≤ a ∨ b ≤ t.start) ∧
    ∀ t ∈ tokensWithEnd source, t.location = locationBehind (source.take t.start) ∧
      (t.kind = .eof ∨ Spelled (source.drop t.stop) t.kind (source.extract t.start t.stop) ∨
        Folded t.kind (source.extract t.start t.stop)) := by
  have hlined := lined_tokens source
  have hend : tokensWithEnd source = tokens source ++ [⟨.eof, source.length, source.length, locationBehind source⟩] := by
    rw [tokensWithEnd, after_start]
    rfl
  have hall : ∀ {P : Token → Prop}, (∀ t ∈ tokens source, P t) →
      P ⟨.eof, source.length, source.length, locationBehind source⟩ → ∀ t ∈ tokensWithEnd source, P t := by
    intro P hP hlast
    rw [hend]
    exact List.forall_mem_append.mpr ⟨hP, List.forall_mem_singleton.mpr hlast⟩
  refine ⟨⟨tokens source, hend, fun t ht => ?_⟩, ?_, fun i hi huncovered => ?_, hall (fun t ht => ?_) ⟨?_, Or.inl rfl⟩⟩
  · refine ⟨?_, (hlined.spans t ht).start_lt_stop, (hlined.spans t ht).stop_le_length⟩
    rcases (read_of_mem_tokens ht).2 with h | ⟨words, name, h, -⟩
    · exact h.ne_eof
    · simp [h]
  · rw [hend]
    refine List.pairwise_append.mpr ⟨hlined.sorted, List.pairwise_singleton _ _, fun t ht u hu => ?_⟩
    rw [List.mem_singleton.mp hu]
    exact (hlined.spans t ht).stop_le_length
  · obtain ⟨a, b, hle, hlt, hb, hfiller, hclear⟩ := exists_filler hi fun t ht =>
      huncovered t (by rw [hend]; exact List.mem_append_left _ ht)
    exact ⟨a, b, hle, hlt, hb, hfiller, hall hclear (Or.inr hb)⟩
  · exact (read_of_mem_tokens ht).imp id Or.inr
  · rw [List.take_length]

/-- A folded type with a comment in it, and behind a comment quoted text that the end of the text cuts off behind a backslash. -/
theorem tokensWithEnd_exact_for_cut_text :
    let source := "unsigned/**/int y;//!\n'a\\".toList
    tokensWithEnd source = [⟨.word "uint32_t", 0, 15, ⟨1, 1⟩⟩, ⟨.word "y", 16, 17, ⟨1, 17⟩⟩, ⟨.mark ';', 17, 18, ⟨1, 18⟩⟩,
        ⟨.quoted "a\\", 22, 25, ⟨2, 1⟩⟩, ⟨.eof, 25, 25, ⟨2, 4⟩⟩] ∧
      (∃ a b, a ≤ 20 ∧ 20 < b ∧ b ≤ 25 ∧ Filler (source.extract a b) (source.drop b) ∧
        ∀ t ∈ tokensWithEnd source, t.stop ≤ a ∨ b ≤ t.start) ∧
      (Spelled (source.drop 25) (.quoted "a\\") (source.extract 22 25) ∨ Folded (.quoted "a\\") (source.extract 22 25)) := by
  have hread :
      let source := "unsigned/**/int y;//!\n'a\\".toList
      tokensWithEnd source = [⟨.word "uint32_t", 0, 15, ⟨1, 1⟩⟩, ⟨.word "y", 16, 17, ⟨1, 17⟩⟩, ⟨.mark ';', 17, 18, ⟨1, 18⟩⟩,
          ⟨.quoted "a\\", 22, 25, ⟨2, 1⟩⟩, ⟨.eof, 25, 25, ⟨2, 4⟩⟩] ∧ source.length = 25 := by
    decide +kernel
  intro source
  obtain ⟨htokens, hlength⟩ := hread
  obtain ⟨-, -, hfillers, hspelled⟩ := tokensWithEnd_exact source
  refine ⟨htokens, ?_, ?_⟩
  · have hfiller := hfillers 20 (by rw [hlength]; decide) (by rw [htokens]; decide)
    rwa [hlength] at hfiller
  · have hquoted := (hspelled ⟨.quoted "a\\", 22, 25, ⟨2, 1⟩⟩ (by rw [htokens]; decide)).2
    exact hquoted.resolve_left (by decide)

end HeaderAtlas
