import HeaderAtlas.Proofs.Token.Span

/-!
# Texts put one behind another

Where a blank stands behind a piece of text, the piece is cut into the same tokens whatever comes next (`tokensFrom_piece`), unless
quoted text or a comment in it is not closed. The tokens of a piece are the same at every place but for their spans and locations,
which move with it (`moved_foldCompounds`). Primitive types of several words are folded within a piece when what follows it begins
with no word (`foldCompounds_append`). So a text that is made of pieces with blanks behind them has the tokens of its pieces.
-/

namespace HeaderAtlas

/-! ## Cutting a text that goes on -/

/-- What was stopped inside of a text is stopped there in a longer one. -/
theorem takeWhile_append_of_ne_nil {p : Char → Bool} {cs : List Char} (h : cs.dropWhile p ≠ []) (more : List Char) :
    (cs ++ more).takeWhile p = cs.takeWhile p := by
  rw [List.takeWhile_append, if_neg]
  intro hlength
  have happend := congrArg List.length (List.takeWhile_append_dropWhile (p := p) (l := cs))
  rw [List.length_append, hlength] at happend
  exact h (List.length_eq_zero_iff.mp (by omega))

/-- What was left inside of a text is left in a longer one, with the rest behind it. -/
theorem dropWhile_append_of_ne_nil {p : Char → Bool} {cs : List Char} (h : cs.dropWhile p ≠ []) (more : List Char) :
    (cs ++ more).dropWhile p = cs.dropWhile p ++ more := by
  rw [List.dropWhile_append, if_neg]
  rw [List.isEmpty_iff]
  exact h

/-- Quoted text that ends inside of a text ends there in a longer one. -/
theorem quotedBody_more (quote : Char) (cs more : List Char) (h : (quotedBody quote cs).2.2 ≠ []) :
    quotedBody quote (cs ++ more) =
      ((quotedBody quote cs).1, (quotedBody quote cs).2.1, (quotedBody quote cs).2.2 ++ more) := by
  fun_induction quotedBody quote cs with
  | case1 => exact absurd rfl h
  | case2 c => exact absurd rfl h
  | case3 c => exact absurd rfl h
  | case4 c d cs hc => simp [quotedBody, hc]
  | case5 c d cs hc hescape _ ih =>
    rewrite [List.cons_append, List.cons_append, quotedBody, if_neg hc, if_pos hescape, ih h]
    rfl
  | case6 c d cs hc hescape _ ih =>
    rw [List.cons_append] at ih
    rewrite [List.cons_append, List.cons_append, quotedBody, if_neg hc, if_neg hescape, ih h]
    rfl

/-- Only an exponent letter at the very end may be read differently when more comes. -/
theorem decimalBody_more (isFloat : Bool) (cs more : List Char) {front : List Char}
    (h : (decimalBody isFloat cs).2.2 = front ++ [' ']) :
    decimalBody isFloat (cs ++ more) =
      ((decimalBody isFloat cs).1, (decimalBody isFloat cs).2.1, (decimalBody isFloat cs).2.2 ++ more) := by
  fun_induction decimalBody isFloat cs with
  | case1 => simp at h
  | case2 isFloat c cs hdigit _ ih =>
    rw [List.cons_append, decimalBody.eq_def]
    dsimp only
    rewrite [if_pos hdigit, ih h]
    rfl
  | case3 isFloat c cs hdigit hpoint _ ih =>
    rw [List.cons_append, decimalBody.eq_def]
    dsimp only
    rewrite [if_neg hdigit, if_pos hpoint, ih h]
    rfl
  | case4 isFloat c hdigit hpoint hexp =>
    obtain rfl : c = ' ' := by
      have hlast := congrArg List.getLast? h
      simpa using hlast
    exact absurd hexp (by decide)
  | case5 isFloat c hdigit hpoint hexp d ds hd _ ih =>
    rw [List.cons_append, List.cons_append, decimalBody.eq_def]
    dsimp only
    rewrite [if_neg hdigit, if_neg hpoint, if_pos hexp, if_pos hd, ih h]
    rfl
  | case6 isFloat c hdigit hpoint hexp d ds hd =>
    rw [List.cons_append, List.cons_append, decimalBody.eq_def]
    dsimp only
    rewrite [if_neg hdigit, if_neg hpoint, if_pos hexp, if_neg hd]
    rfl
  | case7 isFloat c cs hdigit hpoint hexp =>
    rw [List.cons_append, decimalBody.eq_def]
    dsimp only
    rewrite [if_neg hdigit, if_neg hpoint, if_neg hexp]
    rfl

/-- A hexadecimal number that ends inside of a text ends there in a longer one. -/
theorem hexLexeme_more (lead cs more : List Char) (h : (hexLexeme lead cs).rest ≠ []) :
    hexLexeme lead (cs ++ more) = { hexLexeme lead cs with rest := (hexLexeme lead cs).rest ++ more } := by
  have htail : cs.dropWhile isHexDigit ≠ [] := by
    intro hnil
    exact h (by simp only [hexLexeme, hnil, List.dropWhile_nil])
  simp only [hexLexeme, takeWhile_append_of_ne_nil htail, dropWhile_append_of_ne_nil htail]
  rw [takeWhile_append_of_ne_nil h, dropWhile_append_of_ne_nil h]

/-- A decimal number ends inside of a longer text where a blank was behind it. -/
theorem decimalLexeme_more (c : Char) (cs more : List Char) {front : List Char} (h : (decimalLexeme c cs).rest = front ++ [' ']) :
    decimalLexeme c (cs ++ more) = { decimalLexeme c cs with rest := (decimalLexeme c cs).rest ++ more } := by
  have hne : (decimalBody false cs).2.2.dropWhile isSuffix ≠ [] := by
    intro hnil
    rw [decimalLexeme, hnil] at h
    simp at h
  obtain ⟨front', hfront⟩ : ∃ front', (decimalBody false cs).2.2 = front' ++ [' '] := by
    refine ⟨(decimalBody false cs).2.2.takeWhile isSuffix ++ front, ?_⟩
    rw [List.append_assoc, ← h]
    exact (List.takeWhile_append_dropWhile).symm
  have hhead : ((decimalBody false cs).2.2 ++ more).head? = (decimalBody false cs).2.2.head? := by
    rw [hfront]
    cases front' <;> rfl
  simp only [decimalLexeme, decimalBody_more false cs more hfront, hhead, takeWhile_append_of_ne_nil hne,
    dropWhile_append_of_ne_nil hne]

/-- A lexeme with a blank somewhere behind it is the same when more comes. -/
theorem lexeme_more (c : Char) (cs more : List Char) {front : List Char} (h : (lexeme c cs).rest = front ++ [' ']) :
    lexeme c (cs ++ more) = { lexeme c cs with rest := (lexeme c cs).rest ++ more } := by
  have hne : (lexeme c cs).rest ≠ [] := by rw [h]; simp
  obtain ⟨d, ds, rfl⟩ : ∃ d ds, cs = d :: ds := by
    cases cs with
    | nil =>
      have hlength := congrArg List.length (lexeme_append c [])
      have htext := List.length_pos_iff.mpr (lexeme_text_ne_nil c [])
      have hrest := List.length_pos_iff.mpr hne
      rw [List.length_append, List.length_singleton] at hlength
      omega
    | cons d ds => exact ⟨d, ds, rfl⟩
  unfold lexeme at h hne ⊢
  split
  · rename_i hquote
    rw [if_pos hquote] at hne
    simp only [quotedLexeme, quotedBody_more c (d :: ds) more hne]
  · rename_i hquote
    rw [if_neg hquote] at h hne
    split
    · rename_i hdigit
      rw [if_pos hdigit] at h hne
      simp only [numberLexeme, List.cons_append] at h hne ⊢
      split
      · rename_i hhex
        rw [if_pos hhex] at hne
        exact hexLexeme_more [c, d] ds more hne
      · rename_i hhex
        rw [if_neg hhex] at h
        exact decimalLexeme_more c (d :: ds) more h
    · rename_i hdigit
      rw [if_neg hdigit] at hne
      split
      · rename_i hword
        rw [if_pos hword] at hne
        simp only [wordLexeme, takeWhile_append_of_ne_nil hne, dropWhile_append_of_ne_nil hne]
      · simp only [markLexeme, List.cons_append]
        split <;> rfl

/-! ## Gaps in a text that goes on -/

/-- A line that ends inside of a text ends there in a longer one. -/
theorem lineBody_more (cs more : List Char) (h : (lineBody cs).2 ≠ []) :
    lineBody (cs ++ more) = ((lineBody cs).1, (lineBody cs).2 ++ more) := by
  fun_induction lineBody cs with
  | case1 => exact absurd rfl h
  | case2 c cs hc =>
    rewrite [List.cons_append, lineBody, if_pos hc]
    rfl
  | case3 c cs hc _ ih =>
    rewrite [List.cons_append, lineBody, if_neg hc, ih h]
    rfl

/-- A comment that is closed inside of a text ends there in a longer one. -/
theorem commentBody_more (cs more : List Char) (h : (commentBody cs).2 ≠ []) :
    commentBody (cs ++ more) = ((commentBody cs).1, (commentBody cs).2 ++ more) := by
  fun_induction commentBody cs with
  | case1 => exact absurd rfl h
  | case2 c => exact absurd rfl h
  | case3 c d cs hc =>
    rewrite [List.cons_append, List.cons_append, commentBody, if_pos hc]
    rfl
  | case4 c d cs hc _ ih =>
    rw [List.cons_append] at ih
    rewrite [List.cons_append, List.cons_append, commentBody, if_neg hc, ih h]
    rfl

/-- A directive that ends inside of a text ends there in a longer one. -/
theorem directiveBody_more (cs more : List Char) (h : (directiveBody cs).2 ≠ []) :
    directiveBody (cs ++ more) = ((directiveBody cs).1, (directiveBody cs).2 ++ more) := by
  fun_induction directiveBody cs with
  | case1 => exact absurd rfl h
  | case2 c => exact absurd rfl h
  | case3 c d cs hc _ ih =>
    rewrite [List.cons_append, List.cons_append, directiveBody, if_pos hc, ih h]
    rfl
  | case4 c d cs hc hnewline =>
    rewrite [List.cons_append, List.cons_append, directiveBody, if_neg hc, if_pos hnewline]
    rfl
  | case5 c d cs hc hnewline _ ih =>
    rw [List.cons_append] at ih
    rewrite [List.cons_append, List.cons_append, directiveBody, if_neg hc, if_neg hnewline, ih h]
    rfl

/-- A gap with something behind it is the same when more comes. -/
theorem gap?_more {cs : List Char} {g : List Char × List Char} (h : gap? cs = some g) (hne : g.2 ≠ []) (more : List Char) :
    gap? (cs ++ more) = some (g.1, g.2 ++ more) := by
  cases cs with
  | nil => cases h
  | cons c cs =>
    rw [List.cons_append]
    simp only [gap?] at h ⊢
    split at h
    · rename_i hblank
      obtain rfl := Option.some.inj h
      rw [if_pos hblank]
    · rename_i hblank
      rw [if_neg hblank]
      split at h
      · rename_i hhash
        obtain rfl := Option.some.inj h
        rw [if_pos hhash, ← List.cons_append, directiveBody_more _ _ hne]
      · rename_i hhash
        rw [if_neg hhash]
        split at h
        · rename_i hslash
          rw [if_pos hslash]
          cases cs with
          | nil => cases h
          | cons d ds =>
            simp only [List.cons_append] at h ⊢
            split at h
            · rename_i hline
              obtain rfl := Option.some.inj h
              rw [if_pos hline, lineBody_more _ _ hne]
            · rename_i hline
              rw [if_neg hline]
              split at h
              · rename_i hcomment
                obtain rfl := Option.some.inj h
                rw [if_pos hcomment, commentBody_more _ _ hne]
              · cases h
        · cases h

/-- Two characters tell whether a text begins with a gap. -/
theorem gap?_eq_none_more {c : Char} {cs : List Char} (h : gap? (c :: cs) = none) (hcs : cs ≠ []) (more : List Char) :
    gap? (c :: (cs ++ more)) = none := by
  obtain ⟨d, ds, rfl⟩ := List.exists_cons_of_ne_nil hcs
  simp only [List.cons_append, gap?] at h ⊢
  split at h
  · cases h
  · rename_i hblank
    rw [if_neg hblank]
    split at h
    · cases h
    · rename_i hhash
      rw [if_neg hhash]
      split at h
      · rename_i hslash
        rw [if_pos hslash]
        split at h
        · cases h
        · rename_i hline
          rw [if_neg hline]
          split at h
          · cases h
          · rename_i hcomment
            rw [if_neg hcomment]
      · rename_i hslash
        rw [if_neg hslash]

/-! ## The tokens of a piece -/

/-- The place behind two texts is behind the second, from behind the first. -/
theorem Place.after_append (p : Place) (cs ds : List Char) : p.after (cs ++ ds) = (p.after cs).after ds := List.foldl_append

theorem tokensFrom_nil (p : Place) : tokensFrom p [] = [] := by rw [tokensFrom.eq_def]

/-- A gap gives no token and moves the place. -/
theorem tokensFrom_gap {p : Place} {cs : List Char} {g : List Char × List Char} (h : gap? cs = some g) :
    tokensFrom p cs = tokensFrom (p.after g.1) g.2 := by
  cases cs with
  | nil => cases h
  | cons c cs =>
    rw [tokensFrom.eq_def]
    dsimp only
    split
    · rename_i g' h'
      obtain rfl := Option.some.inj (h.symm.trans h')
      rfl
    · rename_i h'
      rw [h] at h'
      cases h'

/-- Where no gap begins, the first lexeme is the first token. -/
theorem tokensFrom_lexeme {p : Place} {c : Char} {cs : List Char} (h : gap? (c :: cs) = none) :
    tokensFrom p (c :: cs) = Token.at p (lexeme c cs).kind (lexeme c cs).text.length ::
      tokensFrom (p.after (lexeme c cs).text) (lexeme c cs).rest := by
  rw [tokensFrom.eq_def]
  dsimp only
  split
  · rename_i h'
    rw [h] at h'
    cases h'
  · rfl

/-- A blank gives no token. -/
theorem tokensFrom_blank (p : Place) (rest : List Char) : tokensFrom p (' ' :: rest) = tokensFrom (p.after [' ']) rest :=
  tokensFrom_gap (g := ([' '], rest)) rfl

/-- With a blank behind it, the piece is cut into tokens of which the last one ends where the piece ends. -/
def Closed (p : Place) (piece : List Char) : Prop :=
  (tokensFrom p (piece ++ [' '])).getLast?.map Token.stop = some (p.offset + piece.length)

/-- A list that ends with a blank, cut in two: the blank is at the end of the second part, if there is one. -/
theorem exists_of_append_eq_concat {front back piece : List Char} (h : front ++ back = piece ++ [' ']) (hne : back ≠ []) :
    ∃ tail, back = tail ++ [' '] ∧ piece = front ++ tail := by
  obtain ⟨tail, last, rfl⟩ := List.eq_nil_or_concat back |>.resolve_left hne
  rw [List.concat_eq_append, ← List.append_assoc] at h
  obtain ⟨rfl, hlast⟩ := List.append_inj' h rfl
  exact ⟨tail, by rw [List.concat_eq_append, hlast], rfl⟩

/-- A gap at the head of a closed piece is closed, and so is the rest of the piece. -/
theorem Closed.gap {p : Place} {piece : List Char} (h : Closed p piece) {g : List Char × List Char}
    (hgap : gap? (piece ++ [' ']) = some g) :
    ∃ tail, g.2 = tail ++ [' '] ∧ piece = g.1 ++ tail ∧ Closed (p.after g.1) tail := by
  rw [Closed, tokensFrom_gap hgap] at h
  -- a gap that is not closed leaves no tokens
  have hne : g.2 ≠ [] := by
    intro hnil
    rw [hnil, tokensFrom_nil] at h
    cases h
  obtain ⟨tail, htail, hpiece⟩ := exists_of_append_eq_concat (gap?_append hgap) hne
  refine ⟨tail, htail, hpiece, ?_⟩
  rw [Closed, ← htail, h, Place.offset_after, hpiece, List.length_append, Nat.add_assoc]

/-- A lexeme at the head of a closed piece is closed, and so is the rest of the piece, if there is one. -/
theorem Closed.lexeme {p : Place} {c : Char} {cs : List Char} (h : Closed p (c :: cs)) (hgap : gap? (c :: (cs ++ [' '])) = none) :
    ∃ tail, (lexeme c (cs ++ [' '])).rest = tail ++ [' '] ∧ c :: cs = (lexeme c (cs ++ [' '])).text ++ tail ∧
      (tail = [] ∨ Closed (p.after (lexeme c (cs ++ [' '])).text) tail) := by
  rw [Closed, List.cons_append, tokensFrom_lexeme hgap] at h
  have happend : (HeaderAtlas.lexeme c (cs ++ [' '])).text ++ (HeaderAtlas.lexeme c (cs ++ [' '])).rest = c :: cs ++ [' '] :=
    lexeme_append c (cs ++ [' '])
  generalize HeaderAtlas.lexeme c (cs ++ [' ']) = l at h happend ⊢
  -- a lexeme that is not closed takes the blank too
  have hne : l.rest ≠ [] := by
    intro hnil
    rw [hnil, tokensFrom_nil, List.getLast?_singleton] at h
    have hlengths := congrArg List.length happend
    simp only [hnil, List.append_nil, List.length_cons, List.length_append, List.length_nil] at hlengths
    simp only [Token.at, Option.map_some, Option.some.injEq, List.length_cons] at h
    omega
  obtain ⟨tail, htail, hpiece⟩ := exists_of_append_eq_concat happend hne
  refine ⟨tail, htail, hpiece, ?_⟩
  have hlengths := congrArg List.length hpiece
  rw [List.length_append] at hlengths
  rw [Closed, ← htail]
  cases hlast : (tokensFrom (p.after l.text) l.rest).getLast? with
  | none =>
    rw [List.getLast?_eq_none_iff.mp hlast, List.getLast?_singleton] at h
    simp only [Token.at, Option.map_some, Option.some.injEq] at h
    exact Or.inl (List.length_eq_zero_iff.mp (by omega))
  | some last =>
    rw [List.getLast?_cons, hlast] at h
    rw [Place.offset_after, Nat.add_assoc, ← hlengths]
    exact Or.inr h

/-- The tokens of a piece with a blank behind it stand in front of those of what follows. -/
theorem tokensFrom_piece (rest : List Char) (n : Nat) : ∀ (piece : List Char) (p : Place), piece.length ≤ n →
    piece = [] ∨ Closed p piece →
    tokensFrom p (piece ++ ' ' :: rest) = tokensFrom p (piece ++ [' ']) ++ tokensFrom (p.after (piece ++ [' '])) rest := by
  have hblank : ∀ p, tokensFrom p (' ' :: rest) = tokensFrom p [' '] ++ tokensFrom (p.after [' ']) rest := by
    intro p
    rw [tokensFrom_blank, tokensFrom_blank, tokensFrom_nil]
    rfl
  induction n with
  | zero =>
    intro piece p hlength _
    obtain rfl := List.length_eq_zero_iff.mp (Nat.le_zero.mp hlength)
    exact hblank p
  | succ n ih =>
    intro piece p hlength hclosed
    cases piece with
    | nil => exact hblank p
    | cons c cs =>
      have hclosed := hclosed.resolve_left (List.cons_ne_nil c cs)
      have hmore : c :: cs ++ ' ' :: rest = c :: (cs ++ [' '] ++ rest) := by simp
      cases hgap : gap? (c :: (cs ++ [' '])) with
      | some g =>
        obtain ⟨tail, htail, hpiece, htailClosed⟩ := hclosed.gap hgap
        have hpos := List.length_pos_iff.mpr (gap?_ne_nil hgap)
        have hlengths := congrArg List.length hpiece
        rw [List.length_append] at hlengths
        have hne : g.2 ≠ [] := by rw [htail]; simp
        rw [hmore, ← List.cons_append, tokensFrom_gap (gap?_more hgap hne rest), List.cons_append, tokensFrom_gap hgap,
          ← List.cons_append, hpiece, List.append_assoc, Place.after_append, htail, List.append_assoc]
        exact ih tail _ (by omega) (Or.inr htailClosed)
      | none =>
        obtain ⟨tail, htail, hpiece, htailClosed⟩ := hclosed.lexeme hgap
        have hpos := List.length_pos_iff.mpr (lexeme_text_ne_nil c (cs ++ [' ']))
        have hlengths := congrArg List.length hpiece
        rw [List.length_append] at hlengths
        rw [hmore, tokensFrom_lexeme (gap?_eq_none_more hgap (by simp) rest), lexeme_more c (cs ++ [' ']) rest htail,
          List.cons_append, tokensFrom_lexeme hgap, ← List.cons_append, hpiece, List.append_assoc,
          Place.after_append, htail, List.append_assoc]
        exact congrArg (List.cons _) (ih tail _ (by omega) htailClosed)

/-! ## The tokens at another place -/

/-- The token moved on by `k` characters, without its location. -/
def Token.moved (k : Nat) (t : Token) : Token := ⟨t.kind, t.start + k, t.stop + k, ⟨0, 0⟩⟩

/-- The tokens of a text at two places differ by the distance of the places only. -/
theorem moved_tokensFrom (k : Nat) (q : Place) (cs : List Char) : ∀ p : Place, p.offset = q.offset + k →
    (tokensFrom p cs).map (Token.moved 0) = (tokensFrom q cs).map (Token.moved k) := by
  fun_induction tokensFrom q cs with
  | case1 q =>
    intro p _
    rw [tokensFrom_nil]
    rfl
  | case2 q c cs g hgap ih =>
    intro p hp
    rw [tokensFrom_gap hgap]
    exact ih _ (by rw [Place.offset_after, Place.offset_after]; omega)
  | case3 q c cs hgap l ih =>
    intro p hp
    have hrest : ∀ text : List Char, (p.after text).offset = (q.after text).offset + k := by
      intro text
      rw [Place.offset_after, Place.offset_after]
      omega
    have hfirst : ∀ kind length, (Token.at p kind length).moved 0 = (Token.at q kind length).moved k := by
      intro kind length
      simp only [Token.moved, Token.at, Token.mk.injEq, true_and, and_true]
      omega
    rw [tokensFrom_lexeme hgap, List.map_cons, List.map_cons, ih _ (hrest _), hfirst]

/-- Words make a compound at every place. -/
theorem compoundAt?_moved (k : Nat) (t : Token) (ts : List Token) :
    compoundAt? (t.moved k) (ts.map (Token.moved k)) = compoundAt? t ts := by
  have hhead : ∀ us : List Token, (us.map (Token.moved k)).head?.bind Token.word? = us.head?.bind Token.word? := by
    intro us
    cases us <;> rfl
  rw [compoundAt?, compoundAt?, hhead, ← List.map_drop, hhead]
  rfl

/-- Folding goes the same way at every place. -/
theorem foldCompounds_moved (k : Nat) (ts : List Token) :
    foldCompounds (ts.map (Token.moved k)) = (foldCompounds ts).map (Token.moved k) := by
  fun_induction foldCompounds ts with
  | case1 => rw [List.map_nil, foldCompounds]
  | case2 t ts name n hcompound ih =>
    have hfold : (t.moved k).fold name ((ts.take n).map (Token.moved k)) = (t.fold name (ts.take n)).moved k := by
      rw [Token.fold, Token.fold, List.getLast?_map]
      cases (ts.take n).getLast? <;> rfl
    rw [List.map_cons, foldCompounds, compoundAt?_moved, hcompound]
    dsimp only
    rw [← List.map_take, ← List.map_drop, hfold, ih, List.map_cons]
  | case3 t ts hcompound ih =>
    rw [List.map_cons, foldCompounds, compoundAt?_moved, hcompound]
    dsimp only
    rw [ih, List.map_cons]

/-- The tokens of a text at a place are those of the text alone, moved on. -/
theorem moved_foldCompounds (p : Place) (cs : List Char) :
    (foldCompounds (tokensFrom p cs)).map (Token.moved 0) = (tokens cs).map (Token.moved p.offset) := by
  rw [← foldCompounds_moved, moved_tokensFrom p.offset .start cs p (Nat.zero_add _).symm, foldCompounds_moved, tokens]

/-! ## Folding part by part -/

/-- The words that a primitive type of several words begins with. -/
def foldedWords : List String := ["short", "long", "signed", "unsigned"]

/-- A compound begins with one of four words. -/
theorem compoundName?_of_not_mem {first second third : Option String} (h : ∀ name, first = some name → name ∉ foldedWords) :
    compoundName? first second third = none := by
  unfold compoundName?
  split <;> first | rfl | exact absurd (by decide) (h _ rfl)

/-- Any other token stays in front of what is folded. -/
theorem foldCompounds_cons {t : Token} (ts : List Token) (h : ∀ name, t.word? = some name → name ∉ foldedWords) :
    foldCompounds (t :: ts) = t :: foldCompounds ts := by
  rw [foldCompounds, compoundAt?, compoundName?_of_not_mem h]

/-- The third word counts only where there is a second one. -/
theorem compoundName?_second_none (first third : Option String) :
    compoundName? first none third = compoundName? first none none := by
  unfold compoundName?
  split <;> simp_all

/-- A compound takes the second and third word only where they are. -/
theorem le_of_compoundName? {first second third : Option String} {name : String} {n : Nat}
    (h : compoundName? first second third = some (name, n)) :
    n = 0 ∨ (n = 1 ∧ second.isSome) ∨ (n = 2 ∧ second.isSome ∧ third.isSome) := by
  unfold compoundName? at h
  split at h <;> simp_all

/-- Only words that are there are folded. -/
theorem le_length_of_compoundAt? {t : Token} {ts : List Token} {name : String} {n : Nat} (h : compoundAt? t ts = some (name, n)) :
    n ≤ ts.length := by
  match ts, le_of_compoundName? h with
  | _, .inl hn => omega
  | [], .inr (.inl ⟨_, hsecond⟩) => cases hsecond
  | [], .inr (.inr ⟨_, hsecond, _⟩) => cases hsecond
  | [_], .inr (.inr ⟨_, _, hthird⟩) => cases hthird
  | _ :: _, .inr (.inl ⟨hn, _⟩) => simp [hn]
  | _ :: _ :: _, .inr (.inr ⟨hn, _, _⟩) => simp [hn]

/-- No compound reaches into what begins with no word. -/
theorem compoundAt?_append {t : Token} {ts us : List Token} (h : us.head?.bind Token.word? = none) :
    compoundAt? t (ts ++ us) = compoundAt? t ts := by
  match ts with
  | [] => rw [compoundAt?, compoundAt?, List.nil_append, h, compoundName?_second_none]; rfl
  | [u] => rw [compoundAt?, compoundAt?, List.singleton_append, List.drop_one, List.tail_cons, h]; rfl
  | _ :: _ :: _ => rfl

/-- A third word that is not folded does not matter. -/
theorem compoundName?_of_le_one {first second third : Option String}
    (h : ∀ r, compoundName? first second third = some r → r.2 ≤ 1) :
    compoundName? first second none = compoundName? first second third := by
  unfold compoundName? at h ⊢
  split at h <;> simp_all

/-- Words behind a first one that stands alone do not matter. -/
theorem compoundName?_of_eq_zero {first second third : Option String}
    (h : ∀ r, compoundName? first second third = some r → r.2 = 0) :
    compoundName? first none none = compoundName? first second third := by
  unfold compoundName? at h ⊢
  split at h <;> simp_all

/-- What is folded depends on nothing behind it. -/
theorem compoundAt?_of_append {t : Token} {ts us : List Token} (h : ∀ r, compoundAt? t (ts ++ us) = some r → r.2 ≤ ts.length) :
    compoundAt? t ts = compoundAt? t (ts ++ us) := by
  cases ts with
  | nil => exact compoundName?_of_eq_zero fun r hr => Nat.le_zero.mp (h r hr)
  | cons u ts =>
    cases ts with
    | nil => exact compoundName?_of_le_one h
    | cons v ts => rfl

/-- Words are not folded over a token that is no word. -/
theorem foldCompounds_append (ts : List Token) {us : List Token} (h : us.head?.bind Token.word? = none) :
    foldCompounds (ts ++ us) = foldCompounds ts ++ foldCompounds us := by
  fun_induction foldCompounds ts with
  | case1 => rfl
  | case2 t ts name n hcompound ih =>
    have hle := le_length_of_compoundAt? hcompound
    rw [List.cons_append, foldCompounds, compoundAt?_append h, hcompound]
    dsimp only
    rw [List.take_append_of_le_length hle, List.drop_append_of_le_length hle, ih, List.cons_append]
  | case3 t ts hcompound ih =>
    rw [List.cons_append, foldCompounds, compoundAt?_append h, hcompound]
    dsimp only
    rw [ih, List.cons_append]

/-- Folding keeps where the last token ends. -/
theorem stop_getLast_foldCompounds (ts : List Token) :
    (foldCompounds ts).getLast?.map Token.stop = ts.getLast?.map Token.stop := by
  fun_induction foldCompounds ts with
  | case1 => rfl
  | case2 t ts name n _ ih =>
    obtain ⟨u, -, hstop, hlast⟩ := stop_fold t name (ts.take n)
    have hsplit : t :: ts = (t :: ts.take n) ++ ts.drop n := by rw [List.cons_append, List.take_append_drop]
    rw [hsplit, List.getLast?_append, Option.map_or, hlast, ← ih, ← List.singleton_append, List.getLast?_append, Option.map_or,
      List.getLast?_singleton, Option.map_some, Option.map_some, hstop]
  | case3 t ts _ ih =>
    rw [← List.singleton_append, List.getLast?_append, Option.map_or, ih, ← Option.map_or, ← List.getLast?_append]
    rfl

/-! ## Pieces of one token -/

/-- With a blank behind them, the characters are one token of this kind. -/
def Lone (kind : Token.Kind) (cs : List Char) : Prop := ∀ p, tokensFrom p (cs ++ [' ']) = [Token.at p kind cs.length]

/-- A lexeme in front of a blank is a token alone. -/
theorem Lone.of_lexeme {kind : Token.Kind} {c : Char} {cs : List Char} (hgap : gap? (c :: (cs ++ [' '])) = none)
    (hlexeme : lexeme c (cs ++ [' ']) = ⟨kind, c :: cs, [' ']⟩) : Lone kind (c :: cs) := by
  intro p
  rw [List.cons_append, tokensFrom_lexeme hgap, hlexeme]
  dsimp only
  rw [tokensFrom_blank, tokensFrom_nil]

/-- A character that is neither a blank, nor `#` nor `/` begins no gap. -/
theorem gap?_eq_none {c : Char} (hblank : Text.isBlank c = false) (hhash : c ≠ '#') (hslash : c ≠ '/') (cs : List Char) :
    gap? (c :: cs) = none := by
  simp only [gap?, hblank, beq_eq_false_iff_ne.mpr hhash, beq_eq_false_iff_ne.mpr hslash, Bool.false_eq_true, if_false]

end HeaderAtlas
