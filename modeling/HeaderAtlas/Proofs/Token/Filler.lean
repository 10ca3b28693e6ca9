import HeaderAtlas.Proofs.Token.Cell

/-!
# What stands between tokens

What the cuts of a text leave out is made of blanks, comments and directives (`Filler`), said here by what they look like and not by
how they are passed over. Every character of a text is covered by a token or belongs to such a filler, which no token reaches into
(`Padded.covers`). Folding keeps this, since what stands between folded words is covered by the token they are folded into. The
other way round, fillers that have been ended are passed over, whatever token stands behind them (`Fillers.gaps`).
-/

namespace HeaderAtlas

/-! ## Fillers -/

/-- Every newline stands directly behind a backslash. -/
def Continued (cs : List Char) : Prop := ∀ front back, cs = front ++ '\n' :: back → ['\\'] <:+ front

/-- A blank, a comment or a directive in front of `rest`. A comment or a directive that nothing ends runs to the end of the text. -/
inductive Filler : List Char → List Char → Prop where
  | blank {c : Char} (rest : List Char) (h : Text.isBlank c = true) : Filler [c] rest
  | line {body : List Char} (rest : List Char) (h : '\n' ∉ body) : Filler ('/' :: '/' :: (body ++ ['\n'])) rest
  | lastLine {body : List Char} (h : '\n' ∉ body) : Filler ('/' :: '/' :: body) []
  | comment {body : List Char} (rest : List Char) (h : ¬['*', '/'] <:+: body ++ ['*']) :
      Filler ('/' :: '*' :: (body ++ ['*', '/'])) rest
  | lastComment {body : List Char} (h : ¬['*', '/'] <:+: body) : Filler ('/' :: '*' :: body) []
  | directive {body : List Char} (rest : List Char) (h : Continued ('#' :: body)) (hend : ¬['\\'] <:+ '#' :: body) :
      Filler ('#' :: body ++ ['\n']) rest
  | lastDirective {body : List Char} (h : Continued ('#' :: body)) : Filler ('#' :: body) []

/-- A filler with something behind it has been ended, so it does not matter what that is. -/
theorem Filler.closed {piece rest : List Char} (h : Filler piece rest) (hne : rest ≠ []) (rest' : List Char) :
    Filler piece rest' := by
  cases h with
  | blank _ h => exact .blank rest' h
  | line _ h => exact .line rest' h
  | comment _ h => exact .comment rest' h
  | directive _ h hend => exact .directive rest' h hend
  | lastLine | lastComment | lastDirective => exact absurd rfl hne

/-- A line ends with the first newline, or with the text. -/
theorem lineBody_cases (cs : List Char) :
    (∃ body, (lineBody cs).1 = body ++ ['\n'] ∧ '\n' ∉ body) ∨ '\n' ∉ (lineBody cs).1 ∧ (lineBody cs).2 = [] := by
  fun_induction lineBody cs with
  | case1 => exact Or.inr ⟨List.not_mem_nil, rfl⟩
  | case2 c cs hc => exact Or.inl ⟨[], by rw [eq_of_beq hc]; rfl, List.not_mem_nil⟩
  | case3 c cs hc r ih =>
    have hcons : ∀ {body : List Char}, '\n' ∉ body → '\n' ∉ c :: body := fun hn h =>
      (List.mem_cons.mp h).elim (fun he => hc (beq_iff_eq.mpr he.symm)) hn
    rcases ih with ⟨body, hbody, hn⟩ | ⟨hn, hrest⟩
    · exact Or.inl ⟨c :: body, congrArg (c :: ·) hbody, hcons hn⟩
    · exact Or.inr ⟨hcons hn, hrest⟩

/-- A comment ends with the first `*/`, or with the text. -/
theorem commentBody_cases (cs : List Char) :
    (∃ body, (commentBody cs).1 = body ++ ['*', '/'] ∧ ¬['*', '/'] <:+: body ++ ['*']) ∨
      ¬['*', '/'] <:+: (commentBody cs).1 ∧ (commentBody cs).2 = [] := by
  have hshort : ∀ c : Char, ¬['*', '/'] <:+: [c] := fun c h => absurd h.length_le (by simp)
  fun_induction commentBody cs with
  | case1 => exact Or.inr ⟨fun h => absurd h.length_le (by simp), rfl⟩
  | case2 c => exact Or.inr ⟨hshort c, rfl⟩
  | case3 c d cs hc =>
    simp only [Bool.and_eq_true, beq_iff_eq] at hc
    exact Or.inl ⟨[], by rw [hc.1, hc.2]; rfl, hshort '*'⟩
  | case4 c d cs hc r ih =>
    -- what is taken behind the first character begins with the second, so no end lies across the two
    obtain ⟨tail, htail⟩ := exists_eq_cons_of_append_eq (commentBody_append (d :: cs)) (commentBody_ne_nil d cs)
    have hcons : ∀ {body : List Char}, (∀ e more, body = e :: more → e = d) → ¬['*', '/'] <:+: body →
        ¬['*', '/'] <:+: c :: body := by
      intro body hhead hbody h
      rcases List.infix_cons_iff.mp h with h | h
      · obtain ⟨rfl, more, hmore⟩ := List.cons_prefix_cons.mp h
        have := hhead '/' more (by simpa using hmore.symm)
        simp [← this] at hc
      · exact hbody h
    rcases ih with ⟨body, hbody, hn⟩ | ⟨hn, hrest⟩
    · have htaken : (body ++ ['*']) ++ ['/'] = d :: tail := by
        rw [List.append_assoc]
        exact hbody.symm.trans htail
      have hhead : ∀ e more, body ++ ['*'] = e :: more → e = d := by
        intro e more he
        rw [he] at htaken
        exact (List.cons.inj htaken).1
      exact Or.inl ⟨c :: body, congrArg (c :: ·) hbody, hcons hhead hn⟩
    · refine Or.inr ⟨hcons ?_ hn, hrest⟩
      intro e more he
      exact (List.cons.inj (htail.symm.trans he)).1.symm

/-- A text stays continued with one character more that is no newline. -/
theorem continued_cons {c : Char} {cs : List Char} (hc : c ≠ '\n') (h : Continued cs) : Continued (c :: cs) := by
  intro front back hsplit
  cases front with
  | nil => exact absurd (List.cons.inj hsplit).1 hc
  | cons e front => exact (h front back (List.cons.inj hsplit).2).trans (List.suffix_cons e front)

/-- A text stays continued with one newline more that a backslash stands in front of. -/
theorem continued_cons_cons {cs : List Char} (h : Continued cs) : Continued ('\\' :: '\n' :: cs) := by
  intro front back hsplit
  cases front with
  | nil => simp at hsplit
  | cons e front =>
    cases front with
    | nil =>
      obtain rfl : '\\' = e := (List.cons.inj hsplit).1
      exact List.suffix_refl _
    | cons f front =>
      have hcs := h front back (List.cons.inj (List.cons.inj hsplit).2).2
      exact hcs.trans ((List.suffix_cons f front).trans (List.suffix_cons e (f :: front)))

/-- A directive ends with the first newline that no backslash continues, or with the text. -/
theorem directiveBody_cases (cs : List Char) :
    (∃ body, (directiveBody cs).1 = body ++ ['\n'] ∧ Continued body ∧ ¬['\\'] <:+ body) ∨
      Continued (directiveBody cs).1 ∧ (directiveBody cs).2 = [] := by
  have hnil : Continued [] := fun front back h => by simp at h
  fun_induction directiveBody cs with
  | case1 => exact Or.inr ⟨hnil, rfl⟩
  | case2 c =>
    by_cases hc : c = '\n'
    · exact Or.inl ⟨[], by rw [hc]; rfl, hnil, by simp⟩
    · exact Or.inr ⟨continued_cons hc hnil, rfl⟩
  | case3 c d cs hcd r ih =>
    simp only [Bool.and_eq_true, beq_iff_eq] at hcd
    obtain ⟨rfl, rfl⟩ := hcd
    rcases ih with ⟨body, hbody, hcont, hend⟩ | ⟨hcont, hrest⟩
    · refine Or.inl ⟨'\\' :: '\n' :: body, congrArg ('\\' :: '\n' :: ·) hbody, continued_cons_cons hcont, ?_⟩
      simp [List.suffix_cons_iff, hend]
    · exact Or.inr ⟨continued_cons_cons hcont, hrest⟩
  | case4 c d cs _ hc => exact Or.inl ⟨[], by rw [eq_of_beq hc]; rfl, hnil, by simp⟩
  | case5 c d cs hcd hc r ih =>
    have hne : c ≠ '\n' := by simpa using hc
    rcases ih with ⟨body, hbody, hcont, hend⟩ | ⟨hcont, hrest⟩
    · refine Or.inl ⟨c :: body, congrArg (c :: ·) hbody, continued_cons hne hcont, ?_⟩
      intro h
      rcases List.suffix_cons_iff.mp h with h | h
      · -- a backslash with nothing behind it was not followed by the newline
        obtain ⟨rfl, rfl⟩ := List.cons.inj h
        obtain ⟨tail, htail⟩ := exists_eq_cons_of_append_eq (directiveBody_append (d :: cs)) (directiveBody_ne_nil d cs)
        have hd : '\n' = d := (List.cons.inj (hbody.symm.trans htail)).1
        simp [← hd] at hcd
      · exact hend h
    · exact Or.inr ⟨continued_cons hne hcont, hrest⟩

/-- What a gap can be. -/
theorem gap?_cases {cs : List Char} {g : List Char × List Char} (h : gap? cs = some g) :
    (∃ c rest, Text.isBlank c = true ∧ g = ([c], rest)) ∨ (∃ rest, g = directiveBody ('#' :: rest)) ∨
      (∃ rest, g = ('/' :: '/' :: (lineBody rest).1, (lineBody rest).2)) ∨
      ∃ rest, g = ('/' :: '*' :: (commentBody rest).1, (commentBody rest).2) := by
  unfold gap? at h
  split at h
  · cases h
  · rename_i c cs
    split at h
    · rename_i hblank
      exact Or.inl ⟨c, cs, hblank, (Option.some.inj h).symm⟩
    · split at h
      · rename_i hc
        obtain rfl := eq_of_beq hc
        exact Or.inr (Or.inl ⟨cs, (Option.some.inj h).symm⟩)
      · split at h
        · rename_i hc
          obtain rfl := eq_of_beq hc
          split at h
          · cases h
          · rename_i d ds
            split at h
            · rename_i hd
              obtain rfl := eq_of_beq hd
              exact Or.inr (Or.inr (Or.inl ⟨ds, (Option.some.inj h).symm⟩))
            · split at h
              · rename_i hd
                obtain rfl := eq_of_beq hd
                exact Or.inr (Or.inr (Or.inr ⟨ds, (Option.some.inj h).symm⟩))
              · cases h
        · cases h

/-- What a `#` takes is a directive. -/
theorem filler_directiveBody (rest : List Char) :
    Filler (directiveBody ('#' :: rest)).1 (directiveBody ('#' :: rest)).2 := by
  obtain ⟨tail, htail⟩ := exists_eq_cons_of_append_eq (directiveBody_append ('#' :: rest)) (directiveBody_ne_nil '#' rest)
  rcases directiveBody_cases ('#' :: rest) with ⟨body, hbody, hcont, hend⟩ | ⟨hcont, hrest⟩
  · cases body with
    | nil => simp [htail] at hbody
    | cons e body =>
      obtain rfl : '#' = e := (List.cons.inj (htail.symm.trans hbody)).1
      rw [hbody]
      exact .directive _ hcont hend
  · rw [hrest, htail]
    exact .lastDirective (htail ▸ hcont)

/-- What is passed over as a gap is a filler. -/
theorem filler_of_gap? {cs : List Char} {g : List Char × List Char} (h : gap? cs = some g) : Filler g.1 g.2 := by
  rcases gap?_cases h with ⟨c, rest, hblank, rfl⟩ | ⟨rest, rfl⟩ | ⟨rest, rfl⟩ | ⟨rest, rfl⟩
  · exact .blank rest hblank
  · exact filler_directiveBody rest
  · rcases lineBody_cases rest with ⟨body, hbody, hn⟩ | ⟨hn, hrest⟩
    · simp only [hbody]
      exact .line _ hn
    · simp only [hrest]
      exact .lastLine hn
  · rcases commentBody_cases rest with ⟨body, hbody, hn⟩ | ⟨hn, hrest⟩
    · simp only [hbody]
      exact .comment _ hn
    · simp only [hrest]
      exact .lastComment hn

/-- In front of `rest`, fillers one behind the other. -/
inductive Fillers : List Char → List Char → Prop where
  | nil (rest : List Char) : Fillers [] rest
  | cons {piece more rest : List Char} (hpiece : Filler piece (more ++ rest)) (h : Fillers more rest) :
      Fillers (piece ++ more) rest

/-- Gaps are made of blanks, comments and directives. -/
theorem Gaps.fillers {gaps rest : List Char} (h : Gaps gaps rest) : Fillers gaps rest := by
  induction h with
  | nil rest => exact .nil rest
  | cons hgap _ ih => exact .cons (filler_of_gap? hgap) ih

/-- Fillers that something stands behind have been ended, and are fillers in front of anything. -/
theorem Fillers.closed {gaps rest : List Char} (h : Fillers gaps rest) (hne : rest ≠ []) (rest' : List Char) :
    Fillers gaps rest' := by
  induction h with
  | nil => exact .nil rest'
  | cons hpiece _ ih => exact .cons (hpiece.closed (by simp [hne]) _) (ih hne)

/-- Every character of fillers belongs to one of them. -/
theorem Fillers.exists_piece {gaps rest : List Char} (h : Fillers gaps rest) {i : Nat} (hi : i < gaps.length) :
    ∃ before piece after, gaps = before ++ (piece ++ after) ∧ before.length ≤ i ∧ i < before.length + piece.length ∧
      Filler piece (after ++ rest) := by
  induction h generalizing i with
  | nil => simp at hi
  | @cons piece more rest hpiece _ ih =>
    by_cases hin : i < piece.length
    · exact ⟨[], piece, more, rfl, Nat.zero_le _, by simpa using hin, hpiece⟩
    · rw [List.length_append] at hi
      obtain ⟨before, found, after, hsplit, hle, hlt, hfound⟩ := ih (i := i - piece.length) (by omega)
      refine ⟨piece ++ before, found, after, by rw [hsplit, List.append_assoc], ?_, ?_, hfound⟩
      · rw [List.length_append]
        omega
      · rw [List.length_append]
        omega

/-! ## Gaps from fillers -/

/-- A line is taken with its newline. -/
theorem lineBody_line {body : List Char} (h : '\n' ∉ body) (rest : List Char) :
    lineBody (body ++ '\n' :: rest) = (body ++ ['\n'], rest) := by
  induction body with
  | nil => rfl
  | cons c body ih =>
    rw [List.mem_cons, not_or] at h
    rw [List.cons_append, lineBody, if_neg (by simpa using Ne.symm h.1), ih h.2, List.cons_append]

/-- A comment is taken with its `*/`. -/
theorem commentBody_comment {body : List Char} (h : ¬['*', '/'] <:+: body ++ ['*']) (rest : List Char) :
    commentBody (body ++ '*' :: '/' :: rest) = (body ++ ['*', '/'], rest) := by
  induction body with
  | nil => rfl
  | cons c body ih =>
    have hbody := ih fun hend => h (hend.trans (List.suffix_cons c _).isInfix)
    have hopen : ∀ d ds, body ++ '*' :: '/' :: rest = d :: ds → ¬(c == '*' && d == '/') = true := by
      intro d ds hds hcd
      simp only [Bool.and_eq_true, beq_iff_eq] at hcd
      obtain ⟨rfl, rfl⟩ := hcd
      cases body with
      | nil => cases hds
      | cons e body =>
        obtain ⟨rfl, -⟩ := List.cons.inj hds
        exact h ⟨[], body ++ ['*'], rfl⟩
    obtain ⟨d, ds, hds⟩ := List.exists_cons_of_ne_nil (List.append_ne_nil_of_right_ne_nil body (List.cons_ne_nil '*' ('/' :: rest)))
    rw [hds] at hbody
    rw [List.cons_append, hds, commentBody, if_neg (hopen d ds hds), hbody, List.cons_append]

/-- A directive is taken with the newline that ends it, over those that are continued. -/
theorem directiveBody_directive (rest : List Char) {cs : List Char} :
    ∀ body, cs = body ++ '\n' :: rest → Continued body → ¬['\\'] <:+ body → directiveBody cs = (body ++ ['\n'], rest) := by
  fun_induction directiveBody cs with
  | case1 =>
    intro body hcs
    simp at hcs
  | case2 c =>
    intro body hcs _ _
    cases body with
    | nil =>
      cases hcs
      rfl
    | cons e body => simp at hcs
  | case3 c d cs hcd r ih =>
    intro body hcs hcont hend
    simp only [Bool.and_eq_true, beq_iff_eq] at hcd
    obtain ⟨rfl, rfl⟩ := hcd
    cases body with
    | nil => cases hcs
    | cons e body =>
      obtain ⟨rfl, htail⟩ := List.cons.inj hcs
      cases body with
      | nil => exact absurd (List.suffix_refl _) hend
      | cons f body =>
        obtain ⟨rfl, hrest⟩ := List.cons.inj htail
        have hbody : Continued body := by
          intro front back hsplit
          have hlast := hcont ('\\' :: '\n' :: front) back (by rw [hsplit, List.cons_append, List.cons_append])
          simpa [List.suffix_cons_iff] using hlast
        have hr : r = (body ++ ['\n'], rest) :=
          ih body hrest hbody fun hlast => hend (hlast.trans (List.suffix_append ['\\', '\n'] body))
        rw [hr, List.cons_append, List.cons_append]
  | case4 c d cs _ hc =>
    intro body hcs hcont _
    obtain rfl := eq_of_beq hc
    cases body with
    | nil =>
      cases hcs
      rfl
    | cons e body =>
      obtain ⟨rfl, -⟩ := List.cons.inj hcs
      exact absurd (hcont [] body rfl) (by simp)
  | case5 c d cs hcd hc r ih =>
    intro body hcs hcont hend
    cases body with
    | nil => exact absurd (beq_iff_eq.mpr (List.cons.inj hcs).1) hc
    | cons e body =>
      obtain ⟨rfl, htail⟩ := List.cons.inj hcs
      have hbody : Continued body := by
        intro front back hsplit
        rcases List.suffix_cons_iff.mp (hcont (c :: front) back (by rw [hsplit, List.cons_append])) with heq | hfront
        · -- a backslash in front of the newline would have been passed with it
          obtain ⟨rfl, rfl⟩ := List.cons.inj heq
          subst hsplit
          cases htail
          cases hcd rfl
        · exact hfront
      have hr : r = (body ++ ['\n'], rest) := ih body htail hbody fun hlast => hend (hlast.trans (List.suffix_cons c body))
      rw [hr, List.cons_append]

/-- A filler that has been ended is passed over as a gap. -/
theorem Filler.gap? {piece rest : List Char} (h : Filler piece rest) (hne : rest ≠ []) :
    HeaderAtlas.gap? (piece ++ rest) = some (piece, rest) := by
  cases h with
  | blank _ h => exact if_pos h
  | @line body _ h =>
    change some ('/' :: '/' :: (lineBody ((body ++ ['\n']) ++ rest)).1, (lineBody ((body ++ ['\n']) ++ rest)).2) = _
    rw [List.append_assoc, List.singleton_append, lineBody_line h]
  | @comment body _ h =>
    change some ('/' :: '*' :: (commentBody ((body ++ ['*', '/']) ++ rest)).1, (commentBody ((body ++ ['*', '/']) ++ rest)).2) = _
    rw [List.append_assoc, List.cons_append, List.singleton_append, commentBody_comment h]
  | @directive body _ h hend =>
    change some (directiveBody (('#' :: body ++ ['\n']) ++ rest)) = _
    rw [List.append_assoc, List.singleton_append, directiveBody_directive rest _ rfl h hend]
  | lastLine | lastComment | lastDirective => exact absurd rfl hne

/-- Fillers that something stands behind are passed over. -/
theorem Fillers.gaps {gaps rest : List Char} (h : Fillers gaps rest) (hne : rest ≠ []) : Gaps gaps rest := by
  induction h with
  | nil rest => exact .nil rest
  | cons hpiece _ ih => exact .cons (hpiece.gap? (List.append_ne_nil_of_right_ne_nil _ hne)) (ih hne)

/-! ## Texts of tokens and fillers -/

/-- The text of the cells with `trail` behind it has nothing but fillers between what the cells cover. -/
def Padded : List Cell → List Char → Prop
  | [], trail => Fillers trail []
  | c :: cells, trail => Fillers c.gap (c.text ++ (cellsText cells ++ trail)) ∧ Padded cells trail

/-- The cells of a text are padded by fillers. -/
theorem Laid.padded {cells : List Cell} {trail : List Char} (h : Laid cells trail) : Padded cells trail := by
  induction cells with
  | nil => exact Gaps.fillers h
  | cons c cells ih => exact ⟨h.1.fillers, ih h.2.2⟩

/-- The last cells are padded. -/
theorem Padded.of_append {front cells : List Cell} {trail : List Char} (h : Padded (front ++ cells) trail) :
    Padded cells trail := by
  induction front with
  | nil => exact h
  | cons c front ih => exact ih h.2

/-- Folded cells are padded: the fillers between their words are covered. -/
theorem Padded.foldCells {cells : List Cell} {trail : List Char} (h : Padded cells trail) : Padded (foldCells cells) trail := by
  fun_induction HeaderAtlas.foldCells cells with
  | case1 => exact h
  | case2 c cells name n _ ih =>
    obtain ⟨hgap, hcells⟩ := h
    rw [← List.take_append_drop n cells] at hgap hcells
    refine ⟨?_, ih hcells.of_append⟩
    rw [cellsText_foldCells]
    simpa only [cellsText_append, List.append_assoc] using hgap
  | case3 c cells _ ih =>
    refine ⟨?_, ih h.2⟩
    rw [cellsText_foldCells]
    exact h.1

/-- No token begins before the place of its cells. -/
theorem offset_le_of_mem_cellTokens {cells : List Cell} {p : Place} {t : Token} (h : t ∈ cellTokens p cells) :
    p.offset ≤ t.start := by
  induction cells generalizing p with
  | nil => simp [cellTokens] at h
  | cons c cells ih =>
    rcases List.mem_cons.mp h with rfl | h
    · simp [Token.at]
    · have hle := ih h
      rw [Place.offset_after] at hle
      omega

/-- The gaps of the first cell lie before all tokens. -/
theorem gap_le_of_mem_cellTokens {c : Cell} {cells : List Cell} {p : Place} {t : Token} (h : t ∈ cellTokens p (c :: cells)) :
    p.offset + c.gap.length ≤ t.start := by
  rcases List.mem_cons.mp h with rfl | h
  · simp [Token.at]
  · have hle := offset_le_of_mem_cellTokens h
    rw [Place.offset_after, Cell.chars, List.length_append] at hle
    omega

/-- Every character is covered by a token or belongs to a filler that no token reaches into. -/
theorem Padded.covers {cells : List Cell} {trail : List Char} (h : Padded cells trail) (p : Place) {i : Nat}
    (hi : i < (cellsText cells ++ trail).length) :
    (∃ t ∈ cellTokens p cells, t.start ≤ p.offset + i ∧ p.offset + i < t.stop) ∨
      ∃ before piece after, cellsText cells ++ trail = before ++ (piece ++ after) ∧ before.length ≤ i ∧
        i < before.length + piece.length ∧ Filler piece after ∧
        ∀ t ∈ cellTokens p cells, t.stop ≤ p.offset + before.length ∨ p.offset + (before.length + piece.length) ≤ t.start := by
  induction cells generalizing p i with
  | nil =>
    obtain ⟨before, piece, after, hsplit, hle, hlt, hpiece⟩ := Fillers.exists_piece h hi
    rw [List.append_nil] at hpiece
    exact Or.inr ⟨before, piece, after, hsplit, hle, hlt, hpiece, by simp [cellTokens]⟩
  | cons c cells ih =>
    obtain ⟨hgap, hcells⟩ := h
    have htext : cellsText (c :: cells) ++ trail = c.gap ++ (c.text ++ (cellsText cells ++ trail)) := by
      rw [cellsText_cons, List.append_assoc, List.append_assoc]
    rw [htext] at hi ⊢
    simp only [List.length_append] at hi
    by_cases hingap : i < c.gap.length
    · obtain ⟨before, piece, after, hsplit, hle, hlt, hpiece⟩ := hgap.exists_piece hingap
      have hlength := congrArg List.length hsplit
      simp only [List.length_append] at hlength
      refine Or.inr ⟨before, piece, after ++ (c.text ++ (cellsText cells ++ trail)), ?_, hle, hlt, hpiece, fun t ht => ?_⟩
      · rw [hsplit, List.append_assoc, List.append_assoc]
      · have hstart := gap_le_of_mem_cellTokens ht
        omega
    · by_cases hintext : i < c.gap.length + c.text.length
      · refine Or.inl ⟨_, List.mem_cons_self, ?_⟩
        simp only [Token.at, Place.offset_after]
        omega
      · -- behind the first cell, whose token ends where the next one begins
        have hchars : (p.after c.chars).offset = p.offset + (c.gap.length + c.text.length) := by
          rw [Place.offset_after, Cell.chars, List.length_append]
        have hrest : i - (c.gap.length + c.text.length) < (cellsText cells ++ trail).length := by
          rw [List.length_append]
          omega
        rcases ih hcells (p.after c.chars) hrest with
          ⟨t, ht, hcovered⟩ | ⟨before, piece, after, hsplit, hle, hlt, hpiece, hclear⟩
        · exact Or.inl ⟨t, List.mem_cons_of_mem _ ht, by omega⟩
        · refine Or.inr ⟨c.gap ++ (c.text ++ before), piece, after, ?_, ?_, ?_, hpiece, ?_⟩
          · rw [hsplit, List.append_assoc, List.append_assoc]
          · simp only [List.length_append]
            omega
          · simp only [List.length_append]
            omega
          · simp only [List.length_append]
            refine List.forall_mem_cons.mpr ⟨?_, fun t ht => ?_⟩
            · simp only [Token.at, Place.offset_after]
              omega
            · have hclear := hclear t ht
              omega

end HeaderAtlas
