import HeaderAtlas.Proofs.Token.Rendering

/-!
# What a piece sees of the text behind it

A lexeme is cut off a text by its own characters and at most the next two: a number looks behind an exponent letter. So a lexeme
stays the same when what stands behind it is replaced by nothing, by something that begins with a blank, or by a text that begins
alike (`InPlaceOf`, `lexeme_inPlaceOf`). A gap that does not run to the end of the text ends by its own last characters, and
anything may stand behind it (`gap?_closed`). Only what is not closed, quoted text or a comment, takes all there is.
-/

namespace HeaderAtlas

/-! ## Characters that do not go on -/

/-- The text does not begin with a character of class `p`. -/
def Stops (p : Char → Bool) (cs : List Char) : Prop := ∀ c, cs.head? = some c → p c = false

/-- What is left stops the test that took the rest. -/
theorem stops_dropWhile (p : Char → Bool) (cs : List Char) : Stops p (cs.dropWhile p) := by
  intro c hc
  have hnot := List.head?_dropWhile_not p cs
  rw [hc] at hnot
  exact hnot

/-- A text stops a test by its first character, or by what follows if it has none. -/
theorem Stops.append {p : Char → Bool} {cs rest : List Char} (hcs : ∀ c ∈ cs, p c = false) (hrest : cs = [] → Stops p rest) :
    Stops p (cs ++ rest) := by
  cases cs with
  | nil => exact hrest rfl
  | cons c cs =>
    rintro _ ⟨⟩
    exact hcs c List.mem_cons_self

/-- What passes a test is taken up to what stops it. -/
theorem takeWhile_append_of_stops {p : Char → Bool} {cs rest : List Char} (hcs : ∀ c ∈ cs, p c = true) (h : Stops p rest) :
    (cs ++ rest).takeWhile p = cs := by
  rw [List.takeWhile_append_of_pos hcs]
  cases rest with
  | nil => rw [List.takeWhile_nil, List.append_nil]
  | cons c rest => rw [List.takeWhile_cons, h c rfl, if_neg Bool.false_ne_true, List.append_nil]

/-- What stops a test is left. -/
theorem dropWhile_append_of_stops {p : Char → Bool} {cs rest : List Char} (hcs : ∀ c ∈ cs, p c = true) (h : Stops p rest) :
    (cs ++ rest).dropWhile p = rest := by
  rw [List.dropWhile_append_of_pos hcs]
  cases rest with
  | nil => rfl
  | cons c rest => rw [List.dropWhile_cons, h c rfl, if_neg Bool.false_ne_true]

theorem mem_takeWhile_imp {p : Char → Bool} {cs : List Char} : ∀ c ∈ cs.takeWhile p, p c = true :=
  List.all_eq_true.mp List.all_takeWhile

/-- `rest'` may stand behind a lexeme in place of `rest`: there is nothing, a blank comes first, or the next two characters are
the same up to the end of the text or a blank. -/
inductive InPlaceOf : List Char → List Char → Prop where
  | nil (rest : List Char) : InPlaceOf [] rest
  | blank {b : Char} {rest : List Char} (more : List Char) (hb : Text.isBlank b = true) (hrest : rest ≠ []) :
      InPlaceOf (b :: more) rest
  | single (c : Char) (rest : List Char) : InPlaceOf [c] (c :: rest)
  | secondBlank (c : Char) {b : Char} (more rest : List Char) (hb : Text.isBlank b = true) :
      InPlaceOf (c :: b :: more) (c :: rest)
  | two (c d : Char) (more rest : List Char) : InPlaceOf (c :: d :: more) (c :: d :: rest)

namespace InPlaceOf

variable {rest' rest : List Char}

/-- What is put in place of a rest stops every test that the rest stopped, blanks being refused. -/
theorem stops (h : InPlaceOf rest' rest) {p : Char → Bool} (hp : ∀ c, Text.isBlank c = true → p c = false) (hs : Stops p rest) :
    Stops p rest' := by
  intro c hc
  cases h with
  | nil => cases hc
  | blank more hb _ =>
    obtain rfl := Option.some.inj hc
    exact hp _ hb
  | single => exact hs c hc
  | secondBlank => exact hs c hc
  | two => exact hs c hc

/-- What stops in front of `rest` behind some characters stops in front of what is in place of it. -/
theorem stops_append (h : InPlaceOf rest' rest) {p : Char → Bool} (hp : ∀ c, Text.isBlank c = true → p c = false)
    {front : List Char} (hs : Stops p (front ++ rest)) : Stops p (front ++ rest') := by
  cases front with
  | nil => exact h.stops hp hs
  | cons c front => exact hs

/-- Behind what runs to the end there is nothing. -/
theorem eq_nil (h : InPlaceOf rest' []) : rest' = [] := by
  cases h with
  | nil => rfl
  | blank _ _ hrest => exact absurd rfl hrest

end InPlaceOf

/-- A character that is no blank whenever a class holds it: the class stops at blanks. -/
theorem eq_false_of_isBlank {p : Char → Bool} (hp : ∀ c, p c = true → Text.isBlank c = false) (c : Char)
    (hc : Text.isBlank c = true) : p c = false := by
  cases hpc : p c with
  | false => rfl
  | true => rw [hp c hpc] at hc; cases hc

/-- No blank is equal to a character that is none. -/
theorem beq_eq_false_of_isBlank {b c : Char} (hb : Text.isBlank b = true) (hc : Text.isBlank c = false) : (b == c) = false :=
  beq_eq_false_iff_ne.mpr fun h => Bool.false_ne_true (hc.symm.trans (h ▸ hb))

/-! ## Numbers -/

/-- The text does not go on with a decimal number, in which a point or an exponent was met or not. -/
def decimalStops (isFloat : Bool) : List Char → Bool
  | [] => true
  | c :: cs => !c.isDigit && !(c == '.' && !isFloat) &&
    !((c == 'e' || c == 'E') && (cs.head?.map fun d => d.isDigit || d == '-' || d == '+').getD false)

/-- The body of a number ends where it cannot go on. -/
theorem decimalStops_decimalBody (isFloat : Bool) (cs : List Char) :
    decimalStops (decimalBody isFloat cs).1 (decimalBody isFloat cs).2.2 = true := by
  fun_induction decimalBody isFloat cs with
  | case1 => rfl
  | case2 isFloat c cs hdigit _ ih => exact ih
  | case3 isFloat c cs hdigit hpoint _ ih => exact ih
  | case4 isFloat c hdigit hpoint hexp =>
    rw [decimalStops, Bool.eq_false_iff.mpr hdigit, Bool.eq_false_iff.mpr hpoint, hexp]
    rfl
  | case5 isFloat c hdigit hpoint hexp d ds hd _ ih => exact ih
  | case6 isFloat c hdigit hpoint hexp d ds hd =>
    have hsign : ((d :: ds).head?.map fun d => d.isDigit || d == '-' || d == '+').getD false = false := Bool.eq_false_iff.mpr hd
    rw [decimalStops, Bool.eq_false_iff.mpr hdigit, Bool.eq_false_iff.mpr hpoint, hexp, hsign]
    rfl
  | case7 isFloat c cs hdigit hpoint hexp =>
    rw [decimalStops, Bool.eq_false_iff.mpr hdigit, Bool.eq_false_iff.mpr hpoint, Bool.eq_false_iff.mpr hexp]
    rfl

/-- What does not go on with a decimal number is no part of its body. -/
theorem decimalBody_of_stops {isFloat : Bool} {rest : List Char} (h : decimalStops isFloat rest = true) :
    decimalBody isFloat rest = (isFloat, [], rest) := by
  cases rest with
  | nil => rfl
  | cons c cs =>
    rw [decimalStops, Bool.and_eq_true, Bool.and_eq_true, Bool.not_eq_true', Bool.not_eq_true', Bool.not_eq_true'] at h
    obtain ⟨⟨hdigit, hpoint⟩, hexp⟩ := h
    rw [decimalBody.eq_def]
    dsimp only
    rw [hdigit, hpoint, if_neg Bool.false_ne_true, if_neg Bool.false_ne_true]
    split
    · rename_i hletter
      rw [hletter, Bool.true_and] at hexp
      cases cs with
      | nil => rfl
      | cons d ds => exact if_neg (Bool.eq_false_iff.mp hexp)
    · rfl

/-- The body of a decimal number is the same with anything behind it that does not go on with it. -/
theorem decimalBody_append_of_stops (isFloat : Bool) (cs rest : List Char)
    (h : decimalStops (decimalBody isFloat cs).1 rest = true) :
    decimalBody isFloat ((decimalBody isFloat cs).2.1 ++ rest) =
      ((decimalBody isFloat cs).1, (decimalBody isFloat cs).2.1, rest) := by
  fun_induction decimalBody isFloat cs with
  | case1 isFloat => exact decimalBody_of_stops h
  | case2 isFloat c cs hdigit _ ih =>
    rw [List.cons_append, decimalBody.eq_def]
    dsimp only
    rewrite [if_pos hdigit, ih h]
    rfl
  | case3 isFloat c cs hdigit hpoint _ ih =>
    rw [List.cons_append, decimalBody.eq_def]
    dsimp only
    rewrite [if_neg hdigit, if_pos hpoint, ih h]
    rfl
  | case4 isFloat => exact decimalBody_of_stops h
  | case5 isFloat c hdigit hpoint hexp d ds hd _ ih =>
    rw [List.cons_append, List.cons_append, decimalBody.eq_def]
    dsimp only
    rewrite [if_neg hdigit, if_neg hpoint, if_pos hexp, if_pos hd, ih h]
    rfl
  | case6 isFloat => exact decimalBody_of_stops h
  | case7 isFloat => exact decimalBody_of_stops h

/-- A number that cannot go on in its rest cannot go on in what is put in place of it. -/
theorem InPlaceOf.decimalStops {rest' rest : List Char} (h : InPlaceOf rest' rest) {isFloat : Bool}
    (hs : decimalStops isFloat rest = true) : decimalStops isFloat rest' = true := by
  have hfirst : ∀ {b : Char} (cs : List Char), Text.isBlank b = true → HeaderAtlas.decimalStops isFloat (b :: cs) = true := by
    intro b cs hb
    have hne : ∀ c : Char, Text.isBlank c = false → (b == c) = false := fun c hc => beq_eq_false_of_isBlank hb hc
    rw [HeaderAtlas.decimalStops, eq_false_of_isBlank (fun _ => isBlank_of_isDigit) b hb, hne '.' rfl, hne 'e' rfl, hne 'E' rfl]
    rfl
  cases h with
  | nil => rfl
  | blank more hb _ => exact hfirst more hb
  | single c rest =>
    simp only [HeaderAtlas.decimalStops, Bool.and_eq_true] at hs ⊢
    exact ⟨hs.1, by simp⟩
  | @secondBlank c b more rest hb =>
    have hne : ∀ c : Char, Text.isBlank c = false → (b == c) = false := fun c hc => beq_eq_false_of_isBlank hb hc
    have hsign : (b.isDigit || b == '-' || b == '+') = false := by
      rw [eq_false_of_isBlank (fun _ => isBlank_of_isDigit) b hb, hne '-' rfl, hne '+' rfl]
      rfl
    simp only [HeaderAtlas.decimalStops, Bool.and_eq_true] at hs ⊢
    exact ⟨hs.1, by simp [hsign]⟩
  | two c d more rest => exact hs

/-- A letter behind the digits does not go on with the number. -/
theorem decimalStops_of_isSuffix (isFloat : Bool) {c : Char} (hc : isSuffix c = true) (cs : List Char) :
    decimalStops isFloat (c :: cs) = true := by
  simp only [isSuffix, Bool.or_eq_true, beq_iff_eq] at hc
  rcases hc with ((((rfl | rfl) | rfl) | rfl) | rfl) | rfl <;> rfl

/-- The suffix of a float is a suffix. -/
theorem isSuffix_of_isFloatSuffix {c : Char} (h : isFloatSuffix c = true) : isSuffix c = true := by
  simp only [isFloatSuffix, Bool.or_eq_true, beq_iff_eq] at h
  rcases h with rfl | rfl <;> rfl

/-- A hexadecimal number stays when its rest is replaced. -/
theorem hexLexeme_inPlaceOf {lead cs rest' : List Char} (h : InPlaceOf rest' (hexLexeme lead cs).rest) :
    hexLexeme lead (cs.takeWhile isHexDigit ++ ((cs.dropWhile isHexDigit).takeWhile isSuffix ++ rest')) =
      { hexLexeme lead cs with rest := rest' } := by
  have hhex : Stops isHexDigit ((cs.dropWhile isHexDigit).takeWhile isSuffix ++ rest') := by
    refine h.stops_append (eq_false_of_isBlank fun _ => isBlank_of_isHexDigit) ?_
    rw [hexLexeme, List.takeWhile_append_dropWhile]
    exact stops_dropWhile _ _
  have hsuffix : Stops isSuffix rest' := h.stops (eq_false_of_isBlank fun _ => isBlank_of_isSuffix) (stops_dropWhile _ _)
  simp only [hexLexeme, takeWhile_append_of_stops mem_takeWhile_imp hhex, dropWhile_append_of_stops mem_takeWhile_imp hhex,
    takeWhile_append_of_stops mem_takeWhile_imp hsuffix, dropWhile_append_of_stops mem_takeWhile_imp hsuffix]

/-- Where no suffix goes on there is none of a float. -/
theorem isFloatSuffix_of_stops {cs : List Char} (h : Stops isSuffix cs) : (cs.head?.map isFloatSuffix).getD false = false := by
  cases cs with
  | nil => rfl
  | cons c cs => exact Bool.eq_false_iff.mpr fun hc => Bool.eq_false_iff.mp (h c rfl) (isSuffix_of_isFloatSuffix hc)

/-- Whether a letter behind the digits makes the number a fraction. -/
theorem isFloatSuffix_inPlaceOf {tail rest' : List Char} (h : Stops isSuffix rest') :
    ((tail.takeWhile isSuffix ++ rest').head?.map isFloatSuffix).getD false = (tail.head?.map isFloatSuffix).getD false := by
  cases tail with
  | nil => exact isFloatSuffix_of_stops h
  | cons c cs =>
    rw [List.takeWhile_cons]
    cases hc : isSuffix c with
    | true => rfl
    | false =>
      rw [if_neg Bool.false_ne_true, List.nil_append, isFloatSuffix_of_stops h]
      have hstops : Stops isSuffix (c :: cs) := fun d hd => Option.some.inj hd ▸ hc
      exact (isFloatSuffix_of_stops hstops).symm

/-- A decimal number stays when its rest is replaced. -/
theorem decimalLexeme_inPlaceOf {c : Char} {cs rest' : List Char} (h : InPlaceOf rest' (decimalLexeme c cs).rest) :
    decimalLexeme c ((decimalBody false cs).2.1 ++ ((decimalBody false cs).2.2.takeWhile isSuffix ++ rest')) =
      { decimalLexeme c cs with rest := rest' } := by
  have hsuffix : Stops isSuffix rest' := h.stops (eq_false_of_isBlank fun _ => isBlank_of_isSuffix) (stops_dropWhile _ _)
  have hstops : decimalStops (decimalBody false cs).1 ((decimalBody false cs).2.2.takeWhile isSuffix ++ rest') = true := by
    have hself := decimalStops_decimalBody false cs
    rw [← List.takeWhile_append_dropWhile (p := isSuffix) (l := (decimalBody false cs).2.2)] at hself
    cases hletters : (decimalBody false cs).2.2.takeWhile isSuffix with
    | nil =>
      rw [hletters] at hself
      exact h.decimalStops hself
    | cons d ds => exact decimalStops_of_isSuffix _ (mem_takeWhile_imp d (hletters ▸ List.mem_cons_self)) _
  simp only [decimalLexeme, decimalBody_append_of_stops false cs _ hstops, isFloatSuffix_inPlaceOf hsuffix,
    takeWhile_append_of_stops mem_takeWhile_imp hsuffix, dropWhile_append_of_stops mem_takeWhile_imp hsuffix]

/-- The letter that makes a number hexadecimal when it follows a zero. -/
def isHexMark (c x : Char) : Bool := c == '0' && (x == 'x' || x == 'X')

/-- Digits and suffixes make no number hexadecimal. -/
theorem isHexMark_eq_false {c x : Char} (h : x.isDigit = true ∨ isSuffix x = true) : isHexMark c x = false := by
  refine Bool.eq_false_iff.mpr fun hmark => ?_
  simp only [isHexMark, Bool.and_eq_true, Bool.or_eq_true, beq_iff_eq] at hmark
  rcases hmark.2 with rfl | rfl <;> rcases h with h | h <;> cases h

/-- A number without `0x` in front is decimal. -/
theorem numberLexeme_of_stops {c : Char} {cs : List Char} (h : Stops (isHexMark c) cs) :
    numberLexeme c cs = decimalLexeme c cs := by
  cases cs with
  | nil => rfl
  | cons x ds => exact if_neg (Bool.eq_false_iff.mp (h x rfl))

/-- A number stays when its rest is replaced: behind a lone `0` no `x` may come up. -/
theorem numberLexeme_inPlaceOf {c : Char} {cs xs rest' : List Char} (htext : (numberLexeme c cs).text = c :: xs)
    (h : InPlaceOf rest' (numberLexeme c cs).rest) :
    numberLexeme c (xs ++ rest') = { numberLexeme c cs with rest := rest' } := by
  by_cases hmark : Stops (isHexMark c) cs
  · rw [numberLexeme_of_stops hmark] at htext h ⊢
    have hxs : (decimalBody false cs).2.1 ++ (decimalBody false cs).2.2.takeWhile isSuffix = xs := (List.cons.inj htext).2
    have hcs : xs ++ (decimalLexeme c cs).rest = cs := by
      have happend := decimalLexeme_append c cs
      rw [htext] at happend
      exact (List.cons.inj happend).2
    have hblank : ∀ b, Text.isBlank b = true → isHexMark c b = false := by
      intro b hb
      rw [isHexMark, beq_eq_false_of_isBlank hb (by rfl : Text.isBlank 'x' = false),
        beq_eq_false_of_isBlank hb (by rfl : Text.isBlank 'X' = false)]
      exact Bool.and_false _
    rw [← hcs] at hmark
    rw [numberLexeme_of_stops (h.stops_append hblank hmark), ← hxs, List.append_assoc, decimalLexeme_inPlaceOf h]
  · obtain ⟨x, ds, rfl, hx⟩ : ∃ x ds, cs = x :: ds ∧ isHexMark c x = true := by
      cases cs with
      | nil => exact absurd (fun _ hc => by cases hc) hmark
      | cons x ds => exact ⟨x, ds, rfl, (Bool.not_eq_false _).mp fun hx => hmark fun _ hc => Option.some.inj hc ▸ hx⟩
    have hhex : ∀ es, numberLexeme c (x :: es) = hexLexeme [c, x] es := fun es => if_pos hx
    rw [hhex] at htext h ⊢
    have hxs : x :: (ds.takeWhile isHexDigit ++ (ds.dropWhile isHexDigit).takeWhile isSuffix) = xs := (List.cons.inj htext).2
    rw [← hxs, List.cons_append, hhex, List.append_assoc, hexLexeme_inPlaceOf h]

/-! ## Quoted text -/

/-- Closed quoted text ends with its quote, whatever comes next. -/
theorem quotedBody_append_of_closed (quote : Char) (cs rest : List Char) (h : (quotedBody quote cs).2.1 ≠ []) :
    quotedBody quote ((quotedBody quote cs).1 ++ (quotedBody quote cs).2.1 ++ rest) =
      ((quotedBody quote cs).1, (quotedBody quote cs).2.1, rest) := by
  have hquote : ∀ {c : Char}, (c == quote) = true → quotedBody quote (c :: rest) = ([], [c], rest) := by
    intro c hc
    cases rest <;> simp [quotedBody, hc]
  have hcons : ∀ {c : Char} {cs : List Char}, ¬(c == quote) = true → ¬(c == '\\') = true → cs ≠ [] →
      quotedBody quote (c :: cs) = (c :: (quotedBody quote cs).1, (quotedBody quote cs).2) := by
    intro c cs hc hescape hcs
    obtain ⟨d, ds, rfl⟩ := List.exists_cons_of_ne_nil hcs
    rw [quotedBody, if_neg hc, if_neg hescape]
  fun_induction quotedBody quote cs with
  | case1 => exact absurd rfl h
  | case2 c hc => exact hquote hc
  | case3 c hc => exact absurd rfl h
  | case4 c d cs hc => exact hquote hc
  | case5 c d cs hc hescape _ ih =>
    rewrite [List.cons_append, List.cons_append, List.cons_append, List.cons_append, quotedBody, if_neg hc, if_pos hescape, ih h]
    rfl
  | case6 c d cs hc hescape _ ih =>
    rewrite [List.cons_append, List.cons_append, hcons hc hescape (by simp [h]), ih h]
    rfl

/-- Quoted text stays when its rest is replaced; if it is not closed, there is no rest but the empty one. -/
theorem quotedLexeme_inPlaceOf {quote : Char} {cs xs rest' : List Char} (htext : (quotedLexeme quote cs).text = quote :: xs)
    (h : InPlaceOf rest' (quotedLexeme quote cs).rest) :
    quotedLexeme quote (xs ++ rest') = { quotedLexeme quote cs with rest := rest' } := by
  have hxs : (quotedBody quote cs).1 ++ (quotedBody quote cs).2.1 = xs := (List.cons.inj htext).2
  by_cases hclosed : (quotedBody quote cs).2.1 = []
  · -- quoted text that is not closed runs to the end
    have hrest : (quotedBody quote cs).2.2 = [] :=
      Decidable.byContradiction fun hne => List.cons_ne_nil quote [] ((quotedBody_closed quote cs hne).symm.trans hclosed)
    have hcs : xs = cs := by
      have happend := quotedBody_append quote cs
      rw [hrest, List.append_nil] at happend
      exact hxs.symm.trans happend
    have hnil : rest' = [] := by
      rw [quotedLexeme, hrest] at h
      exact h.eq_nil
    rw [hnil, hcs, List.append_nil, quotedLexeme, hrest]
  · rw [← hxs]
    simp only [quotedLexeme, quotedBody_append_of_closed quote cs rest' hclosed]

/-! ## Lexemes -/

/-- A word stays when its rest is replaced. -/
theorem wordLexeme_inPlaceOf {c : Char} {cs rest' : List Char} (h : InPlaceOf rest' (wordLexeme c cs).rest) :
    wordLexeme c (cs.takeWhile Text.isWordChar ++ rest') = { wordLexeme c cs with rest := rest' } := by
  have hstops : Stops Text.isWordChar rest' :=
    h.stops (eq_false_of_isBlank fun _ => isBlank_of_isWordChar) (stops_dropWhile _ _)
  simp only [wordLexeme, takeWhile_append_of_stops mem_takeWhile_imp hstops, dropWhile_append_of_stops mem_takeWhile_imp hstops]

/-- The mark goes on as a shift. -/
def isShift (c d : Char) : Bool := c == '<' && d == '<'

/-- A mark with no second `<` behind it is one character. -/
theorem markLexeme_of_stops {c : Char} {cs : List Char} (h : Stops (isShift c) cs) : markLexeme c cs = ⟨.mark c, [c], cs⟩ := by
  cases cs with
  | nil => rfl
  | cons d ds => exact if_neg (Bool.eq_false_iff.mp (h d rfl))

/-- A mark stays when its rest is replaced: no `<` comes up behind a lone `<`. -/
theorem markLexeme_inPlaceOf {c : Char} {cs xs rest' : List Char} (htext : (markLexeme c cs).text = c :: xs)
    (h : InPlaceOf rest' (markLexeme c cs).rest) : markLexeme c (xs ++ rest') = { markLexeme c cs with rest := rest' } := by
  by_cases hshift : Stops (isShift c) cs
  · rw [markLexeme_of_stops hshift] at htext h ⊢
    have hblank : ∀ b, Text.isBlank b = true → isShift c b = false := by
      intro b hb
      rw [isShift, beq_eq_false_of_isBlank hb (by rfl : Text.isBlank '<' = false)]
      exact Bool.and_false _
    obtain rfl := (List.cons.inj htext).2
    exact markLexeme_of_stops (h.stops hblank hshift)
  · obtain ⟨d, ds, rfl, hd⟩ : ∃ d ds, cs = d :: ds ∧ isShift c d = true := by
      cases cs with
      | nil => exact absurd (fun _ hc => by cases hc) hshift
      | cons d ds => exact ⟨d, ds, rfl, (Bool.not_eq_false _).mp fun hd => hshift fun _ hc => Option.some.inj hc ▸ hd⟩
    have hmark : ∀ es, markLexeme c (d :: es) = ⟨.shiftLeft, [c, d], es⟩ := fun es => if_pos hd
    rw [hmark] at htext ⊢
    obtain rfl := (List.cons.inj htext).2
    exact hmark rest'

/-- A lexeme is the same with anything behind it that may stand in place of what is there. -/
theorem lexeme_inPlaceOf {c : Char} {cs xs rest' : List Char} (htext : (lexeme c cs).text = c :: xs)
    (h : InPlaceOf rest' (lexeme c cs).rest) : lexeme c (xs ++ rest') = { lexeme c cs with rest := rest' } := by
  unfold lexeme at htext h ⊢
  split
  · rename_i hquote
    rw [if_pos hquote] at htext h
    exact quotedLexeme_inPlaceOf htext h
  · rename_i hquote
    rw [if_neg hquote] at htext h
    split
    · rename_i hdigit
      rw [if_pos hdigit] at htext h
      exact numberLexeme_inPlaceOf htext h
    · rename_i hdigit
      rw [if_neg hdigit] at htext h
      split
      · rename_i hword
        rw [if_pos hword] at htext h
        obtain rfl := (List.cons.inj htext).2
        exact wordLexeme_inPlaceOf h
      · rename_i hword
        rw [if_neg hword] at htext h
        exact markLexeme_inPlaceOf htext h

/-! ## Gaps -/

/-- The two characters begin a comment. -/
def opensComment (c d : Char) : Bool := c == '/' && (d == '/' || d == '*')

/-- A gap begins with a blank, a `#` or a slash that opens a comment. -/
theorem gap?_eq_none_iff {c : Char} {cs : List Char} :
    gap? (c :: cs) = none ↔ Text.isBlank c = false ∧ (c == '#') = false ∧ Stops (opensComment c) cs := by
  have hstops : ∀ d ds, Stops (opensComment c) (d :: ds) ↔ opensComment c d = false := fun d ds =>
    ⟨fun h => h d rfl, fun h _ he => Option.some.inj he ▸ h⟩
  cases cs with
  | nil =>
    have hnil : Stops (opensComment c) [] := fun _ h => by cases h
    simp only [gap?, hnil, and_true]
    cases Text.isBlank c <;> cases c == '#' <;> simp
  | cons d ds =>
    simp only [gap?, hstops, opensComment]
    cases Text.isBlank c <;> cases c == '#' <;> cases c == '/' <;> cases d == '/' <;> cases d == '*' <;> simp

/-- What begins no gap begins none with anything behind it that may stand in place of what is there. -/
theorem gap?_eq_none_inPlaceOf {c : Char} {xs rest rest' : List Char} (hgap : gap? (c :: (xs ++ rest)) = none)
    (h : InPlaceOf rest' rest) : gap? (c :: (xs ++ rest')) = none := by
  obtain ⟨hblank, hhash, hstops⟩ := gap?_eq_none_iff.mp hgap
  refine gap?_eq_none_iff.mpr ⟨hblank, hhash, h.stops_append ?_ hstops⟩
  intro b hb
  rw [opensComment, beq_eq_false_of_isBlank hb (by rfl : Text.isBlank '/' = false),
    beq_eq_false_of_isBlank hb (by rfl : Text.isBlank '*' = false)]
  exact Bool.and_false _

/-- The first part of a text begins as the text does. -/
theorem exists_eq_cons_of_append_eq {front back : List Char} {c : Char} {cs : List Char} (h : front ++ back = c :: cs)
    (hne : front ≠ []) : ∃ tail, front = c :: tail := by
  obtain ⟨d, tail, rfl⟩ := List.exists_cons_of_ne_nil hne
  exact ⟨tail, congrArg (· :: tail) (List.cons.inj h).1⟩

/-- A line that ends before the text does ends there whatever follows. -/
theorem lineBody_closed (cs rest : List Char) (h : (lineBody cs).2 ≠ []) :
    lineBody ((lineBody cs).1 ++ rest) = ((lineBody cs).1, rest) := by
  fun_induction lineBody cs with
  | case1 => exact absurd rfl h
  | case2 c cs hc => exact if_pos hc
  | case3 c cs hc _ ih =>
    rewrite [List.cons_append, lineBody, if_neg hc, ih h]
    rfl

/-- The body of a comment takes a character if there is one. -/
theorem commentBody_ne_nil (c : Char) (cs : List Char) : (commentBody (c :: cs)).1 ≠ [] := by
  cases cs with
  | nil => simp [commentBody]
  | cons d ds =>
    rw [commentBody]
    split <;> simp

/-- A comment that is closed ends there whatever follows. -/
theorem commentBody_closed (cs rest : List Char) (h : (commentBody cs).2 ≠ []) :
    commentBody ((commentBody cs).1 ++ rest) = ((commentBody cs).1, rest) := by
  fun_induction commentBody cs with
  | case1 => exact absurd rfl h
  | case2 c => exact absurd rfl h
  | case3 c d cs hc => exact if_pos hc
  | case4 c d cs hc _ ih =>
    obtain ⟨tail, htail⟩ := exists_eq_cons_of_append_eq (commentBody_append (d :: cs)) (commentBody_ne_nil d cs)
    have hrest := ih h
    dsimp only
    rewrite [htail] at hrest ⊢
    rewrite [List.cons_append, List.cons_append, commentBody, if_neg hc, ← List.cons_append, hrest]
    rfl

/-- A directive that ends before the text does ends there whatever follows. -/
theorem directiveBody_closed (cs rest : List Char) (h : (directiveBody cs).2 ≠ []) :
    directiveBody ((directiveBody cs).1 ++ rest) = ((directiveBody cs).1, rest) := by
  fun_induction directiveBody cs with
  | case1 => exact absurd rfl h
  | case2 c => exact absurd rfl h
  | case3 c d cs hc _ ih =>
    rewrite [List.cons_append, List.cons_append, directiveBody, if_pos hc, ih h]
    rfl
  | case4 c d cs hc hnewline =>
    have hescape : (c == '\\') = false := by rw [eq_of_beq hnewline]; rfl
    cases rest with
    | nil => rfl
    | cons e rest =>
      simp only [List.singleton_append, directiveBody, hescape, hnewline, Bool.false_and, if_neg Bool.false_ne_true, if_true]
  | case5 c d cs hc hnewline _ ih =>
    obtain ⟨tail, htail⟩ := exists_eq_cons_of_append_eq (directiveBody_append (d :: cs)) (directiveBody_ne_nil d cs)
    have hrest := ih h
    dsimp only
    rewrite [htail] at hrest ⊢
    rewrite [List.cons_append, List.cons_append, directiveBody, if_neg hc, if_neg hnewline, ← List.cons_append, hrest]
    rfl

/-- A gap that does not run to the end is the same with anything behind it. -/
theorem gap?_closed {cs : List Char} {g : List Char × List Char} (h : gap? cs = some g) (hne : g.2 ≠ []) (rest : List Char) :
    gap? (g.1 ++ rest) = some (g.1, rest) := by
  cases cs with
  | nil => cases h
  | cons c cs =>
    simp only [gap?] at h
    split at h
    · rename_i hblank
      obtain rfl := Option.some.inj h
      exact if_pos hblank
    · rename_i hblank
      split at h
      · rename_i hhash
        obtain rfl := Option.some.inj h
        obtain ⟨tail, htail⟩ := exists_eq_cons_of_append_eq (directiveBody_append (c :: cs)) (directiveBody_ne_nil c cs)
        have hrest := directiveBody_closed (c :: cs) rest hne
        rw [htail, List.cons_append] at hrest ⊢
        simp only [gap?, if_neg hblank, if_pos hhash, hrest]
      · rename_i hhash
        split at h
        · rename_i hslash
          cases cs with
          | nil => cases h
          | cons d ds =>
            dsimp only at h
            split at h
            · rename_i hline
              obtain rfl := Option.some.inj h
              simp only [List.cons_append, gap?, if_neg hblank, if_neg hhash, if_pos hslash, if_pos hline]
              rw [lineBody_closed ds rest hne]
            · rename_i hline
              split at h
              · rename_i hcomment
                obtain rfl := Option.some.inj h
                simp only [List.cons_append, gap?, if_neg hblank, if_neg hhash, if_pos hslash, if_neg hline, if_pos hcomment]
                rw [commentBody_closed ds rest hne]
              · cases h
        · cases h

end HeaderAtlas
