import HeaderAtlas.Proofs.Token.Lookahead

/-!
# Texts without blanks between their tokens

A token may end where the next one begins, as in `Map<int, -3>*`. `OneToken` says that some characters are a single token in front
of what follows them, and `Cuts` that they are cut into tokens of given kinds; either leaves open what follows, up to its first
character. A word or a number ends where neither a letter, a digit nor a point goes on with it (`breaks`). Words that are not
folded into the name of a primitive type (`Unfolded`) stay as they were written (`foldCompounds_of_unfolded`); a word with no word
behind it has its `soleName`.
-/

namespace HeaderAtlas

/-! ## Single tokens -/

/-- In front of `rest`, the characters are one token of this kind. -/
def OneToken (kind : Token.Kind) (cs rest : List Char) : Prop :=
  ∀ p, tokensFrom p (cs ++ rest) = Token.at p kind cs.length :: tokensFrom (p.after cs) rest

/-- No word and no number goes on with these characters. -/
def breaks : List Char → Bool
  | [] => true
  | c :: _ => !Text.isWordChar c && c != '.'

/-- A letter or an underscore, and letters, digits and underscores behind it. -/
def isIdentifier (name : String) : Bool :=
  match name.toList with
  | [] => false
  | c :: cs => Text.isWordStart c && cs.all Text.isWordChar

/-- A mark that begins nothing else. -/
def isLoneMark (c : Char) : Bool :=
  !Text.isBlank c && c != '#' && c != '/' && c != '"' && c != '\'' && !c.isDigit && !Text.isWordStart c

namespace OneToken

variable {kind : Token.Kind} {rest : List Char}

/-- A lexeme that no gap stands in place of is a token. -/
theorem of_lexeme {c : Char} {cs : List Char} (hgap : gap? (c :: (cs ++ rest)) = none)
    (hlexeme : lexeme c (cs ++ rest) = ⟨kind, c :: cs, rest⟩) : OneToken kind (c :: cs) rest := by
  intro p
  rw [List.cons_append, tokensFrom_lexeme hgap, hlexeme]

/-- A token in front of a blank is alone there. -/
theorem lone {cs : List Char} (h : OneToken kind cs [' ']) : Lone kind cs := by
  intro p
  rw [h p, tokensFrom_blank, tokensFrom_nil]

end OneToken

/-- Where a word breaks off, none of its characters goes on. -/
theorem not_isWordChar_of_breaks {c : Char} {cs : List Char} (h : breaks (c :: cs) = true) : Text.isWordChar c = false :=
  (Bool.not_eq_true' _).mp (Bool.and_eq_true_iff.mp h).1

/-- What goes on with no word begins with no letter, digit or underscore. -/
theorem stops_of_breaks {rest : List Char} (h : breaks rest = true) {p : Char → Bool}
    (hp : ∀ c, p c = true → Text.isWordChar c = true) : Stops p rest := by
  cases rest with
  | nil => exact fun _ hc => by cases hc
  | cons c cs =>
    rintro _ ⟨⟩
    rw [Bool.eq_false_iff]
    intro hc
    have hword := hp c hc
    rw [not_isWordChar_of_breaks h] at hword
    cases hword

/-- A letter or an underscore begins no gap, no quoted text and no number. -/
theorem lexeme_of_isWordStart {c : Char} (h : Text.isWordStart c = true) (cs : List Char) :
    gap? (c :: cs) = none ∧ lexeme c cs = wordLexeme c cs := by
  have hne : ∀ d, Text.isWordStart d = false → c ≠ d := by
    rintro d hd rfl
    rw [h] at hd
    cases hd
  have hdigit : c.isDigit = false := by
    rw [Bool.eq_false_iff]
    intro hdigit
    have hdigits := toNat_of_isDigit hdigit
    simp only [Text.isWordStart, Bool.or_eq_true, beq_iff_eq] at h
    rcases h with h | rfl
    · have hcodes := toNat_of_isAlpha h
      omega
    · cases hdigit
  refine ⟨gap?_eq_none (isBlank_of_isWordChar (isWordChar_of_isWordStart h)) (hne _ (by decide)) (hne _ (by decide)) cs, ?_⟩
  rw [lexeme, beq_eq_false_iff_ne.mpr (hne _ (by decide)), beq_eq_false_iff_ne.mpr (hne _ (by decide)), hdigit, h]
  rfl

/-- An identifier in front of a break is one word. -/
theorem oneToken_word {name : String} {rest : List Char} (h : isIdentifier name = true) (hrest : breaks rest = true) :
    OneToken (.word name) name.toList rest := by
  obtain ⟨cs, rfl⟩ : ∃ cs, name = String.ofList cs := ⟨name.toList, String.ofList_toList.symm⟩
  rw [isIdentifier, String.toList_ofList] at h
  rw [String.toList_ofList]
  cases cs with
  | nil => cases h
  | cons c cs =>
    obtain ⟨hstart, hall⟩ := Bool.and_eq_true_iff.mp h
    obtain ⟨hgap, hlexeme⟩ := lexeme_of_isWordStart hstart (cs ++ rest)
    have hstops : Stops Text.isWordChar rest := stops_of_breaks hrest fun _ hc => hc
    refine .of_lexeme hgap ?_
    rw [hlexeme, wordLexeme, takeWhile_append_of_stops (List.all_eq_true.mp hall) hstops,
      dropWhile_append_of_stops (List.all_eq_true.mp hall) hstops]

/-- A mark is one token; two `<` would be a shift. -/
theorem oneToken_mark {symbol : Char} {rest : List Char} (h : isLoneMark symbol = true)
    (hshift : (symbol == '<' && rest.head? == some '<') = false) : OneToken (.mark symbol) [symbol] rest := by
  simp only [isLoneMark, Bool.and_eq_true, Bool.not_eq_true', bne_iff_ne] at h
  obtain ⟨⟨⟨⟨⟨⟨hblank, hhash⟩, hslash⟩, hquote⟩, happostrophe⟩, hdigit⟩, hword⟩ := h
  refine .of_lexeme (gap?_eq_none hblank hhash hslash _) ?_
  rw [List.nil_append, lexeme, beq_eq_false_iff_ne.mpr hquote, beq_eq_false_iff_ne.mpr happostrophe, hdigit, hword]
  cases rest with
  | nil => rfl
  | cons d ds =>
    have hd : (symbol == '<' && d == '<') = false := hshift
    change markLexeme symbol (d :: ds) = _
    rw [markLexeme, hd]
    rfl

/-! ### Quoted text -/

/-- Quoted text without escapes runs up to its quote. -/
theorem quotedBody_closing {quote : Char} (cs rest : List Char) (h : ∀ c ∈ cs, c ≠ quote ∧ c ≠ '\\') :
    quotedBody quote (cs ++ quote :: rest) = (cs, [quote], rest) := by
  induction cs with
  | nil => cases rest <;> simp [quotedBody]
  | cons c cs ih =>
    obtain ⟨⟨hquote, hescape⟩, hcs⟩ := List.forall_mem_cons.mp h
    have hbody := ih hcs
    rw [List.cons_append]
    -- the reader looks at two characters at a time
    obtain ⟨d, ds, hds⟩ : ∃ d ds, cs ++ quote :: rest = d :: ds := List.exists_cons_of_ne_nil (by simp)
    rw [hds] at hbody ⊢
    rw [quotedBody, if_neg (by simpa using hquote), if_neg (by simpa using hescape), hbody]

/-- Quoted text without escapes is one token, quotes included. -/
theorem oneToken_quoted {quote : Char} (hquote : quote = '"' ∨ quote = '\'') {cs : List Char} (rest : List Char)
    (h : ∀ c ∈ cs, c ≠ quote ∧ c ≠ '\\') : OneToken (.quoted (String.ofList cs)) (quote :: (cs ++ [quote])) rest := by
  have hlexeme : ∀ ds, gap? (quote :: ds) = none ∧ lexeme quote ds = quotedLexeme quote ds := by
    intro ds
    rcases hquote with rfl | rfl <;> exact ⟨gap?_eq_none rfl (by decide) (by decide) ds, rfl⟩
  refine .of_lexeme (hlexeme _).1 ?_
  rw [(hlexeme _).2, quotedLexeme, List.append_assoc, List.singleton_append, quotedBody_closing cs rest h]

/-! ### Numbers -/

/-- Digits go on with a word. -/
theorem isWordChar_of_isDigit {c : Char} (h : c.isDigit = true) : Text.isWordChar c = true := by
  rw [Text.isWordChar, Char.isAlphanum, h, Bool.or_true, Bool.true_or]

/-- A break ends a number. -/
theorem decimalStops_of_breaks {rest : List Char} (h : breaks rest = true) : decimalStops false rest = true := by
  cases rest with
  | nil => rfl
  | cons c cs =>
    have hword := not_isWordChar_of_breaks h
    have hpoint : (c == '.') = false := beq_eq_false_iff_ne.mpr (bne_iff_ne.mp (Bool.and_eq_true_iff.mp h).2)
    have hne : ∀ d, Text.isWordChar d = true → (c == d) = false := by
      intro d hd
      refine beq_eq_false_iff_ne.mpr ?_
      rintro rfl
      rw [hword] at hd
      cases hd
    have hdigit : c.isDigit = false := by
      rw [Bool.eq_false_iff]
      intro hdigit
      rw [isWordChar_of_isDigit hdigit] at hword
      cases hword
    rw [decimalStops, hdigit, hpoint, hne 'e' rfl, hne 'E' rfl]
    rfl

/-- Digits are the body of a number that ends behind them. -/
theorem decimalBody_digits {rest : List Char} (cs : List Char) (h : ∀ c ∈ cs, c.isDigit = true)
    (hrest : decimalStops false rest = true) : decimalBody false (cs ++ rest) = (false, cs, rest) := by
  induction cs with
  | nil => exact decimalBody_of_stops hrest
  | cons c cs ih =>
    obtain ⟨hc, hcs⟩ := List.forall_mem_cons.mp h
    rw [List.cons_append, decimalBody.eq_def]
    dsimp only
    rw [if_pos hc, ih hcs]

/-- A digit begins no gap and no quoted text. -/
theorem lexeme_of_isDigit {c : Char} (h : c.isDigit = true) (cs : List Char) :
    gap? (c :: cs) = none ∧ lexeme c cs = numberLexeme c cs := by
  have hne : ∀ d, d.isDigit = false → c ≠ d := by
    rintro d hd rfl
    rw [h] at hd
    cases hd
  refine ⟨gap?_eq_none (isBlank_of_isDigit h) (hne _ (by decide)) (hne _ (by decide)) cs, ?_⟩
  rw [lexeme, beq_eq_false_iff_ne.mpr (hne _ (by decide)), beq_eq_false_iff_ne.mpr (hne _ (by decide)), h]
  rfl

/-- Digits and letters that say the type of an integer are one token. -/
theorem oneToken_decimal {c : Char} {cs letters rest : List Char} (hdigits : ∀ d ∈ c :: cs, d.isDigit = true)
    (hletters : ∀ d ∈ letters, isSuffix d = true ∧ isFloatSuffix d = false) (hrest : Stops isSuffix rest)
    (hnumber : decimalStops false rest = true) (hmark : cs = [] → letters = [] → Stops (isHexMark c) rest) :
    OneToken (.int (intValue 10 (c :: cs))) (c :: (cs ++ letters)) rest := by
  obtain ⟨hc, hcs⟩ := List.forall_mem_cons.mp hdigits
  obtain ⟨hgap, hlexeme⟩ := lexeme_of_isDigit hc (cs ++ letters ++ rest)
  have hstops : decimalStops false (letters ++ rest) = true := by
    cases letters with
    | nil => exact hnumber
    | cons d ds => exact decimalStops_of_isSuffix false (hletters d List.mem_cons_self).1 _
  have hfloat : ((letters ++ rest).head?.map isFloatSuffix).getD false = false := by
    cases letters with
    | nil => exact isFloatSuffix_of_stops hrest
    | cons d ds => exact (hletters d List.mem_cons_self).2
  have hsuffix : ∀ d ∈ letters, isSuffix d = true := fun d hd => (hletters d hd).1
  have hfirst : Stops (isHexMark c) (cs ++ (letters ++ rest)) :=
    .append (fun d hd => isHexMark_eq_false (.inl (hcs d hd))) fun hnil =>
      .append (fun d hd => isHexMark_eq_false (.inr (hsuffix d hd))) (hmark hnil)
  refine .of_lexeme hgap ?_
  rw [hlexeme, List.append_assoc, numberLexeme_of_stops hfirst, decimalLexeme, decimalBody_digits cs hcs hstops]
  dsimp only
  rw [hfloat, takeWhile_append_of_stops hsuffix hrest, dropWhile_append_of_stops hsuffix hrest]
  rfl

/-- The value of a decimal digit is its distance from `0`. -/
theorem digit?_of_isDigit {c : Char} (h : c.isDigit = true) : Number.digit? 10 c = some (c.toNat - '0'.toNat) := by
  have hlt : c.toNat - '0'.toNat < 10 := by
    have hcodes := toNat_of_isDigit h
    have hzero : '0'.toNat = 48 := rfl
    omega
  rw [Number.digit?, if_pos h, Option.filter_some, if_pos (decide_eq_true hlt)]

/-- Digits are read as the number they write. -/
theorem readDigits?_digits (cs : List Char) (h : ∀ c ∈ cs, c.isDigit = true) (value : Nat) :
    Number.readDigits? 10 value cs = some (Nat.ofDigitChars 10 cs value) := by
  induction cs generalizing value with
  | nil => rfl
  | cons c cs ih =>
    obtain ⟨hc, hcs⟩ := List.forall_mem_cons.mp h
    rw [Number.readDigits?, digit?_of_isDigit hc]
    exact ih hcs _

/-- The digits of a number read as that number. -/
theorem readNat?_toDigits (n : Nat) : Number.readNat? 10 (Nat.toDigits 10 n) = some n := by
  rw [Number.readNat?, List.isEmpty_eq_false_iff.mpr Nat.toDigits_ne_nil, if_neg Bool.false_ne_true,
    readDigits?_digits _ (fun c hc => Nat.isDigit_of_mem_toDigits (by decide) (by decide) hc), Nat.ofDigitChars_ten_toDigits]

/-- A number is written by its digits. -/
theorem toList_toString_ofNat (n : Nat) : (toString (Int.ofNat n)).toList = Nat.toDigits 10 n := Nat.toList_repr

/-- A negative number has a sign in front of them. -/
theorem toList_toString_negSucc (n : Nat) : (toString (Int.negSucc n)).toList = '-' :: Nat.toDigits 10 (n + 1) := by
  rw [← Nat.toList_repr]
  exact String.toList_append

/-- Suffixes go on with a word. -/
theorem isWordChar_of_isSuffix {c : Char} (h : isSuffix c = true) : Text.isWordChar c = true := by
  simp only [isSuffix, Bool.or_eq_true, beq_iff_eq] at h
  rcases h with ((((rfl | rfl) | rfl) | rfl) | rfl) | rfl <;> rfl

/-- The `x` of a hexadecimal number goes on with a word. -/
theorem isWordChar_of_isHexMark {c x : Char} (h : isHexMark c x = true) : Text.isWordChar x = true := by
  simp only [isHexMark, Bool.and_eq_true, Bool.or_eq_true, beq_iff_eq] at h
  rcases h.2 with rfl | rfl <;> rfl

/-- The digits of a number are one token in front of a break. -/
theorem oneToken_toDigits (n : Nat) {rest : List Char} (hrest : breaks rest = true) :
    OneToken (.int (Number.wordOrZero n)) (Nat.toDigits 10 n) rest := by
  have hdigits : ∀ c ∈ Nat.toDigits 10 n, c.isDigit = true := fun c hc => Nat.isDigit_of_mem_toDigits (by decide) (by decide) hc
  have hvalue : intValue 10 (Nat.toDigits 10 n) = Number.wordOrZero n := by rw [intValue, readNat?_toDigits, Option.getD_some]
  obtain ⟨c, cs, hcs⟩ := List.exists_cons_of_ne_nil (Nat.toDigits_ne_nil (n := n) (b := 10))
  rw [hcs] at hdigits hvalue
  have htoken := oneToken_decimal hdigits (List.forall_mem_nil _) (stops_of_breaks hrest fun _ => isWordChar_of_isSuffix)
    (decimalStops_of_breaks hrest) fun _ _ => stops_of_breaks hrest fun _ => isWordChar_of_isHexMark
  rwa [hvalue, List.append_nil, ← hcs] at htoken

/-- The digits of a number that fits into a word are one token of its value. -/
theorem oneToken_int {n : Nat} {rest : List Char} (h : n < Nat.pow 2 63) (hrest : breaks rest = true) :
    OneToken (.int (.ofNat n)) (Nat.toDigits 10 n) rest := by
  have htoken := oneToken_toDigits n hrest
  rwa [Number.wordOrZero, if_pos (Nat.lt_trans h (by decide))] at htoken

/-! ## Several tokens -/

/-- In front of `rest`, the characters are cut into tokens of these kinds. -/
def Cuts (kinds : List Token.Kind) (cs rest : List Char) : Prop :=
  ∀ p, ∃ ts : List Token, ts.map Token.kind = kinds ∧ tokensFrom p (cs ++ rest) = ts ++ tokensFrom (p.after cs) rest

namespace Cuts

variable {kinds kinds' : List Token.Kind} {cs ds rest : List Char}

theorem nil (rest : List Char) : Cuts [] [] rest := fun _ => ⟨[], rfl, rfl⟩

theorem blank (rest : List Char) : Cuts [] [' '] rest := fun p => ⟨[], rfl, tokensFrom_blank p rest⟩

/-- What is cut into tokens in two pieces is cut in one. -/
theorem append (h : Cuts kinds cs (ds ++ rest)) (h' : Cuts kinds' ds rest) : Cuts (kinds ++ kinds') (cs ++ ds) rest := by
  intro p
  obtain ⟨ts, rfl, hts⟩ := h p
  obtain ⟨us, rfl, hus⟩ := h' (p.after cs)
  refine ⟨ts ++ us, List.map_append, ?_⟩
  rw [List.append_assoc, hts, hus, Place.after_append, List.append_assoc]

end Cuts

/-- A single token is a cut into one kind. -/
theorem OneToken.cuts {kind : Token.Kind} {cs rest : List Char} (h : OneToken kind cs rest) : Cuts [kind] cs rest :=
  fun p => ⟨[Token.at p kind cs.length], rfl, h p⟩

/-- Entries with a comma and a blank between them are cut entry by entry. -/
theorem cuts_intercalate {α : Type} {kinds : α → List Token.Kind} {chars : α → List Char} (l : List α) {rest : List Char}
    (h : ∀ a ∈ l, ∀ rest, breaks rest = true → Cuts (kinds a) (chars a) rest) (hrest : breaks rest = true) :
    Cuts ([Token.Kind.mark ','].intercalate (l.map kinds)) ([',', ' '].intercalate (l.map chars)) rest := by
  induction l with
  | nil => exact .nil rest
  | cons a l ih =>
    obtain ⟨ha, hl⟩ := List.forall_mem_cons.mp h
    cases l with
    | nil =>
      rw [List.map_singleton, List.map_singleton, List.intercalate_singleton, List.intercalate_singleton]
      exact ha rest hrest
    | cons b l =>
      let others := [',', ' '].intercalate ((b :: l).map chars)
      have hcomma : Cuts [.mark ','] [',', ' '] (others ++ rest) := by
        have hmark : OneToken (.mark ',') [','] ([' '] ++ (others ++ rest)) := oneToken_mark rfl rfl
        exact hmark.cuts.append (.blank _)
      have hfirst : Cuts (kinds a) (chars a) (([',', ' '] ++ others) ++ rest) := ha _ rfl
      have hall := hfirst.append (hcomma.append (ih hl))
      rw [List.map_cons, List.map_cons, List.map_cons, List.map_cons, List.intercalate_cons_cons, List.intercalate_cons_cons,
        List.append_assoc, List.append_assoc]
      exact hall

/-! ## Words that are not folded -/

/-- The word at the head of some tokens, in front of one that begins with the word `next`. -/
def wordAhead : List Token.Kind → Option String → Option String
  | [], next => next
  | kind :: _, _ => kind.word?

/-- No word among the kinds is folded, when what follows begins with the word `next`: none is the name of a primitive type in
itself, and no word stands behind one that primitive types of several words begin with. -/
def Unfolded : List Token.Kind → Option String → Prop
  | [], _ => True
  | kind :: kinds, next =>
    (∀ name, kind.word? = some name → name ≠ "short" ∧ name ≠ "long" ∧ (name ∉ foldedWords ∨ wordAhead kinds next = none)) ∧
      Unfolded kinds next

/-- The word ahead is looked for behind kinds that are no words. -/
theorem wordAhead_append (kinds kinds' : List Token.Kind) (next : Option String) :
    wordAhead (kinds ++ kinds') next = wordAhead kinds (wordAhead kinds' next) := by
  cases kinds <;> rfl

/-- Words stay unfolded in two pieces if the first one sees the word ahead in the second. -/
theorem unfolded_append (kinds kinds' : List Token.Kind) (next : Option String) :
    Unfolded (kinds ++ kinds') next ↔ Unfolded kinds (wordAhead kinds' next) ∧ Unfolded kinds' next := by
  induction kinds with
  | nil => rw [List.nil_append, Unfolded, true_and]
  | cons kind kinds ih =>
    rw [List.cons_append, Unfolded, Unfolded, ih, wordAhead_append, and_assoc]

/-- What is folded in no entry is folded in no list of entries, for a comma stands between any two. -/
theorem unfolded_intercalate {α : Type} {kinds : α → List Token.Kind} (l : List α) (h : ∀ a ∈ l, Unfolded (kinds a) none) :
    Unfolded ([Token.Kind.mark ','].intercalate (l.map kinds)) none := by
  induction l with
  | nil => trivial
  | cons a l ih =>
    obtain ⟨ha, hl⟩ := List.forall_mem_cons.mp h
    cases l with
    | nil =>
      rw [List.map_singleton, List.intercalate_singleton]
      exact ha
    | cons b l =>
      rw [List.map_cons, List.map_cons, List.intercalate_cons_cons, unfolded_append, unfolded_append]
      exact ⟨⟨ha, by rintro _ ⟨⟩, trivial⟩, ih hl⟩

/-- No word is the name of a compound alone, but `short` and `long`. -/
theorem compoundName?_alone {name : String} (third : Option String) (hshort : name ≠ "short") (hlong : name ≠ "long") :
    compoundName? (some name) none third = none := by
  unfold compoundName?
  split <;> simp_all

/-- The name of a word with no word behind it: two words are primitive types by themselves. -/
def soleName (name : String) : String :=
  if name = "short" then "int16_t" else if name = "long" then "int64_t" else name

/-- A word with no word behind it gets its sole name. -/
theorem foldCompounds_cons_alone {t : Token} {name : String} (ht : t.kind = .word name) {ts : List Token}
    (hts : ts.head?.bind Token.word? = none) : foldCompounds (t :: ts) = { t with kind := .word (soleName name) } :: foldCompounds ts := by
  have hword : t.word? = some name := congrArg Token.Kind.word? ht
  rw [foldCompounds, compoundAt?, hword, hts, compoundName?_second_none]
  by_cases hshort : name = "short"
  · subst hshort
    rfl
  · by_cases hlong : name = "long"
    · subst hlong
      rfl
    · rw [compoundName?_alone none hshort hlong, soleName, if_neg hshort, if_neg hlong, ← ht]

/-- Unfolded tokens stay, and folding goes on behind them. -/
theorem foldCompounds_of_unfolded (ts : List Token) {us : List Token}
    (h : Unfolded (ts.map Token.kind) (us.head?.bind Token.word?)) : foldCompounds (ts ++ us) = ts ++ foldCompounds us := by
  induction ts with
  | nil => rfl
  | cons t ts ih =>
    obtain ⟨ht, hts⟩ := h
    have hahead : (ts ++ us).head?.bind Token.word? = wordAhead (ts.map Token.kind) (us.head?.bind Token.word?) := by
      cases ts <;> rfl
    have hnone : compoundAt? t (ts ++ us) = none := by
      rw [compoundAt?, hahead]
      cases hword : t.word? with
      | none => exact compoundName?_of_not_mem (by rintro _ ⟨⟩)
      | some name =>
        obtain ⟨hshort, hlong, hfolded | hlast⟩ := ht name hword
        · exact compoundName?_of_not_mem (by rintro _ ⟨⟩; exact hfolded)
        · rw [hlast]
          exact compoundName?_alone _ hshort hlong
    rw [List.cons_append, foldCompounds, hnone]
    dsimp only
    rw [ih hts, List.cons_append]

end HeaderAtlas
