import HeaderAtlas.Proofs.Token.Word

/-!
# The spans of tokens

A token covers at least one character of its text, the tokens stand one behind the other, and none begins with a blank; none ends
with a blank either, except for quoted text that runs to the end because it is not closed. So the text from one token to a later
one that is not the last has no blank at either end (`Lined.runText_eq_runSpan`), which is why a captured text is copied as it is written.
-/

namespace HeaderAtlas

/-! ## Characters that are no blanks -/

/-- The printed characters of ASCII are no blanks. -/
theorem isBlank_of_graphic {c : Char} (h : 33 ≤ c.toNat) (h' : c.toNat ≤ 126) : Text.isBlank c = false := by
  simp only [Text.isBlank, Bool.or_eq_false_iff, Bool.and_eq_false_iff, decide_eq_false_iff_not, beq_eq_false_iff_ne]
  omega

/-- The codes of digits. -/
theorem toNat_of_isDigit {c : Char} (h : c.isDigit = true) : 48 ≤ c.toNat ∧ c.toNat ≤ 57 := by
  obtain ⟨hlow, hhigh⟩ := Bool.and_eq_true_iff.mp h
  exact ⟨UInt32.le_iff_toNat_le.mp (of_decide_eq_true hlow), UInt32.le_iff_toNat_le.mp (of_decide_eq_true hhigh)⟩

/-- Digits are no blanks. -/
theorem isBlank_of_isDigit {c : Char} (h : c.isDigit = true) : Text.isBlank c = false := by
  have hcodes := toNat_of_isDigit h
  exact isBlank_of_graphic (by omega) (by omega)

/-- The codes of letters. -/
theorem toNat_of_isAlpha {c : Char} (h : c.isAlpha = true) :
    (65 ≤ c.toNat ∧ c.toNat ≤ 90) ∨ (97 ≤ c.toNat ∧ c.toNat ≤ 122) := by
  have hletter : c.isUpper = true ∨ c.isLower = true := Bool.or_eq_true_iff.mp h
  rcases hletter with hupper | hlower
  · obtain ⟨hlow, hhigh⟩ := of_decide_eq_true hupper
    exact Or.inl ⟨UInt32.le_iff_toNat_le.mp hlow, UInt32.le_iff_toNat_le.mp hhigh⟩
  · obtain ⟨hlow, hhigh⟩ := Bool.and_eq_true_iff.mp hlower
    exact Or.inr ⟨UInt32.le_iff_toNat_le.mp (of_decide_eq_true hlow), UInt32.le_iff_toNat_le.mp (of_decide_eq_true hhigh)⟩

/-- Letters are no blanks. -/
theorem isBlank_of_isAlpha {c : Char} (h : c.isAlpha = true) : Text.isBlank c = false := by
  have hcodes := toNat_of_isAlpha h
  exact isBlank_of_graphic (by omega) (by omega)

/-- The characters of words are no blanks: letters, digits and `_`. -/
theorem isBlank_of_isWordChar {c : Char} (h : Text.isWordChar c = true) : Text.isBlank c = false := by
  simp only [Text.isWordChar, Char.isAlphanum, Bool.or_eq_true, beq_iff_eq] at h
  rcases h with (h | h) | rfl
  · exact isBlank_of_isAlpha h
  · exact isBlank_of_isDigit h
  · rfl

/-- Hexadecimal digits are no blanks. -/
theorem isBlank_of_isHexDigit {c : Char} (h : isHexDigit c = true) : Text.isBlank c = false := by
  unfold isHexDigit Number.digit? at h
  dsimp only at h
  split at h
  · exact isBlank_of_isDigit ‹_›
  · split at h
    · exact isBlank_of_isAlpha ‹_›
    · simp at h

/-- The letters behind a number are no blanks. -/
theorem isBlank_of_isSuffix {c : Char} (h : isSuffix c = true) : Text.isBlank c = false := by
  simp only [isSuffix, Bool.or_eq_true, beq_iff_eq] at h
  rcases h with ((((rfl | rfl) | rfl) | rfl) | rfl) | rfl <;> rfl

/-- No character of the text is a blank. -/
def NoBlank (cs : List Char) : Prop := ∀ c ∈ cs, Text.isBlank c = false

theorem NoBlank.nil : NoBlank [] := List.forall_mem_nil _

/-- Two pieces without a blank have none together. -/
theorem NoBlank.append {cs ds : List Char} (h : NoBlank cs) (h' : NoBlank ds) : NoBlank (cs ++ ds) := by
  intro c hc
  rcases List.mem_append.mp hc with hc | hc
  · exact h c hc
  · exact h' c hc

/-- A character that is no blank may stand in front. -/
theorem NoBlank.cons {c : Char} {cs : List Char} (hc : Text.isBlank c = false) (h : NoBlank cs) : NoBlank (c :: cs) :=
  List.forall_mem_cons.mpr ⟨hc, h⟩

/-- What is taken as long as a test holds has no blank if the test refuses blanks. -/
theorem noBlank_takeWhile {p : Char → Bool} (hp : ∀ c, p c = true → Text.isBlank c = false) (cs : List Char) :
    NoBlank (cs.takeWhile p) :=
  fun c hc => hp c (List.all_eq_true.mp List.all_takeWhile c hc)

/-! ## The last character of a lexeme -/

/-- The digits, the point and the exponent of a number are no blanks. -/
theorem noBlank_decimalBody (isFloat : Bool) (cs : List Char) : NoBlank (decimalBody isFloat cs).2.1 := by
  have hpoint : Text.isBlank '.' = false := rfl
  fun_induction decimalBody isFloat cs with
  | case1 => exact .nil
  | case2 _ c cs hdigit _ ih => exact ih.cons (isBlank_of_isDigit hdigit)
  | case3 _ c cs _ hc _ ih =>
    simp only [Bool.and_eq_true, beq_iff_eq] at hc
    exact ih.cons (hc.1 ▸ hpoint)
  | case4 => exact .nil
  | case5 _ c _ _ hc d ds hd _ ih =>
    have hblank : Text.isBlank c = false := by
      simp only [Bool.or_eq_true, beq_iff_eq] at hc
      rcases hc with rfl | rfl <;> rfl
    have hblank' : Text.isBlank d = false := by
      simp only [Bool.or_eq_true, beq_iff_eq] at hd
      rcases hd with (hd | rfl) | rfl
      · exact isBlank_of_isDigit hd
      · rfl
      · rfl
    exact (ih.cons hblank').cons hblank
  | case6 => exact .nil
  | case7 => exact .nil

/-- A decimal number has no blank. -/
theorem noBlank_decimalLexeme {c : Char} (hc : Text.isBlank c = false) (cs : List Char) : NoBlank (decimalLexeme c cs).text :=
  ((noBlank_decimalBody false cs).cons hc).append (noBlank_takeWhile (fun _ => isBlank_of_isSuffix) _)

/-- No number has a blank, decimal or hexadecimal. -/
theorem noBlank_numberLexeme {c : Char} (hc : Text.isBlank c = false) (cs : List Char) : NoBlank (numberLexeme c cs).text := by
  unfold numberLexeme
  split
  · split
    · rename_i x ds hhex
      have hx : Text.isBlank x = false := by
        simp only [Bool.and_eq_true, Bool.or_eq_true, beq_iff_eq] at hhex
        rcases hhex.2 with rfl | rfl <;> rfl
      have hlead : NoBlank [c, x] := (NoBlank.nil.cons hx).cons hc
      exact (hlead.append (noBlank_takeWhile (fun _ => isBlank_of_isHexDigit) _)).append
        (noBlank_takeWhile (fun _ => isBlank_of_isSuffix) _)
    · exact noBlank_decimalLexeme hc _
  · exact noBlank_decimalLexeme hc _

/-- No word has a blank. -/
theorem noBlank_wordLexeme {c : Char} (hc : Text.isBlank c = false) (cs : List Char) : NoBlank (wordLexeme c cs).text :=
  (noBlank_takeWhile (fun _ => isBlank_of_isWordChar) cs).cons hc

/-- No mark is a blank. -/
theorem noBlank_markLexeme {c : Char} (hc : Text.isBlank c = false) (cs : List Char) : NoBlank (markLexeme c cs).text := by
  unfold markLexeme
  split
  · split
    · rename_i d ds hshift
      simp only [Bool.and_eq_true, beq_iff_eq] at hshift
      have hd : Text.isBlank d = false := hshift.2 ▸ rfl
      exact (NoBlank.nil.cons hd).cons hc
    · exact NoBlank.nil.cons hc
  · exact NoBlank.nil.cons hc

/-- Quoted text with something behind it has been closed. -/
theorem quotedBody_closed (quote : Char) (cs : List Char) (h : (quotedBody quote cs).2.2 ≠ []) :
    (quotedBody quote cs).2.1 = [quote] := by
  fun_induction quotedBody quote cs with
  | case1 => exact absurd rfl h
  | case2 c => exact absurd rfl h
  | case3 c => exact absurd rfl h
  | case4 c d cs hc => rw [eq_of_beq hc]
  | case5 c d cs _ _ _ ih => exact ih h
  | case6 c d cs _ _ _ ih => exact ih h

/-- A lexeme that begins with no blank ends with none, unless it runs to the end of the text. -/
theorem isBlank_getLast_lexeme {c : Char} {cs : List Char} (hc : Text.isBlank c = false) (hrest : (lexeme c cs).rest ≠ [])
    {d : Char} (hd : (lexeme c cs).text.getLast? = some d) : Text.isBlank d = false := by
  have hlast := List.mem_of_getLast? hd
  unfold lexeme at hrest hd hlast
  split at hlast
  · rename_i hquote
    rw [if_pos hquote] at hrest hd
    have hclosed := quotedBody_closed c cs hrest
    simp only [quotedLexeme, hclosed] at hd
    rw [← List.cons_append, List.getLast?_concat] at hd
    rw [← Option.some.inj hd]
    exact hc
  · split at hlast
    · exact noBlank_numberLexeme hc cs d hlast
    · split at hlast
      · exact noBlank_wordLexeme hc cs d hlast
      · exact noBlank_markLexeme hc cs d hlast

/-! ## Spans -/

/-- The offset grows by the number of characters. -/
@[simp] theorem Place.offset_after (p : Place) (cs : List Char) : (p.after cs).offset = p.offset + cs.length := by
  unfold Place.after
  induction cs generalizing p with
  | nil => rfl
  | cons c cs ih =>
    rw [List.foldl_cons, ih, List.length_cons]
    simp only [Place.next]
    omega

/-- The token covers characters of the text, of which the first is no blank, nor the last unless the text ends there. -/
structure Token.Spans (source : List Char) (t : Token) : Prop where
  start_lt_stop : t.start < t.stop
  stop_le_length : t.stop ≤ source.length
  first : ∀ c, source[t.start]? = some c → Text.isBlank c = false
  last : t.stop < source.length → ∀ c, source[t.stop - 1]? = some c → Text.isBlank c = false

/-- Where no gap begins there is no blank. -/
theorem gap?_blank {c : Char} {cs : List Char} (h : gap? (c :: cs) = none) : Text.isBlank c = false := by
  simp only [gap?] at h
  split at h
  · cases h
  · rename_i hc
    exact Bool.eq_false_iff.mpr hc

/-- A token covers the characters of its lexeme. -/
theorem spans_lexeme {p : Place} {before : List Char} (hp : p.offset = before.length) {c : Char} {cs : List Char}
    (hc : Text.isBlank c = false) : (Token.at p (lexeme c cs).kind (lexeme c cs).text.length).Spans (before ++ c :: cs) := by
  have happend := lexeme_append c cs
  have hpos := List.length_pos_iff.mpr (lexeme_text_ne_nil c cs)
  have hlength := congrArg List.length happend
  rw [List.length_append] at hlength
  refine ⟨?_, ?_, ?_, ?_⟩
  · simp only [Token.at]
    omega
  · simp only [Token.at, List.length_append]
    omega
  · intro d hd
    rw [Token.at, hp, List.getElem?_append_right (Nat.le_refl _), Nat.sub_self, List.getElem?_cons_zero] at hd
    rw [← Option.some.inj hd]
    exact hc
  · intro hstop d hd
    simp only [Token.at, List.length_append] at hstop hd
    have hrest : (lexeme c cs).rest ≠ [] := by
      intro hnil
      rw [hnil, List.length_nil] at hlength
      omega
    have hplace : p.offset + (lexeme c cs).text.length - 1 = before.length + ((lexeme c cs).text.length - 1) := by omega
    rw [hplace, List.getElem?_append_right (Nat.le_add_right ..), Nat.add_sub_cancel_left, ← happend,
      List.getElem?_append_left (by omega), ← List.getLast?_eq_getElem?] at hd
    exact isBlank_getLast_lexeme hc hrest hd

/-- The tokens of a text cover their characters, one behind the other. -/
theorem spans_tokensFrom (p : Place) (cs : List Char) :
    ∀ before : List Char, p.offset = before.length →
      (∀ t ∈ tokensFrom p cs, p.offset ≤ t.start ∧ t.Spans (before ++ cs)) ∧
        (tokensFrom p cs).Pairwise fun t u => t.stop ≤ u.start := by
  fun_induction tokensFrom p cs with
  | case1 => exact fun _ _ => ⟨List.forall_mem_nil _, List.Pairwise.nil⟩
  | case2 p c cs g hg ih =>
    intro before hp
    have happend := gap?_append hg
    obtain ⟨hspans, hsorted⟩ := ih (before ++ g.1) (by rw [Place.offset_after, hp, List.length_append])
    rw [List.append_assoc, happend] at hspans
    refine ⟨fun t ht => ⟨?_, (hspans t ht).2⟩, hsorted⟩
    have hle := (hspans t ht).1
    rw [Place.offset_after] at hle
    omega
  | case3 p c cs hg l ih =>
    intro before hp
    have happend : l.text ++ l.rest = c :: cs := lexeme_append c cs
    obtain ⟨hspans, hsorted⟩ := ih (before ++ l.text) (by rw [Place.offset_after, hp, List.length_append])
    rw [List.append_assoc, happend] at hspans
    have hbehind : ∀ t ∈ tokensFrom (p.after l.text) l.rest, p.offset + l.text.length ≤ t.start := by
      intro t ht
      have hle := (hspans t ht).1
      rwa [Place.offset_after] at hle
    refine ⟨List.forall_mem_cons.mpr ⟨⟨Nat.le_refl _, spans_lexeme hp (gap?_blank hg)⟩, ?_⟩, ?_⟩
    · exact fun t ht => ⟨Nat.le_trans (Nat.le_add_right ..) (hbehind t ht), (hspans t ht).2⟩
    · exact List.pairwise_cons.mpr ⟨hbehind, hsorted⟩

/-- The tokens cover characters of the text, one behind the other. -/
structure Lined (source : List Char) (ts : List Token) : Prop where
  spans : ∀ t ∈ ts, t.Spans source
  sorted : ts.Pairwise fun t u => t.stop ≤ u.start

/-- The last tokens of a line stand in line. -/
theorem Lined.of_suffix {source : List Char} {ts us : List Token} (h : Lined source us) (hs : ts <:+ us) : Lined source ts :=
  ⟨fun t ht => h.spans t (hs.subset ht), h.sorted.sublist hs.sublist⟩

/-- The first tokens of a line stand in line. -/
theorem Lined.of_prefix {source : List Char} {ts us : List Token} (h : Lined source us) (hs : ts <+: us) : Lined source ts :=
  ⟨fun t ht => h.spans t (hs.subset ht), h.sorted.sublist hs.sublist⟩

/-- A token that several were folded into begins where the first of them does. -/
theorem exists_start_of_mem_foldCompounds {ts : List Token} {u : Token} (hu : u ∈ foldCompounds ts) :
    ∃ t ∈ ts, u.start = t.start := by
  fun_induction foldCompounds ts with
  | case1 => exact absurd hu List.not_mem_nil
  | case2 t ts name n _ ih =>
    rcases List.mem_cons.mp hu with rfl | hu
    · exact ⟨t, List.mem_cons_self, rfl⟩
    · obtain ⟨t', ht', hstart⟩ := ih hu
      exact ⟨t', List.mem_cons_of_mem _ (List.mem_of_mem_drop ht'), hstart⟩
  | case3 t ts _ ih =>
    rcases List.mem_cons.mp hu with rfl | hu
    · exact ⟨u, List.mem_cons_self, rfl⟩
    · obtain ⟨t', ht', hstart⟩ := ih hu
      exact ⟨t', List.mem_cons_of_mem _ ht', hstart⟩

/-- A folded token ends where one of its tokens does, which is the last one. -/
theorem stop_fold (t : Token) (name : String) (folded : List Token) :
    ∃ u ∈ t :: folded, (t.fold name folded).stop = u.stop ∧ (t :: folded).getLast? = some u := by
  cases h : folded.getLast? with
  | none =>
    obtain rfl := List.getLast?_eq_none_iff.mp h
    exact ⟨t, List.mem_cons_self, rfl, rfl⟩
  | some u =>
    refine ⟨u, List.mem_cons_of_mem _ (List.mem_of_getLast? h), ?_, ?_⟩
    · rw [Token.fold, h]
      rfl
    · rw [List.getLast?_cons, h]
      rfl

/-- Folding puts one token in the place of several, from the start of the first to the end of the last. -/
theorem Lined.foldCompounds {source : List Char} {ts : List Token} (h : Lined source ts) : Lined source (foldCompounds ts) := by
  fun_induction HeaderAtlas.foldCompounds ts with
  | case1 => exact h
  | case2 t ts name n _ ih =>
    have hrest := ih (h.of_suffix ((List.drop_suffix n ts).trans (List.suffix_cons t ts)))
    obtain ⟨u, hu, hstop, hlast⟩ := stop_fold t name (ts.take n)
    have hsplit : t :: ts = (t :: ts.take n) ++ ts.drop n := by rw [List.cons_append, List.take_append_drop]
    have hsorted := h.sorted
    rw [hsplit, List.pairwise_append] at hsorted
    have hspans : u.Spans source := h.spans u (hsplit ▸ List.mem_append_left _ hu)
    have hbehind : ∀ v ∈ HeaderAtlas.foldCompounds (ts.drop n), u.stop ≤ v.start := by
      intro v hv
      obtain ⟨w, hw, hstart⟩ := exists_start_of_mem_foldCompounds hv
      rw [hstart]
      exact hsorted.2.2 u hu w hw
    have hstart : t.start ≤ u.start := by
      rcases List.mem_cons.mp hu with rfl | hu
      · exact Nat.le_refl _
      · have hle := List.rel_of_pairwise_cons hsorted.1 hu
        have hlt := (h.spans t List.mem_cons_self).start_lt_stop
        omega
    refine ⟨List.forall_mem_cons.mpr ⟨⟨?_, ?_, ?_, ?_⟩, hrest.spans⟩, List.pairwise_cons.mpr ⟨?_, hrest.sorted⟩⟩
    · rw [hstop]
      exact Nat.lt_of_le_of_lt hstart hspans.start_lt_stop
    · rw [hstop]
      exact hspans.stop_le_length
    · exact (h.spans t List.mem_cons_self).first
    · rw [hstop]
      exact hspans.last
    · rw [hstop]
      exact hbehind
  | case3 t ts _ ih =>
    have hrest := ih (h.of_suffix (List.suffix_cons t ts))
    refine ⟨List.forall_mem_cons.mpr ⟨h.spans t List.mem_cons_self, hrest.spans⟩, List.pairwise_cons.mpr ⟨?_, hrest.sorted⟩⟩
    intro v hv
    obtain ⟨w, hw, hstart⟩ := exists_start_of_mem_foldCompounds hv
    rw [hstart]
    exact List.rel_of_pairwise_cons h.sorted hw

/-- The tokens of every text stand in line. -/
theorem lined_tokens (source : List Char) : Lined source (tokens source) := by
  obtain ⟨hspans, hsorted⟩ := spans_tokensFrom .start source [] rfl
  exact Lined.foldCompounds ⟨fun t ht => (hspans t ht).2, hsorted⟩

/-! ## The text from one token to another -/

/-- There is nothing to trim where neither end is to go. -/
theorem trimBy_eq_self {p : Char → Bool} {cs : List Char} (hfirst : ∀ c, cs.head? = some c → p c = false)
    (hlast : ∀ c, cs.getLast? = some c → p c = false) : Text.trimBy p cs = cs := by
  have hdrop : ∀ {ds : List Char}, (∀ c, ds.head? = some c → p c = false) → ds.dropWhile p = ds := by
    intro ds h
    cases ds with
    | nil => rfl
    | cons c ds => rw [List.dropWhile_cons_of_neg (by rw [h c rfl]; decide)]
  rw [Text.trimBy, hdrop hfirst, hdrop (by rw [List.head?_reverse]; exact hlast), List.reverse_reverse]

/-- A first character that stays keeps the front of what is behind it. -/
theorem trimBy_cons {p : Char → Bool} {c : Char} (hc : p c = false) (cs : List Char) :
    ∃ front more, cs = front ++ more ∧ Text.trimBy p (c :: cs) = c :: front := by
  refine ⟨(cs.reverse.dropWhile p).reverse, (cs.reverse.takeWhile p).reverse, ?_, ?_⟩
  · rw [← List.reverse_append, List.takeWhile_append_dropWhile, List.reverse_reverse]
  · have hsingle : [c].dropWhile p = [c] := by rw [List.dropWhile_cons, hc, if_neg Bool.false_ne_true]
    rw [Text.trimBy, List.dropWhile_cons, hc, if_neg Bool.false_ne_true, List.reverse_cons, List.dropWhile_append, hsingle]
    split
    · rename_i hempty
      rw [List.isEmpty_iff.mp hempty]
      rfl
    · rw [List.reverse_append]
      rfl

/-- A text that begins with what is not trimmed is not trimmed away. -/
theorem trimBy_ne_nil {p : Char → Bool} {c : Char} (hc : p c = false) (cs : List Char) : Text.trimBy p (c :: cs) ≠ [] := by
  obtain ⟨front, more, -, htrim⟩ := trimBy_cons hc cs
  rw [htrim]
  exact List.cons_ne_nil c front

/-- The text from the first to the last of some tokens, as it is written. -/
def runSpan (source : List Char) (run : List Token) : List Char :=
  let start := (run.head?.map Token.start).getD 0
  (source.drop start).take ((run.getLast?.map Token.stop).getD 0 - start)

/-- The text from the first to the last of some tokens, without the blanks it ends with. -/
def runText (source : List Char) : List Token → List Char
  | [] => []
  | t :: ts =>
    Text.trimBy Text.isBlank ((source.drop t.start).take (((t :: ts).getLast?.map Token.stop).getD t.start - t.start))

/-- The text of a run is trimmed at both ends. -/
theorem runText_eq (source : List Char) (run : List Token) : runText source run = Text.trimBy Text.isBlank (runSpan source run) := by
  cases run with
  | nil => rfl
  | cons t ts =>
    rw [runText, runSpan, List.getLast?_cons]
    rfl

section

variable {source : List Char} {run : List Token}

/-- The text of a run goes from the start of its first token to the end of its last one. -/
theorem Lined.runSpan_eq (h : Lined source run) (hne : run ≠ []) :
    ∃ first ∈ run, ∃ last ∈ run, first.start < last.stop ∧
      (runSpan source run).length = last.stop - first.start ∧
      ∀ i < last.stop - first.start, (runSpan source run)[i]? = source[first.start + i]? := by
  obtain ⟨first, tail, rfl⟩ := List.exists_cons_of_ne_nil hne
  obtain ⟨last, hlast⟩ : ∃ last, (first :: tail).getLast? = some last := ⟨_, List.getLast?_eq_some_getLast hne⟩
  have hmem := List.mem_of_getLast? hlast
  have hfirst := h.spans first List.mem_cons_self
  have hspans := h.spans last hmem
  have hlt : first.start < last.stop := by
    rcases List.mem_cons.mp hmem with rfl | htail
    · exact hfirst.start_lt_stop
    · have hle := List.rel_of_pairwise_cons h.sorted htail
      exact Nat.lt_of_lt_of_le hfirst.start_lt_stop (Nat.le_trans hle (Nat.le_of_lt hspans.start_lt_stop))
  have hspan : runSpan source (first :: tail) = (source.drop first.start).take (last.stop - first.start) := by
    rw [runSpan, hlast]
    rfl
  refine ⟨first, List.mem_cons_self, last, hmem, hlt, ?_, fun i hi => ?_⟩
  · have hle := hspans.stop_le_length
    rw [hspan, List.length_take, List.length_drop]
    omega
  · rw [hspan, List.getElem?_take_of_lt hi, List.getElem?_drop]

/-- The text of a run begins with no blank. -/
theorem Lined.head?_runSpan (h : Lined source run) (hne : run ≠ []) :
    ∃ d, (runSpan source run).head? = some d ∧ Text.isBlank d = false := by
  obtain ⟨first, hfirst, last, hlast, hlt, -, hget⟩ := h.runSpan_eq hne
  have hlength : first.start < source.length := Nat.lt_of_lt_of_le hlt (h.spans last hlast).stop_le_length
  have hd : source[first.start]? = some source[first.start] := List.getElem?_eq_getElem hlength
  refine ⟨source[first.start], ?_, (h.spans first hfirst).first _ hd⟩
  rw [List.head?_eq_getElem?, hget 0 (Nat.sub_pos_of_lt hlt)]
  exact hd

/-- A run of tokens has a text. -/
theorem Lined.runText_ne_nil (h : Lined source run) (hne : run ≠ []) : runText source run ≠ [] := by
  obtain ⟨d, hd, hblank⟩ := h.head?_runSpan hne
  obtain ⟨ds, hspan⟩ := List.head?_eq_some_iff.mp hd
  rw [runText_eq, hspan]
  exact trimBy_ne_nil hblank ds

/-- The text of a run with a token behind it has no blank at either end. -/
theorem Lined.runText_eq_runSpan {t : Token} {rest : List Token} (h : Lined source (run ++ t :: rest)) (hne : run ≠ []) :
    runText source run = runSpan source run := by
  rw [runText_eq]
  have hrun := h.of_prefix (List.prefix_append _ _)
  obtain ⟨d, hd, hblank⟩ := hrun.head?_runSpan hne
  refine trimBy_eq_self (fun e he => ?_) (fun e he => ?_)
  · rw [hd] at he
    rwa [← Option.some.inj he]
  · obtain ⟨first, -, last, hlast, hlt, hlength, hget⟩ := hrun.runSpan_eq hne
    have ht := h.spans t (List.mem_append_right _ List.mem_cons_self)
    have hbehind : last.stop ≤ t.start := (List.pairwise_append.mp h.sorted).2.2 last hlast t List.mem_cons_self
    have hstop : last.stop < source.length := Nat.lt_of_le_of_lt hbehind (Nat.lt_of_lt_of_le ht.start_lt_stop ht.stop_le_length)
    have hplace : first.start + (last.stop - first.start - 1) = last.stop - 1 := by omega
    rw [List.getLast?_eq_getElem?, hlength, hget _ (by omega), hplace] at he
    exact (hrun.spans last hlast).last hstop e he

end

namespace Cursor

/-- The unread tokens are tokens of the text of the cursor. -/
def Lined (c : Cursor) : Prop := HeaderAtlas.Lined c.source c.unread

/-- At the start of a text its tokens stand in line. -/
theorem lined_ofText (s : String) : (ofText s).Lined := lined_tokens s.toList

/-- The tokens that are left further on stand in line. -/
theorem Lined.onward {c c' : Cursor} (h : c.Lined) (hon : c.Onward c') : c'.Lined := by
  unfold Lined
  rw [hon.source_eq]
  exact h.of_suffix hon.suffix

end Cursor

end HeaderAtlas
