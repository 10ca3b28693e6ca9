import Mathlib.Data.List.Forall2
import HeaderAtlas.Proofs.Token.Exact

/-!
# Folding is complete

Folding cuts the tokens into runs, from the first token to the last. A run is the longest spelling of a primitive type that begins
where the run does, and becomes one token that covers it, or it is a single token where none begins (`Token.StandsFor`,
`exists_runs`). No name of a primitive type is a word of a spelling, so a spelling among folded tokens was there before, and it would
have been folded: none is left (`spellsNone_foldCompounds`). Tokens among which there is none are left as they are, so folding again
changes nothing (`foldCompounds_complete`).
-/

namespace HeaderAtlas

/-! ## Spellings at the head of tokens -/

/-- The tokens begin with these words. -/
def BeginWith (ts : List Token) (words : List String) : Prop := words.map .word <+: ts.map Token.kind

/-- Where a spelling begins, a compound is found, and it is at least as long. -/
theorem exists_compoundName? {words : List String} {name : String} (hmem : (words, name) ∈ compoundSpellings)
    {first second third : Option String} (h : words.map some <+: [first, second, third]) :
    ∃ r, compoundName? first second third = some r ∧ words.length ≤ r.2 + 1 := by
  simp only [compoundSpellings, List.mem_cons, Prod.mk.injEq, List.not_mem_nil, or_false] at hmem
  rcases hmem with ⟨rfl, -⟩ | ⟨rfl, -⟩ | ⟨rfl, -⟩ | ⟨rfl, -⟩ | ⟨rfl, -⟩ | ⟨rfl, -⟩ | ⟨rfl, -⟩ | ⟨rfl, -⟩ | ⟨rfl, -⟩
  all_goals
    simp only [List.map_cons, List.map_nil, List.cons_prefix_cons] at h
    unfold compoundName?
    split <;> simp_all

/-- No spelling has more than three words. -/
theorem length_words_le_three : ∀ s ∈ compoundSpellings, s.1.length ≤ 3 := by decide

/-- Three words are all that is looked at, and tokens that are no words or not there are none of them. -/
theorem BeginWith.words_ahead {t : Token} {ts : List Token} {words : List String} (h : BeginWith (t :: ts) words)
    (hlength : words.length ≤ 3) :
    words.map some <+: [t.word?, ts.head?.bind Token.word?, (ts.drop 1).head?.bind Token.word?] := by
  have hwords : words.map some <+: (t :: ts).map Token.word? := by
    have hmap := h.map Token.Kind.word?
    rw [List.map_map, List.map_map] at hmap
    exact hmap
  rcases ts with - | ⟨u, - | ⟨v, ts⟩⟩
  · exact hwords.trans ⟨[none, none], rfl⟩
  · exact hwords.trans ⟨[none], rfl⟩
  · exact List.prefix_of_prefix_length_le hwords ⟨ts.map Token.word?, rfl⟩ (by simpa using hlength)

/-- Where a spelling begins, no shorter one is folded. -/
theorem BeginWith.exists_compoundAt? {t : Token} {ts : List Token} {words : List String} {name : String}
    (h : BeginWith (t :: ts) words) (hmem : (words, name) ∈ compoundSpellings) :
    ∃ r, compoundAt? t ts = some r ∧ words.length ≤ r.2 + 1 :=
  exists_compoundName? hmem (h.words_ahead (length_words_le_three _ hmem))

/-- Where nothing is folded no spelling begins. -/
theorem not_beginWith_of_compoundAt? {t : Token} {ts : List Token} (h : compoundAt? t ts = none) :
    ∀ s ∈ compoundSpellings, ¬BeginWith (t :: ts) s.1 := by
  intro s hs hbegin
  obtain ⟨r, hr, -⟩ := hbegin.exists_compoundAt? hs
  rw [h] at hr
  cases hr

/-! ## Runs -/

/-- A token that a run of tokens became. It is the only one of them; or they are the words of a primitive type, and it has the name of
the type, begins where the first of them does and ends where the last of them does. -/
inductive Token.StandsFor : Token → List Token → Prop where
  | kept (t : Token) : StandsFor t [t]
  | folded {words : List String} {name : String} (hmem : (words, name) ∈ compoundSpellings) {run : List Token}
      (hwords : run.map Token.kind = words.map .word) {first last : Token} (hfirst : run.head? = some first)
      (hlast : run.getLast? = some last) : StandsFor ⟨.word name, first.start, last.stop, first.location⟩ run

/-- No spelling that begins where one of the runs does goes beyond its end. -/
def Longest (runs : List (List Token)) : Prop :=
  ∀ run rest, run :: rest <:+ runs → ∀ s ∈ compoundSpellings, BeginWith (run ++ rest.flatten) s.1 → s.1.length ≤ run.length

/-- A run may be put in front if no spelling that begins with it goes beyond its end. -/
theorem Longest.cons {run : List Token} {runs : List (List Token)} (h : Longest runs)
    (hrun : ∀ s ∈ compoundSpellings, BeginWith (run ++ runs.flatten) s.1 → s.1.length ≤ run.length) : Longest (run :: runs) := by
  intro run' rest hsuffix
  rcases List.suffix_cons_iff.mp hsuffix with heq | hsuffix
  · obtain ⟨rfl, rfl⟩ := List.cons.inj heq
    exact hrun
  · exact h run' rest hsuffix

/-- A folded token stands for the words of its compound. -/
theorem standsFor_fold {t : Token} {ts : List Token} {name : String} {n : Nat} (h : compoundAt? t ts = some (name, n)) :
    (t.fold name (ts.take n)).StandsFor (t :: ts.take n) := by
  obtain ⟨words, hmem, hwords⟩ := words_of_compoundAt? h
  obtain ⟨last, -, hstop, hlast⟩ := stop_fold t name (ts.take n)
  have heq : t.fold name (ts.take n) = ⟨.word name, t.start, last.stop, t.location⟩ := by
    rw [← hstop]
    rfl
  rw [heq]
  exact .folded hmem hwords rfl hlast

/-- Every token is in one of the runs that the folded tokens stand for, in the order of the tokens. -/
theorem exists_runs (ts : List Token) :
    ∃ runs, runs.flatten = ts ∧ List.Forall₂ Token.StandsFor (foldCompounds ts) runs ∧ Longest runs := by
  fun_induction foldCompounds ts with
  | case1 => exact ⟨[], rfl, .nil, fun run rest hsuffix => absurd (List.suffix_nil.mp hsuffix) (List.cons_ne_nil run rest)⟩
  | case2 t ts name n hcompound ih =>
    obtain ⟨runs, hflatten, hstands, hlongest⟩ := ih
    have hle := le_length_of_compoundAt? hcompound
    refine ⟨(t :: ts.take n) :: runs, ?_, .cons (standsFor_fold hcompound) hstands, hlongest.cons fun s hs hbegin => ?_⟩
    · rw [List.flatten_cons, hflatten, List.cons_append, List.take_append_drop]
    · rw [hflatten, List.cons_append, List.take_append_drop] at hbegin
      obtain ⟨r, hr, hlength⟩ := hbegin.exists_compoundAt? hs
      obtain rfl := Option.some.inj (hcompound.symm.trans hr)
      rwa [List.length_cons, List.length_take, Nat.min_eq_left hle]
  | case3 t ts hcompound ih =>
    obtain ⟨runs, hflatten, hstands, hlongest⟩ := ih
    refine ⟨[t] :: runs, by rw [List.flatten_cons, hflatten, List.singleton_append], .cons (.kept t) hstands,
      hlongest.cons fun s hs hbegin => ?_⟩
    rw [hflatten, List.singleton_append] at hbegin
    exact absurd hbegin (not_beginWith_of_compoundAt? hcompound s hs)

/-! ## Nothing is left to fold -/

/-- Nowhere among the tokens is a spelling of a primitive type. -/
def SpellsNone (ts : List Token) : Prop := ∀ s ∈ compoundSpellings, ¬s.1.map .word <:+: ts.map Token.kind

/-- Tokens that spell no compound spell none further on. -/
theorem SpellsNone.tail {t : Token} {ts : List Token} (h : SpellsNone (t :: ts)) : SpellsNone ts :=
  fun s hs hinside => h s hs (List.infix_cons_iff.mpr (Or.inr hinside))

/-- A token may be put in front if no spelling begins with it. -/
theorem SpellsNone.cons {t : Token} {ts : List Token} (h : SpellsNone ts)
    (hbegin : ∀ s ∈ compoundSpellings, ¬BeginWith (t :: ts) s.1) : SpellsNone (t :: ts) := by
  intro s hs hinside
  rcases List.infix_cons_iff.mp hinside with hhead | hinside
  · exact hbegin s hs hhead
  · exact h s hs hinside

/-- The name of a primitive type is not a word of a spelling. -/
theorem name_not_mem_words : ∀ s ∈ compoundSpellings, ∀ r ∈ compoundSpellings, r.2 ∉ s.1 := by decide

/-- A token that words were folded into is not a word of a spelling. -/
theorem not_beginWith_fold {t : Token} {ts : List Token} {name : String} {n : Nat} (h : compoundAt? t ts = some (name, n))
    {words : List String} (hne : words ≠ []) (hnames : ∀ r ∈ compoundSpellings, r.2 ∉ words) (run rest : List Token) :
    ¬BeginWith (t.fold name run :: rest) words := by
  intro hbegin
  obtain ⟨word, words, rfl⟩ := List.exists_cons_of_ne_nil hne
  have hword : Token.Kind.word word = .word name := (List.cons_prefix_cons.mp hbegin).1
  obtain ⟨spelled, hmem, -⟩ := words_of_compoundAt? h
  exact hnames _ hmem (by simp [Token.Kind.word.inj hword])

/-- Words that are no names of primitive types were there before, if they are there after folding. -/
theorem beginWith_of_foldCompounds (ts : List Token) :
    ∀ words, (∀ r ∈ compoundSpellings, r.2 ∉ words) → BeginWith (foldCompounds ts) words → BeginWith ts words := by
  fun_induction foldCompounds ts with
  | case1 => exact fun _ _ h => h
  | case2 t ts name n hcompound _ =>
    intro words hnames h
    by_cases hne : words = []
    · subst hne
      exact List.nil_prefix
    · exact absurd h (not_beginWith_fold hcompound hne hnames _ _)
  | case3 t ts _ ih =>
    intro words hnames h
    cases words with
    | nil => exact List.nil_prefix
    | cons word words =>
      obtain ⟨hword, hrest⟩ := List.cons_prefix_cons.mp h
      have hnames' : ∀ r ∈ compoundSpellings, r.2 ∉ words := fun r hr hin => hnames r hr (List.mem_cons_of_mem _ hin)
      exact List.cons_prefix_cons.mpr ⟨hword, ih words hnames' hrest⟩

/-- Folded tokens spell no compound any more. -/
theorem spellsNone_foldCompounds (ts : List Token) : SpellsNone (foldCompounds ts) := by
  have hne : ∀ s ∈ compoundSpellings, s.1 ≠ [] := by decide
  fun_induction foldCompounds ts with
  | case1 => exact fun s hs hinside => hne s hs (List.map_eq_nil_iff.mp (List.infix_nil.mp hinside))
  | case2 t ts name n hcompound ih =>
    exact ih.cons fun s hs => not_beginWith_fold hcompound (hne s hs) (name_not_mem_words s hs) _ _
  | case3 t ts hcompound ih =>
    refine ih.cons fun s hs hbegin => ?_
    -- all words of the spelling were kept, so it begins at a token where none begins
    refine not_beginWith_of_compoundAt? hcompound s hs (beginWith_of_foldCompounds (t :: ts) s.1 (name_not_mem_words s hs) ?_)
    rwa [foldCompounds, hcompound]

/-- Tokens that spell no compound stay as they are. -/
theorem foldCompounds_of_spellsNone {ts : List Token} (h : SpellsNone ts) : foldCompounds ts = ts := by
  induction ts with
  | nil => rw [foldCompounds]
  | cons t ts ih =>
    have hnone : compoundAt? t ts = none := by
      rw [Option.eq_none_iff_forall_ne_some]
      rintro ⟨name, n⟩ hcompound
      obtain ⟨words, hmem, hwords⟩ := words_of_compoundAt? hcompound
      have hbegin : BeginWith (t :: ts) words := by
        rw [BeginWith, ← hwords]
        exact ((List.prefix_cons_inj t).mpr (List.take_prefix n ts)).map Token.kind
      exact h _ hmem hbegin.isInfix
    rw [foldCompounds, hnone]
    dsimp only
    rw [ih h.tail]

/-- The end of the text is no word, and stays behind what is folded. -/
theorem foldCompounds_concat_eof (front : List Token) {last : Token} (h : last.kind = .eof) :
    foldCompounds (front ++ [last]) = foldCompounds front ++ [last] := by
  have hword : last.word? = none := congrArg Token.Kind.word? h
  have hhead : [last].head?.bind Token.word? = none := hword
  rw [foldCompounds_append front hhead, foldCompounds_cons [] (by simp [hword]), foldCompounds]

/-- Where no compound is spelled, no word is a spelling alone. -/
theorem SpellsNone.not_mem {ts : List Token} (h : SpellsNone ts) {word name : String}
    (hmem : ([word], name) ∈ compoundSpellings) : Token.Kind.word word ∉ ts.map Token.kind := by
  intro hword
  obtain ⟨front, back, hsplit⟩ := List.append_of_mem hword
  exact h _ hmem ⟨front, back, by simp [hsplit]⟩

/-- Folding is complete and stable. Neither `short` nor `long` is left, nor `unsigned` in front of `char` or `int`, nor `signed` in
front of `char`; folding again changes nothing. The tokens are those of some runs, one behind the other, each as long as a spelling
can be where it begins, and a run became one token that covers it, or is a token that was kept. The end of the text stays behind the
folded tokens. -/
theorem foldCompounds_complete (ts : List Token) :
    let kinds := (foldCompounds ts).map Token.kind
    (.word "short" ∉ kinds ∧ .word "long" ∉ kinds ∧ ¬[.word "unsigned", .word "char"] <:+: kinds ∧
      ¬[.word "unsigned", .word "int"] <:+: kinds ∧ ¬[.word "signed", .word "char"] <:+: kinds) ∧
    foldCompounds (foldCompounds ts) = foldCompounds ts ∧
    (∃ runs, runs.flatten = ts ∧ List.Forall₂ Token.StandsFor (foldCompounds ts) runs ∧ Longest runs) ∧
    ∀ front last, ts = front ++ [last] → last.kind = .eof → foldCompounds ts = foldCompounds front ++ [last] := by
  intro kinds
  have hnone := spellsNone_foldCompounds ts
  refine ⟨⟨?_, ?_, ?_, ?_, ?_⟩, foldCompounds_of_spellsNone hnone, exists_runs ts, ?_⟩
  · exact hnone.not_mem (show (["short"], "int16_t") ∈ compoundSpellings by decide)
  · exact hnone.not_mem (show (["long"], "int64_t") ∈ compoundSpellings by decide)
  · exact hnone (["unsigned", "char"], "uint8_t") (by decide)
  · exact hnone (["unsigned", "int"], "uint32_t") (by decide)
  · exact hnone (["signed", "char"], "int8_t") (by decide)
  · rintro front last rfl hlast
    exact foldCompounds_concat_eof front hlast

/-- Words of which several spellings begin one within the other: a word that is kept in front of one that is folded, three words of
which the first two are folded, and four of which the first three are. -/
theorem foldCompounds_complete_at_overlaps :
    let front := tokensFrom .start "unsigned unsigned int long long long unsigned long long long".toList
    let last : Token := ⟨.eof, 60, 60, ⟨1, 61⟩⟩
    let folded : List Token := [⟨.word "unsigned", 0, 8, ⟨1, 1⟩⟩, ⟨.word "uint32_t", 9, 21, ⟨1, 10⟩⟩, ⟨.word "int64_t", 22, 31, ⟨1, 23⟩⟩,
      ⟨.word "int64_t", 32, 36, ⟨1, 33⟩⟩, ⟨.word "uint64_t", 37, 55, ⟨1, 38⟩⟩, ⟨.word "int64_t", 56, 60, ⟨1, 57⟩⟩]
    foldCompounds front = folded ∧ foldCompounds (front ++ [last]) = folded ++ [last] ∧
      foldCompounds (folded ++ [last]) = folded ++ [last] ∧
      ∃ runs, runs.flatten = front ++ [last] ∧ List.Forall₂ Token.StandsFor (folded ++ [last]) runs ∧ Longest runs := by
  intro front last folded
  have hfront : foldCompounds front = folded := by decide +kernel
  obtain ⟨-, hstable, hruns, hlast⟩ := foldCompounds_complete (front ++ [last])
  have hwhole := hlast front last rfl rfl
  rw [hfront] at hwhole
  rw [hwhole] at hstable hruns
  exact ⟨hfront, hwhole, hstable, hruns⟩

end HeaderAtlas
