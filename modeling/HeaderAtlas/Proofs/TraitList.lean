import HeaderAtlas.Declaration.TraitList
import HeaderAtlas.Proofs.Enum.Reading
import HeaderAtlas.Proofs.Token.Chunk

/-!
# Writing trait lists

A trait list is written as `(key, key="value", …)`, with two backticks for each quote in a value. What is written so reads as the
list it was written for, and nothing behind its closing parenthesis is touched (`takeTraits_written`). Keys are plain words, of
which the lexer folds `short` and `long` into other names; a value may hold anything but backslashes and backticks.
-/

namespace HeaderAtlas

/-! ## Quotes -/

/-- The characters of a value with two backticks for each quote. -/
def hideQuotes (cs : List Char) : List Char := cs.flatMap fun c => if c = '"' then ['\x60', '\x60'] else [c]

/-- Quotes that are hidden are restored. -/
theorem restoreQuotes_hideQuotes (cs : List Char) (h : '\x60' ∉ cs) : restoreQuotes (hideQuotes cs) = cs := by
  induction cs with
  | nil => rfl
  | cons c cs ih =>
    rw [List.mem_cons, not_or] at h
    obtain ⟨hc, hcs⟩ := h
    have hrest : restoreQuotes (hideQuotes cs) = cs := ih hcs
    rw [hideQuotes, List.flatMap_cons]
    by_cases hquote : c = '"'
    · rw [if_pos hquote, hquote]
      exact congrArg (List.cons '"') hrest
    · rw [if_neg hquote, List.singleton_append, restoreQuotes.eq_def]
      dsimp only
      rw [if_neg (by simpa using Ne.symm hc)]
      exact congrArg (List.cons c) hrest

/-- A text with hidden quotes has no quote, and no backslash. -/
theorem ne_of_mem_hideQuotes {cs : List Char} (h : '\\' ∉ cs) : ∀ c ∈ hideQuotes cs, c ≠ '"' ∧ c ≠ '\\' := by
  intro c hc
  obtain ⟨d, hd, hmem⟩ := List.mem_flatMap.mp hc
  split at hmem
  · obtain rfl : c = '\x60' := by simpa using hmem
    exact ⟨by decide, by decide⟩
  · rename_i hquote
    obtain rfl := List.mem_singleton.mp hmem
    exact ⟨hquote, fun hescape => h (hescape ▸ hd)⟩

/-! ## The written list -/

namespace Trait

/-- The trait can be written: its key is a word that stands for itself, and its value holds no backslash and no backtick. -/
structure Writable (t : Trait) : Prop where
  identifier : isIdentifier t.key = true
  ne_short : t.key ≠ "short"
  ne_long : t.key ≠ "long"
  value : ∀ value, t.value = some value → '\\' ∉ value.toList ∧ '\x60' ∉ value.toList

/-- A trait as it is written. -/
def chars (t : Trait) : List Char :=
  match t.value with
  | none => t.key.toList
  | some value => t.key.toList ++ ('=' :: '"' :: (hideQuotes value.toList ++ ['"']))

/-- The tokens of a written trait. -/
def kinds (t : Trait) : List Token.Kind :=
  match t.value with
  | none => [.word t.key]
  | some value => [.word t.key, .mark '=', .quoted (String.ofList (hideQuotes value.toList))]

/-- A trait that can be written is cut into its tokens. -/
theorem Writable.cuts {t : Trait} (h : t.Writable) {rest : List Char} (hrest : breaks rest = true) : Cuts t.kinds t.chars rest := by
  unfold kinds chars
  split
  · exact (oneToken_word h.identifier hrest).cuts
  · rename_i value hvalue
    have hquoted := (oneToken_quoted (.inl rfl) rest (ne_of_mem_hideQuotes (h.value value hvalue).1)).cuts
    have hequals : OneToken (.mark '=') ['='] ('"' :: (hideQuotes value.toList ++ ['"']) ++ rest) := oneToken_mark rfl rfl
    exact (oneToken_word h.identifier rfl).cuts.append (hequals.cuts.append hquoted)

/-- In front of a mark, neither the key nor anything else is folded. -/
theorem Writable.unfolded {t : Trait} (h : t.Writable) : Unfolded t.kinds none := by
  have hkey : ∀ kinds, wordAhead kinds none = none → ∀ name, Token.Kind.word? (.word t.key) = some name →
      name ≠ "short" ∧ name ≠ "long" ∧ (name ∉ foldedWords ∨ wordAhead kinds none = none) := by
    rintro kinds hahead _ ⟨⟩
    exact ⟨h.ne_short, h.ne_long, Or.inr hahead⟩
  unfold kinds
  split
  · exact ⟨hkey [] rfl, trivial⟩
  · exact ⟨hkey _ rfl, by rintro _ ⟨⟩, by rintro _ ⟨⟩, trivial⟩

end Trait

namespace Traits

/-- The entries of a list as they are written, with a comma and a blank between them. -/
def entryChars (ts : Traits) : List Char := [',', ' '].intercalate (ts.map Trait.chars)

/-- A trait list as it is written. -/
def chars (ts : Traits) : List Char := '(' :: (ts.entryChars ++ [')'])

/-- The tokens of the written entries. -/
def entryKinds (ts : Traits) : List Token.Kind := [Token.Kind.mark ','].intercalate (ts.map Trait.kinds)

/-- The entries of a trait list are cut into their tokens. -/
theorem cuts_entryChars (ts : Traits) {rest : List Char} (h : ∀ t ∈ ts, t.Writable) (hrest : breaks rest = true) :
    Cuts (entryKinds ts) (entryChars ts) rest :=
  cuts_intercalate ts (fun t ht _ hbreaks => (h t ht).cuts hbreaks) hrest

/-- No words of a list are folded. -/
theorem unfolded_entryKinds (ts : Traits) (h : ∀ t ∈ ts, t.Writable) : Unfolded (entryKinds ts) none :=
  unfolded_intercalate ts fun t ht => (h t ht).unfolded

end Traits

/-! ## Reading it -/

namespace Cursor

variable {c : Cursor} {rest : List Token} {kinds : List Token.Kind} {symbol : Char}

/-- A name has no further parts where no `:` follows. -/
theorem takeLooseParts_of_not_colon (h : c.sees ':' = false) : c.takeLooseParts = ([], c) := by
  rw [takeLooseParts, atScope, h]
  rfl

/-- A written trait reads as itself, up to a mark that goes on with no value. -/
theorem takeAssigned_faces {t : Trait} (ht : t.Writable) (hequals : (symbol == '=') = false) (hcolon : (symbol == ':') = false)
    (h : c.Faces (t.kinds ++ .mark symbol :: kinds) rest) :
    c.atEnd = false ∧ c.peek.kind = .word t.key ∧
      ∃ ts, c.advance.takeAssigned = (t.value, c.before ts) ∧ (c.before ts).Faces (.mark symbol :: kinds) rest := by
  have hmark : ∀ c : Cursor, c.Faces (.mark symbol :: kinds) rest → c.sees '=' = false ∧ c.sees ':' = false := by
    intro c hc
    rw [hc.sees, hc.sees]
    exact ⟨beq_eq_false_iff_ne.mpr (by simpa using hequals), beq_eq_false_iff_ne.mpr (by simpa using hcolon)⟩
  cases hvalue : t.value with
  | none =>
    rw [Trait.kinds, hvalue] at h
    obtain ⟨hend, hkey, hnext⟩ := h.cons
    refine ⟨hend, hkey, c.advance.unread, ?_, hnext⟩
    rw [takeAssigned, (hmark _ hnext).1]
    rfl
  | some value =>
    rw [Trait.kinds, hvalue] at h
    obtain ⟨hend, hkey, hnext⟩ := h.cons
    obtain ⟨-, hsign, hquoted⟩ := hnext.cons
    obtain ⟨-, htext, hlast⟩ := hquoted.cons
    refine ⟨hend, hkey, c.advance.advance.advance.unread, ?_, hlast⟩
    have hminus : c.advance.advance.sees '-' = false := by rw [Cursor.sees, Token.isMark, htext]; rfl
    rw [takeAssigned, Cursor.sees, Token.isMark, hsign, beq_self_eq_true, if_pos rfl, takeTraitValue, pass, hminus,
      if_neg Bool.false_ne_true, takeValueHead, htext]
    dsimp only
    rw [String.toList_ofList, restoreQuotes_hideQuotes _ (ht.value value hvalue).2, String.ofList_toList,
      takeLooseParts_of_not_colon (hmark _ hlast).2, if_neg Bool.false_ne_true]
    rfl

/-- One turn over a written trait. -/
theorem takeTraitEntries_trait {t : Trait} (ht : t.Writable) (hequals : (symbol == '=') = false) (hcolon : (symbol == ':') = false)
    (h : c.Faces (t.kinds ++ .mark symbol :: kinds) rest) :
    ∃ ts, (c.before ts).Faces (.mark symbol :: kinds) rest ∧
      c.takeTraitEntries = (t :: (c.before ts).takeTraitEntries.1, (c.before ts).takeTraitEntries.2) := by
  obtain ⟨hend, hkey, ts, hassigned, hnext⟩ := takeAssigned_faces ht hequals hcolon h
  refine ⟨ts, hnext, ?_⟩
  have hsees : ∀ symbol, c.sees symbol = false := by
    intro symbol
    rw [Cursor.sees, Token.isMark, hkey]
    rfl
  have hkey? : c.traitKey? = some t.key := by rw [traitKey?, hkey]
  rw [takeTraitEntries, hend, hsees, hsees, hkey?, hassigned]
  rfl

/-- A list is closed by its parenthesis. -/
theorem takeTraitEntries_close (h : c.Faces [.mark ')'] rest) : c.takeTraitEntries = ([], c.before rest) := by
  obtain ⟨hend, -, hnext⟩ := h.cons
  rw [takeTraitEntries, hend, h.sees, beq_self_eq_true, hnext.eq_before]
  rfl

/-- A comma between entries is passed. -/
theorem takeTraitEntries_comma (h : c.Faces (.mark ',' :: kinds) rest) : c.takeTraitEntries = c.advance.takeTraitEntries := by
  obtain ⟨hend, hkind, -⟩ := h.cons
  have hkey : c.traitKey? = none := by rw [traitKey?, hkind]
  rw [takeTraitEntries, hend, h.sees, h.sees, hkey]
  rfl

/-- The written entries are read with the parenthesis that closes them. -/
theorem takeTraitEntries_faces (ts : Traits) (hts : ∀ t ∈ ts, t.Writable) :
    ∀ c : Cursor, c.Faces (ts.entryKinds ++ [.mark ')']) rest → c.takeTraitEntries = (ts, c.before rest) := by
  induction ts with
  | nil => exact fun c h => takeTraitEntries_close h
  | cons t ts ih =>
    intro c h
    obtain ⟨ht, hts⟩ := List.forall_mem_cons.mp hts
    cases ts with
    | nil =>
      rw [Traits.entryKinds, List.map_singleton, List.intercalate_singleton] at h
      obtain ⟨us, hclose, hturn⟩ := takeTraitEntries_trait ht rfl rfl h
      rw [hturn, takeTraitEntries_close hclose]
      rfl
    | cons u us =>
      rw [Traits.entryKinds, List.map_cons, List.map_cons, List.intercalate_cons_cons, List.append_assoc, List.append_assoc] at h
      obtain ⟨vs, hcomma, hturn⟩ := takeTraitEntries_trait ht rfl rfl h
      obtain ⟨-, -, hnext⟩ := hcomma.cons
      rw [hturn, takeTraitEntries_comma hcomma, ih hts _ hnext]
      rfl

end Cursor

/-- A written trait list reads as the list, up to its closing parenthesis and whatever stands behind that: the last token read is
the parenthesis, which ends where the written list ends, and the tokens left are those of the rest of the text. -/
theorem takeTraits_written (ts : Traits) (rest : List Char) (h : ∀ t ∈ ts, t.Writable) :
    let c := Cursor.ofText (String.ofList (ts.chars ++ rest))
    let left := foldCompounds (tokensFrom (Place.start.after ts.chars) rest)
    c.takeTraits = (ts, c.before left) ∧
      ∃ read, c.unread = read ++ left ∧
        read.getLast?.map (fun t => (t.kind, t.stop)) = some (.mark ')', ts.chars.length) := by
  intro c left
  -- the list is cut up to its closing parenthesis, and the parenthesis is a token of its own
  have hopen : OneToken (.mark '(') ['('] (ts.entryChars ++ ([')'] ++ rest)) := oneToken_mark rfl rfl
  have hclose : OneToken (.mark ')') [')'] rest := oneToken_mark rfl rfl
  let front := '(' :: ts.entryChars
  obtain ⟨us, hkinds, hcut⟩ : ∃ us : List Token, us.map Token.kind = .mark '(' :: ts.entryKinds ∧
      tokensFrom .start (front ++ ([')'] ++ rest)) = us ++ tokensFrom (Place.start.after front) ([')'] ++ rest) :=
    (hopen.cuts.append (ts.cuts_entryChars h rfl)) .start
  let read := us ++ [Token.at (Place.start.after front) (.mark ')') 1]
  have hchars : ts.chars = front ++ [')'] := rfl
  have hread : read.map Token.kind = .mark '(' :: (ts.entryKinds ++ [.mark ')']) := by
    rw [List.map_append, hkinds]
    rfl
  have htokens : tokensFrom .start (ts.chars ++ rest) = read ++ tokensFrom (Place.start.after ts.chars) rest := by
    rewrite [hchars, List.append_assoc, hcut, hclose, Place.after_append, List.append_assoc]
    rfl
  have hunread : c.unread = read ++ left := by
    have hunfolded : Unfolded (read.map Token.kind) ((tokensFrom (Place.start.after ts.chars) rest).head?.bind Token.word?) := by
      rw [hread]
      refine ⟨by rintro _ ⟨⟩, ?_⟩
      rw [unfolded_append]
      exact ⟨ts.unfolded_entryKinds h, by rintro _ ⟨⟩, trivial⟩
    rw [← foldCompounds_of_unfolded read hunfolded, ← htokens]
    exact congrArg tokens String.toList_ofList
  refine ⟨?_, read, hunread, ?_⟩
  · have hfaces : c.Faces (.mark '(' :: (ts.entryKinds ++ [.mark ')'])) left := ⟨read, hread, hunread⟩
    rw [Cursor.takeTraits, hfaces.sees, beq_self_eq_true, if_pos rfl, Cursor.takeTraitEntries_faces ts h _ hfaces.cons.2.2]
    rfl
  · rw [List.getLast?_concat, Option.map_some, hchars, List.length_append]
    simp [Token.at, Place.offset_after, Place.start]

/-- A key without a value, and values that hold quotes, parentheses and a comma, with more text behind the list. -/
theorem takeTraits_written_quotes :
    let ts : Traits := [⟨"signed", none⟩, ⟨"label", some "say \"(a, b)\""⟩, ⟨"label", some ""⟩]
    (∀ t ∈ ts, t.Writable) ∧
      (Cursor.ofText (String.ofList (ts.chars ++ ") long x".toList))).takeTraits.1 = ts := by
  intro ts
  have hts : ∀ t ∈ ts, t.Writable := by
    intro t ht
    simp only [ts, List.mem_cons, List.not_mem_nil, or_false] at ht
    rcases ht with rfl | rfl | rfl
    · exact ⟨by decide, by decide, by decide, by rintro _ ⟨⟩⟩
    · exact ⟨by decide, by decide, by decide, by rintro _ ⟨⟩; decide⟩
    · exact ⟨by decide, by decide, by decide, by rintro _ ⟨⟩; decide⟩
  exact ⟨hts, congrArg Prod.fst (takeTraits_written ts ") long x".toList hts).1⟩

end HeaderAtlas
