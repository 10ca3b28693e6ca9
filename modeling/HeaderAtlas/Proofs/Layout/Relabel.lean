import HeaderAtlas.Proofs.Cursor.Nesting
import HeaderAtlas.Proofs.Declaration.Turn
import HeaderAtlas.Proofs.Token.Run

/-!
# Tokens that stand elsewhere

A relabeling puts another token of the same kind in the place of each token, and another text in the place of the text. Almost all
that is done with a cursor looks at the kinds of tokens only, and so commutes with a relabeling. What looks at the text commutes with
one that is faithful to it (`Relabeling.Faithful`): each token covers the same characters, and a run of tokens that ends in front of
no word covers the same text up to spacing.
-/

namespace HeaderAtlas

/-- Other tokens in the place of tokens, of the same kinds, over another text. -/
structure Relabeling where
  source : List Char
  finish : Place
  token : Token → Token
  kind_token : ∀ t, (token t).kind = t.kind

namespace Relabeling

variable (ρ : Relabeling)

/-- The cursor over the other text. -/
def cursor (c : Cursor) : Cursor := ⟨ρ.source, c.unread.map ρ.token, ρ.finish⟩

/-- What was read is the same, and the cursor is over the other text. -/
def after {α : Type} (x : α × Cursor) : α × Cursor := (x.1, ρ.cursor x.2)

@[simp] theorem fst_after {α : Type} (x : α × Cursor) : (ρ.after x).1 = x.1 := rfl

@[simp] theorem snd_after {α : Type} (x : α × Cursor) : (ρ.after x).2 = ρ.cursor x.2 := rfl

@[simp] theorem after_mk {α : Type} (a : α) (c : Cursor) : ρ.after (a, c) = (a, ρ.cursor c) := rfl

/-- Relabeling commutes with a choice between two cursors. -/
theorem cursor_ite {p : Prop} [Decidable p] (a b : Cursor) : ρ.cursor (if p then a else b) = if p then ρ.cursor a else ρ.cursor b :=
  apply_ite ρ.cursor p a b

/-! ## Single tokens -/

/-- A relabeled token is the same mark, for its kind stays. -/
@[simp] theorem isMark_token (t : Token) (symbol : Char) : (ρ.token t).isMark symbol = t.isMark symbol := by
  rw [Token.isMark, Token.isMark, ρ.kind_token]

/-- A relabeled token is the same word, for its kind stays. -/
@[simp] theorem isWord_token (t : Token) (name : String) : (ρ.token t).isWord name = t.isWord name := by
  rw [Token.isWord, Token.isWord, ρ.kind_token]

variable (c : Cursor)

/-- The token in front keeps its kind, also at the end. -/
@[simp] theorem kind_peek_cursor : (ρ.cursor c).peek.kind = c.peek.kind := by
  obtain ⟨source, unread, finish⟩ := c
  cases unread with
  | nil => rfl
  | cons t ts => exact ρ.kind_token t

/-- A token further ahead keeps its kind. -/
theorem kind_ahead_cursor (n : Nat) : ((ρ.cursor c).ahead n).kind = (c.ahead n).kind := by
  rw [cursor, Cursor.ahead, Cursor.ahead, ← List.map_drop]
  cases c.unread.drop n with
  | nil => rfl
  | cons t ts => exact ρ.kind_token t

/-- There are as many tokens as before, so the end is where it was. -/
@[simp] theorem atEnd_cursor : (ρ.cursor c).atEnd = c.atEnd := List.isEmpty_map

@[simp] theorem remaining_cursor : (ρ.cursor c).remaining = c.remaining := List.length_map _

/-- The word in front is in the kind of the token. -/
@[simp] theorem word?_peek_cursor : (ρ.cursor c).peek.word? = c.peek.word? := by
  rw [Token.word?, Token.word?, kind_peek_cursor]

/-- The mark in front is in the kind of the token. -/
@[simp] theorem sees_cursor (symbol : Char) : (ρ.cursor c).sees symbol = c.sees symbol := by
  rw [Cursor.sees, Cursor.sees, Token.isMark, Token.isMark, kind_peek_cursor]

/-- Whether a given word is in front is seen from the kind. -/
@[simp] theorem seesWord_cursor (name : String) : (ρ.cursor c).seesWord name = c.seesWord name := by
  rw [Cursor.seesWord, Cursor.seesWord, Token.isWord, Token.isWord, kind_peek_cursor]

/-- Whether a marker is in front is seen from the kind, for markers are words. -/
@[simp] theorem seesMarker_cursor (m : Marker) : (ρ.cursor c).seesMarker m = c.seesMarker m := ρ.seesWord_cursor c m.word

/-- Whether one of some words is in front is seen from the kind. -/
@[simp] theorem seesWordOf_cursor (names : List String) : (ρ.cursor c).seesWordOf names = c.seesWordOf names := by
  rw [Cursor.seesWordOf, Cursor.seesWordOf, word?_peek_cursor]

/-- A mark further ahead is seen from the kind there. -/
@[simp] theorem isMark_ahead_cursor (n : Nat) (symbol : Char) :
    ((ρ.cursor c).ahead n).isMark symbol = (c.ahead n).isMark symbol := by
  rw [Token.isMark, Token.isMark, kind_ahead_cursor]

/-- A `::` is two marks, one behind the other. -/
@[simp] theorem atScope_cursor : (ρ.cursor c).atScope = c.atScope := by
  rw [Cursor.atScope, Cursor.atScope, sees_cursor, isMark_ahead_cursor]

/-- Relabeling commutes with going one token on. -/
@[simp] theorem advance_cursor : (ρ.cursor c).advance = ρ.cursor c.advance := by
  rw [cursor, cursor, Cursor.advance, Cursor.advance, List.map_tail]

/-- A mark is passed in both or in neither. -/
@[simp] theorem pass_cursor (symbol : Char) : (ρ.cursor c).pass symbol = ρ.cursor (c.pass symbol) := by
  rw [Cursor.pass, Cursor.pass, sees_cursor, advance_cursor, cursor_ite]

/-- A word is passed in both or in neither. -/
@[simp] theorem passWord_cursor (name : String) : (ρ.cursor c).passWord name = ρ.cursor (c.passWord name) := by
  rw [Cursor.passWord, Cursor.passWord, seesWord_cursor, advance_cursor, cursor_ite]

/-- The word taken is the same, and what is left has its new labels. -/
@[simp] theorem takeWord_cursor : (ρ.cursor c).takeWord = ρ.after c.takeWord := by
  rw [Cursor.takeWord, Cursor.takeWord, word?_peek_cursor, advance_cursor]
  split <;> rfl

/-! ## Passing over tokens -/

/-- Where a block ends is counted by its marks. -/
@[simp] theorem afterBlock_map (opening closing : Char) (depth : Nat) (ts : List Token) :
    Cursor.afterBlock opening closing depth (ts.map ρ.token) = (Cursor.afterBlock opening closing depth ts).map ρ.token := by
  induction ts generalizing depth with
  | nil => rfl
  | cons t ts ih => simp only [List.map_cons, Cursor.afterBlock, isMark_token, ih, apply_ite (List.map ρ.token)]

/-- Whether a mark stands first is seen from its kind. -/
@[simp] theorem afterMark_map (symbol : Char) (ts : List Token) :
    Cursor.afterMark symbol (ts.map ρ.token) = (Cursor.afterMark symbol ts).map ρ.token := by
  cases ts with
  | nil => rfl
  | cons t ts => simp only [List.map_cons, Cursor.afterMark, isMark_token, apply_ite (List.map ρ.token)]

/-- Where a statement ends is a matter of marks and of the blocks between them. -/
@[simp] theorem afterStatement_map (ts : List Token) :
    Cursor.afterStatement (ts.map ρ.token) = (Cursor.afterStatement ts).map ρ.token := by
  fun_induction Cursor.afterStatement ts <;> simp_all [Cursor.afterStatement]

/-- Where a parameter ends is a matter of marks. -/
@[simp] theorem afterParameter_map (ts : List Token) :
    Cursor.afterParameter (ts.map ρ.token) = (Cursor.afterParameter ts).map ρ.token := by
  fun_induction Cursor.afterParameter ts <;> simp_all [Cursor.afterParameter]

/-- Where the entry of an enum ends is a matter of marks. -/
@[simp] theorem afterEntry_map (ts : List Token) : Cursor.afterEntry (ts.map ρ.token) = (Cursor.afterEntry ts).map ρ.token := by
  fun_induction Cursor.afterEntry ts <;> simp_all [Cursor.afterEntry]

/-- The first mark of a kind stands at the same place. -/
@[simp] theorem afterFirst_map (symbol : Char) (ts : List Token) :
    Cursor.afterFirst symbol (ts.map ρ.token) = (Cursor.afterFirst symbol ts).map ρ.token := by
  induction ts with
  | nil => rfl
  | cons t ts ih => simp only [List.map_cons, Cursor.afterFirst, isMark_token, ih, apply_ite (List.map ρ.token)]

/-- Where the length of an array ends is a matter of marks. -/
@[simp] theorem afterArrayLength_map (ts : List Token) :
    Cursor.afterArrayLength (ts.map ρ.token) = (Cursor.afterArrayLength ts).map ρ.token := by
  induction ts with
  | nil => rfl
  | cons t ts ih => simp only [List.map_cons, Cursor.afterArrayLength, isMark_token, ih, apply_ite (List.map ρ.token)]

/-- The word that ends a fake type stands at the same place. -/
@[simp] theorem afterFake_map (ts : List Token) : Cursor.afterFake (ts.map ρ.token) = (Cursor.afterFake ts).map ρ.token := by
  induction ts with
  | nil => rfl
  | cons t ts ih => simp only [List.map_cons, Cursor.afterFake, isWord_token, ih, apply_ite (List.map ρ.token)]

/-- Whether `{` or `;` comes first is a matter of marks. -/
@[simp] theorem beforeBody_map (ts : List Token) :
    Cursor.beforeBody (ts.map ρ.token) = ((Cursor.beforeBody ts).1, (Cursor.beforeBody ts).2.map ρ.token) := by
  induction ts with
  | nil => rfl
  | cons t ts ih =>
    simp only [List.map_cons, Cursor.beforeBody, isMark_token, ih]
    split
    · rfl
    · split <;> rfl

/-- A capture ends at the same token: it looks at marks and at how deep they are nested. -/
theorem splitCapture_map (stops : List Char) (depth : Nat) (ts : List Token) :
    Cursor.splitCapture stops depth (ts.map ρ.token) =
      ((Cursor.splitCapture stops depth ts).1.map ρ.token, (Cursor.splitCapture stops depth ts).2.map ρ.token) := by
  induction ts generalizing depth with
  | nil => rfl
  | cons t ts ih =>
    simp only [List.map_cons, Cursor.splitCapture, ρ.kind_token, ih]
    split
    · split <;> rfl
    · rfl

/-- Tokens passed over, seen from the cursor. -/
theorem cursor_unread {skip : List Token → List Token} (hskip : ∀ ts, skip (ts.map ρ.token) = (skip ts).map ρ.token) :
    { ρ.cursor c with unread := skip (ρ.cursor c).unread } = ρ.cursor { c with unread := skip c.unread } :=
  congrArg (Cursor.mk ρ.source · ρ.finish) (hskip c.unread)

/-- A block is passed over in both cursors. -/
@[simp] theorem skipBlock_cursor (opening closing : Char) :
    (ρ.cursor c).skipBlock opening closing = ρ.cursor (c.skipBlock opening closing) := by
  rw [Cursor.skipBlock, Cursor.skipBlock, sees_cursor, cursor_ite, ρ.cursor_unread c (ρ.afterBlock_map opening closing 0)]

/-- A statement is passed over in both cursors. -/
@[simp] theorem skipStatement_cursor : (ρ.cursor c).skipStatement = ρ.cursor c.skipStatement :=
  ρ.cursor_unread c ρ.afterStatement_map

/-- The rest of a parameter is passed over in both cursors. -/
@[simp] theorem finishParameter_cursor : (ρ.cursor c).finishParameter = ρ.cursor c.finishParameter :=
  ρ.cursor_unread c ρ.afterParameter_map

/-- The rest of an entry is passed over in both cursors. -/
@[simp] theorem skipEntry_cursor : (ρ.cursor c).skipEntry = ρ.cursor c.skipEntry := ρ.cursor_unread c ρ.afterEntry_map

/-- The body of a method, or the `;` in its place, is passed over in both cursors. -/
@[simp] theorem skipMethodBody_cursor : (ρ.cursor c).skipMethodBody = ρ.cursor c.skipMethodBody := by
  simp only [Cursor.skipMethodBody, sees_cursor, skipBlock_cursor, pass_cursor, skipStatement_cursor, cursor_ite]

/-! ## Names and words -/

/-- The parts of a qualified name, one turn at a time: a part is read only if a word stands behind the `::`. -/
theorem takeParts_eq : c.takeParts = if c.atScope then
    match c.advance.advance.takeWord.1 with
    | some part => (part :: c.advance.advance.takeWord.2.takeParts.1, c.advance.advance.takeWord.2.takeParts.2)
    | none => ([], c)
    else ([], c) := by
  rw [Cursor.takeParts]
  split
  · split <;> simp_all
  · rfl

/-- The parts of a loose name, one turn at a time: the `::` is passed also if no word stands behind it. -/
theorem takeLooseParts_eq : c.takeLooseParts = if c.atScope then
    match c.advance.advance.takeWord.1 with
    | some part => (part :: c.advance.advance.takeWord.2.takeLooseParts.1, c.advance.advance.takeWord.2.takeLooseParts.2)
    | none => ([], c.advance.advance)
    else ([], c) := by
  rw [Cursor.takeLooseParts]
  split
  · split <;> simp_all
  · rfl

/-- The parts of a qualified name are words. -/
@[simp] theorem takeParts_cursor : (ρ.cursor c).takeParts = ρ.after c.takeParts := by
  fun_induction Cursor.takeParts c with
  | case1 c hscope part hpart rest ih => rw [takeParts_eq]; simp [hscope, hpart, ih, rest]
  | case2 c hscope hpart => rw [takeParts_eq]; simp [hscope, hpart]
  | case3 c hscope => rw [takeParts_eq]; simp [hscope]

/-- The parts of a loose name are words. -/
@[simp] theorem takeLooseParts_cursor : (ρ.cursor c).takeLooseParts = ρ.after c.takeLooseParts := by
  fun_induction Cursor.takeLooseParts c with
  | case1 c hscope part hpart rest ih => rw [takeLooseParts_eq]; simp [hscope, hpart, ih, rest]
  | case2 c hscope hpart => rw [takeLooseParts_eq]; simp [hscope, hpart]
  | case3 c hscope => rw [takeLooseParts_eq]; simp [hscope]

/-- The words that qualify a type, one turn at a time. -/
theorem takeQualifiers_eq (m : Modifiers) : c.takeQualifiers m =
    match c.peek.word? with
    | none => (m, c)
    | some word =>
      match m.qualify? word with
      | some m => c.advance.takeQualifiers m
      | none => (m, c) := by
  rw [Cursor.takeQualifiers]
  split
  · rename_i hword
    rw [hword]
  · rename_i hword
    rewrite [hword]
    rfl

/-- What qualifies a type are words. -/
@[simp] theorem takeQualifiers_cursor (m : Modifiers) : (ρ.cursor c).takeQualifiers m = ρ.after (c.takeQualifiers m) := by
  fun_induction Cursor.takeQualifiers m c with
  | case1 m c hword => rw [takeQualifiers_eq]; simp [hword]
  | case2 m c word hword m' hm ih => rw [takeQualifiers_eq]; simp [hword, hm, ih]
  | case3 m c word hword hm => rw [takeQualifiers_eq]; simp [hword, hm]

/-- The head of a type is made of words and of a `~`. -/
@[simp] theorem takeTypeHead_cursor : (ρ.cursor c).takeTypeHead = ρ.after c.takeTypeHead := by
  simp only [Cursor.takeTypeHead, seesWordOf_cursor, advance_cursor, ← cursor_ite, seesWord_cursor, passWord_cursor, sees_cursor,
    pass_cursor, takeQualifiers_cursor, snd_after, fst_after, Cursor.typeWord?, word?_peek_cursor]
  split <;> rfl

/-- Stars are marks, and are counted. -/
@[simp] theorem takeStars_cursor : (ρ.cursor c).takeStars = ρ.after c.takeStars := by
  fun_induction Cursor.takeStars c with
  | case1 c hstar rest ih => rw [Cursor.takeStars]; simp [hstar, ih, rest]
  | case2 c hstar => rw [Cursor.takeStars]; simp [hstar]

/-- Behind a type there are marks, and the word `const`. -/
@[simp] theorem takeTypeTail_cursor (m : Modifiers) : (ρ.cursor c).takeTypeTail m = ρ.after (c.takeTypeTail m) := by
  simp only [Cursor.takeTypeTail, seesWord_cursor, passWord_cursor, takeStars_cursor, fst_after, snd_after, advance_cursor,
    ← cursor_ite, sees_cursor, pass_cursor, after_mk]

/-- What is specified behind the parameters of a method are words, and the `0` of a method that is not defined. -/
@[simp] theorem takeSpecifiers_cursor (m : Modifiers) : (ρ.cursor c).takeSpecifiers m = ρ.after (c.takeSpecifiers m) := by
  fun_induction Cursor.takeSpecifiers m c <;> rw [Cursor.takeSpecifiers] <;> simp_all

/-- How a declaration is exported is said by a word. -/
@[simp] theorem takeApiWord_cursor (options : ScanOptions) :
    (ρ.cursor c).takeApiWord options = ρ.after (c.takeApiWord options) := by
  simp only [Cursor.takeApiWord, seesWordOf_cursor, takeWord_cursor]
  split <;> rfl

/-- The words that say how a method is called, one turn at a time: the last one counts. -/
theorem takeConvention_eq (options : ScanOptions) (found : Option String) : c.takeConvention options found =
    match c.peek.word? with
    | none => (found, c)
    | some word => if options.conventions.contains word then c.advance.takeConvention options (some word) else (found, c) := by
  rw [Cursor.takeConvention]
  split <;> simp_all

/-- How a method is called is said by words. -/
@[simp] theorem takeConvention_cursor (options : ScanOptions) (found : Option String) :
    (ρ.cursor c).takeConvention options found = ρ.after (c.takeConvention options found) := by
  fun_induction Cursor.takeConvention options found c with
  | case1 found c hword => rw [takeConvention_eq]; simp [hword]
  | case2 found c word hword hfound ih =>
    rw [takeConvention_eq, word?_peek_cursor, hword, advance_cursor]
    exact (if_pos hfound).trans ih
  | case3 found c word hword hfound => rw [takeConvention_eq, word?_peek_cursor, hword]; exact if_neg hfound

/-- Behind a comma there are stars and a name. -/
@[simp] theorem takeNextDeclarator_cursor : (ρ.cursor c).takeNextDeclarator = ρ.after c.takeNextDeclarator := by
  simp only [Cursor.takeNextDeclarator, takeStars_cursor, fst_after, snd_after, pass_cursor, takeWord_cursor, sees_cursor, after_mk]

/-- What is specified behind the name of a type are words. -/
@[simp] theorem takeTypeSpecifiers_cursor (flags : TypeFlags) :
    (ρ.cursor c).takeTypeSpecifiers flags = ρ.after (c.takeTypeSpecifiers flags) := by
  fun_induction Cursor.takeTypeSpecifiers flags c <;> rw [Cursor.takeTypeSpecifiers] <;> simp_all

/-- In front of a base there are words. -/
@[simp] theorem skipBaseWords_cursor : (ρ.cursor c).skipBaseWords = ρ.cursor c.skipBaseWords := by
  fun_induction Cursor.skipBaseWords c <;> rw [Cursor.skipBaseWords] <;> simp_all

/-- A base is words, and a block that is passed over. -/
@[simp] theorem takeBase_cursor : (ρ.cursor c).takeBase = ρ.after c.takeBase := by
  simp only [Cursor.takeBase, skipBaseWords_cursor, takeWord_cursor, fst_after, snd_after, takeParts_cursor, skipBlock_cursor]
  split <;> rfl

/-- The bases of a type are the same, one for each turn. -/
@[simp] theorem takeBases_cursor : (ρ.cursor c).takeBases = ρ.after c.takeBases := by
  fun_induction Cursor.takeBases c with
  | case1 c base hbase =>
    have hbase : c.takeBase.1 = none := hbase
    rw [Cursor.takeBases]
    simp [hbase, base]
  | case2 c base name hbase hcomma rest ih =>
    have hbase : c.takeBase.1 = some name := hbase
    have hcomma : c.takeBase.2.sees ',' = true := hcomma
    have ih : (ρ.cursor c.takeBase.2.advance).takeBases = ρ.after c.takeBase.2.advance.takeBases := ih
    rw [Cursor.takeBases]
    simp [hbase, hcomma, ih, rest, base]
  | case3 c base name hbase hcomma =>
    have hbase : c.takeBase.1 = some name := hbase
    have hcomma : ¬c.takeBase.2.sees ',' = true := hcomma
    rw [Cursor.takeBases]
    simp [hbase, hcomma, base]

/-- What stands at a place in a body is seen from one token, or two. -/
@[simp] theorem bodyItem_cursor : Reader.bodyItem (ρ.cursor c) = Reader.bodyItem c := by
  simp only [Reader.bodyItem, kind_peek_cursor, isMark_ahead_cursor]

/-! ## Text -/

end Relabeling

/-- A text with one blank between each two of its tokens. -/
def spacedText (s : String) : String := String.ofList (spaced s.toList)

/-- A capture ends in front of a mark or at the end. -/
theorem word?_head?_splitCapture (stops : List Char) (depth : Nat) (ts : List Token) :
    (Cursor.splitCapture stops depth ts).2.head?.bind Token.word? = none := by
  fun_induction Cursor.splitCapture stops depth ts with
  | case1 => rfl
  | case2 _ t ts symbol hkind _ =>
    rw [List.head?_cons, Option.bind_some, Token.word?, hkind]
    rfl
  | case3 _ _ _ _ _ _ _ ih => exact ih
  | case4 _ _ _ _ _ ih => exact ih

namespace Relabeling

variable (ρ : Relabeling)

/-- Each token covers the same characters in the other text, and a run of tokens that ends in front of no word the same text, with
one blank between each two of its tokens. -/
structure Faithful (c : Cursor) : Prop where
  span : ∀ t ∈ c.unread, (ρ.token t).span ρ.source = t.span c.source
  run : ∀ {front run back : List Token}, c.unread = front ++ (run ++ back) → run ≠ [] → back.head?.bind Token.word? = none →
    runText c.source run ≠ [] ∧ spaced (runText c.source run) ≠ [] ∧
      runText ρ.source (run.map ρ.token) = spaced (runText c.source run)

variable {ρ} {c c' : Cursor}

/-- What is faithful to the tokens of a cursor is faithful to those further on. -/
theorem Faithful.onward (h : ρ.Faithful c) (hon : c.Onward c') : ρ.Faithful c' := by
  obtain ⟨before, hbefore⟩ := hon.suffix
  constructor
  · intro t ht
    rw [hon.source_eq]
    exact h.span t (hbefore ▸ List.mem_append_right before ht)
  · intro front run back hsplit hrun hback
    have hwhole : c.unread = before ++ front ++ (run ++ back) := by rw [List.append_assoc, ← hsplit, hbefore]
    rw [hon.source_eq]
    exact h.run hwhole hrun hback

/-- A captured text is the same but for its spacing, for no word stands behind a capture. -/
theorem Faithful.capture_cursor (h : ρ.Faithful c) (stops : List Char) :
    (ρ.cursor c).capture stops = ((c.capture stops).1.map spacedText, ρ.cursor (c.capture stops).2) := by
  have hsplit : c.unread = [] ++ ((Cursor.splitCapture stops 0 c.unread).1 ++ (Cursor.splitCapture stops 0 c.unread).2) :=
    (Cursor.append_splitCapture stops 0 c.unread).symm
  have hunread : (ρ.cursor c).unread = c.unread.map ρ.token := rfl
  rw [Cursor.capture_eq, Cursor.capture_eq, hunread, ρ.splitCapture_map]
  dsimp only
  by_cases hrun : (Cursor.splitCapture stops 0 c.unread).1 = []
  · rw [hrun]
    rfl
  · obtain ⟨hne, hne', htext⟩ := h.run hsplit hrun (word?_head?_splitCapture ..)
    have hsource : (ρ.cursor c).source = ρ.source := rfl
    rw [hsource, htext, if_neg (by rwa [List.isEmpty_iff]), if_neg (by rwa [List.isEmpty_iff])]
    rw [Option.map_some, spacedText, String.toList_ofList]
    rfl

/-- The text of a single token is the same, character by character. -/
theorem Faithful.takeText_cursor (h : ρ.Faithful c) : (ρ.cursor c).takeText = ρ.after c.takeText := by
  have hslice : (ρ.cursor c).slice (ρ.cursor c).peek.start (ρ.cursor c).peek.stop = c.slice c.peek.start c.peek.stop := by
    obtain ⟨source, unread, finish⟩ := c
    cases unread with
    | nil =>
      simp only [Cursor.slice, cursor, List.map_nil, Cursor.peek, List.headD_nil, endToken, Token.at, Nat.add_zero, Nat.sub_self,
        List.take_zero]
    | cons t ts => exact h.span t List.mem_cons_self
  rw [Cursor.takeText, Cursor.takeText, hslice, advance_cursor]
  rfl

/-- The head of a trait's value is a token or the text of one. -/
theorem Faithful.takeValueHead_cursor (h : ρ.Faithful c) : (ρ.cursor c).takeValueHead = ρ.after c.takeValueHead := by
  simp only [Cursor.takeValueHead, kind_peek_cursor, advance_cursor, h.takeText_cursor]
  split <;> rfl

/-- The value of a trait is put together from the texts of its tokens, one at a time. -/
theorem Faithful.takeTraitValue_cursor (h : ρ.Faithful c) : (ρ.cursor c).takeTraitValue = ρ.after c.takeTraitValue := by
  have hhead := (h.onward (c.onward_pass '-')).takeValueHead_cursor
  simp only [Cursor.takeTraitValue, pass_cursor, hhead, fst_after, snd_after, takeLooseParts_cursor, sees_cursor]
  split <;> rfl

/-- Whether a trait has a value is seen from the mark behind its key. -/
theorem Faithful.takeAssigned_cursor (h : ρ.Faithful c) : (ρ.cursor c).takeAssigned = ρ.after c.takeAssigned := by
  rw [Cursor.takeAssigned, Cursor.takeAssigned, sees_cursor, advance_cursor, (h.onward c.onward_advance).takeTraitValue_cursor]
  split <;> rfl

/-- The entries of a trait list are the same, one for each turn. -/
theorem Faithful.takeTraitEntries_cursor (h : ρ.Faithful c) : (ρ.cursor c).takeTraitEntries = ρ.after c.takeTraitEntries := by
  have hkey : ∀ c : Cursor, (ρ.cursor c).traitKey? = c.traitKey? := fun c => by
    simp only [Cursor.traitKey?, kind_peek_cursor]
  fun_induction Cursor.takeTraitEntries c with
  | case1 c hend => rw [Cursor.takeTraitEntries]; simp [hend]
  | case2 c hend hclose => rw [Cursor.takeTraitEntries]; simp [hend, hclose]
  | case3 c hend hclose hopen ih =>
    rw [Cursor.takeTraitEntries]
    simp [hend, hclose, hopen, ih (h.onward (c.onward_skipBlock _ _))]
  | case4 c hend hclose hopen key hkey' value rest ih =>
    have hvalue := (h.onward c.onward_advance).takeAssigned_cursor
    have hrest := ih (h.onward (c.onward_advance.trans (Cursor.onward_takeAssigned _)))
    rw [Cursor.takeTraitEntries]
    simp [hend, hclose, hopen, hkey, hkey', hvalue, hrest, value, rest]
  | case5 c hend hclose hopen hkey' ih =>
    rw [Cursor.takeTraitEntries]
    simp [hend, hclose, hopen, hkey, hkey', ih (h.onward c.onward_advance)]

/-- A trait list is the same, with its parentheses. -/
theorem Faithful.takeTraits_cursor (h : ρ.Faithful c) : (ρ.cursor c).takeTraits = ρ.after c.takeTraits := by
  rw [Cursor.takeTraits, Cursor.takeTraits, sees_cursor, advance_cursor, (h.onward c.onward_advance).takeTraitEntries_cursor]
  split <;> rfl

/-- The traits of a member are those of the list behind its marker. -/
theorem Faithful.takeMemberTraits_cursor (h : ρ.Faithful c) :
    Reader.takeMemberTraits (ρ.cursor c) = ρ.after (Reader.takeMemberTraits c) := by
  simp only [Reader.takeMemberTraits, seesMarker_cursor, advance_cursor, (h.onward c.onward_advance).takeTraits_cursor, fst_after,
    snd_after]
  split <;> rfl

/-- The symbol of an operator is put together from the texts of its tokens. -/
theorem Faithful.takeSymbol_cursor (h : ρ.Faithful c) : (ρ.cursor c).takeSymbol = ρ.after c.takeSymbol := by
  fun_induction Cursor.takeSymbol c with
  | case1 c hend => rw [Cursor.takeSymbol]; simp [hend]
  | case2 c hend hstop => rw [Cursor.takeSymbol]; simp_all
  | case3 c hend hstop rest ih =>
    have hrest := ih (h.onward c.onward_advance)
    rw [Cursor.takeSymbol]
    simp_all [h.takeText_cursor, rest]

/-- The name of an operator is that word and its symbol. -/
theorem Faithful.takeOperator_cursor (h : ρ.Faithful c) : (ρ.cursor c).takeOperator = ρ.after c.takeOperator := by
  simp only [Cursor.takeOperator, sees_cursor, isMark_ahead_cursor, advance_cursor, h.takeSymbol_cursor,
    (h.onward c.onward_advance_advance).takeSymbol_cursor, fst_after, snd_after]
  split <;> rfl

/-- The name of a member is a word, or that of an operator. -/
theorem Faithful.takeMemberName_cursor (h : ρ.Faithful c) : (ρ.cursor c).takeMemberName = ρ.after c.takeMemberName := by
  simp only [Cursor.takeMemberName, takeWord_cursor, fst_after, snd_after, (h.onward c.onward_takeWord).takeOperator_cursor]
  split <;> rfl

/-- Captured text with one blank between each two of its tokens, and the cursor over the other text. -/
def captured (ρ : Relabeling) (x : Option String × Cursor) : Option String × Cursor := (x.1.map spacedText, ρ.cursor x.2)

/-- The default of a parameter is captured. -/
theorem Faithful.takeDefault_cursor (h : ρ.Faithful c) : (ρ.cursor c).takeDefault = ρ.captured c.takeDefault := by
  rw [Cursor.takeDefault, Cursor.takeDefault, sees_cursor, advance_cursor, (h.onward c.onward_advance).capture_cursor]
  split <;> rfl

/-- The value of a field is captured, or what stands in its braces. -/
theorem Faithful.takeInitial_cursor (h : ρ.Faithful c) : (ρ.cursor c).takeInitial = ρ.captured c.takeInitial := by
  rw [Cursor.takeInitial, Cursor.takeInitial, sees_cursor, sees_cursor, advance_cursor, h.capture_cursor,
    (h.onward c.onward_advance).capture_cursor]
  split
  · rfl
  · split <;> rfl

end Relabeling

/-- A field with one blank between each two tokens of its initial value. -/
def Declarator.plain (d : Declarator) : Declarator := { d with defaultText := d.defaultText.map spacedText }

namespace Relabeling

variable {ρ : Relabeling} {c : Cursor}

/-- The names of one statement are the same, and their values but for the spacing. -/
theorem Faithful.takeDeclarators_cursor (h : ρ.Faithful c) (name : String) (shape : Shape) :
    (ρ.cursor c).takeDeclarators name shape =
      ((c.takeDeclarators name shape).1.map Declarator.plain, ρ.cursor (c.takeDeclarators name shape).2) := by
  fun_induction Cursor.takeDeclarators name shape c with
  | case1 name shape c value hcomma next hnext =>
    have hcomma : c.takeInitial.2.sees ',' = true := hcomma
    have hnext : c.takeInitial.2.advance.takeNextDeclarator.1 = none := hnext
    rw [Cursor.takeDeclarators]
    simp [h.takeInitial_cursor, captured, hcomma, hnext, next, value, Declarator.plain]
  | case2 name shape c value hcomma next nextName nextShape hnext rest ih =>
    have hcomma : c.takeInitial.2.sees ',' = true := hcomma
    have hnext : c.takeInitial.2.advance.takeNextDeclarator.1 = some (nextName, nextShape) := hnext
    have hrest := ih (h.onward ((c.onward_takeInitial.trans (Cursor.onward_advance _)).trans (Cursor.onward_takeNextDeclarator _)))
    rw [Cursor.takeDeclarators]
    simp [h.takeInitial_cursor, captured, hcomma, hnext, hrest, rest, next, value, Declarator.plain]
  | case3 name shape c value hcomma =>
    have hcomma : ¬c.takeInitial.2.sees ',' = true := hcomma
    rw [Cursor.takeDeclarators]
    simp [h.takeInitial_cursor, captured, hcomma, value, Declarator.plain]

end Relabeling

/-! ## The relabeling of a text by its spaced text -/

/-- Tokens of the same kinds in the place of distinct tokens. -/
theorem exists_map_eq {ts ts' : List Token} (hnodup : ts.Nodup) (hkinds : ts'.map Token.kind = ts.map Token.kind) :
    ∃ f : Token → Token, (∀ t, (f t).kind = t.kind) ∧ ts.map f = ts' := by
  induction ts generalizing ts' with
  | nil => exact ⟨id, fun _ => rfl, (List.map_eq_nil_iff.mp hkinds).symm⟩
  | cons t ts ih =>
    obtain ⟨t', rest, rfl, hkind, hrest⟩ := List.map_eq_cons_iff.mp hkinds
    obtain ⟨hnot, hnodup⟩ := List.nodup_cons.mp hnodup
    obtain ⟨f, hf, hmap⟩ := ih hnodup hrest
    refine ⟨fun u => if u = t then t' else f u, fun u => ?_, ?_⟩
    · dsimp only
      split
      · rename_i hu
        rw [hu, hkind]
      · exact hf u
    · have hothers : ts.map (fun u => if u = t then t' else f u) = ts.map f :=
        List.map_congr_left fun u hu => if_neg (by rintro rfl; exact hnot hu)
      rw [List.map_cons, if_pos rfl, hothers, hmap]

/-- No two tokens of a text are the same, for they stand at different places. -/
theorem nodup_tokens (source : List Char) : (tokens source).Nodup := by
  have hlined := lined_tokens source
  refine (List.Pairwise.and_mem.mp hlined.sorted).imp ?_
  rintro t u ⟨ht, -, hle⟩ rfl
  exact Nat.lt_irrefl _ (Nat.lt_of_lt_of_le (hlined.spans t ht).start_lt_stop hle)

/-- The text of a run of cells is that of the cells without the gap in front, trimmed. -/
theorem runText_cellTokens {p : Place} {front : List Char} (hp : p.offset = front.length) {cells : List Cell} (hne : cells ≠ [])
    (back : List Char) : runText (front ++ (cellsText cells ++ back)) (cellTokens p cells) =
      Text.trimBy Text.isBlank (cellsText (ungapped cells)) := by
  rw [runText_eq, runSpan_cellTokens hp hne]

/-- The first character of a token is no blank, also where several words are folded into one. -/
theorem Laid.text_of_mem {cells : List Cell} {trail : List Char} (h : Laid cells trail) {c : Cell} (hc : c ∈ foldCells cells) :
    ∃ d ds, c.text = d :: ds ∧ Text.isBlank d = false := by
  have hcut : ∀ {kind : Token.Kind} {text rest : List Char}, IsCut kind text rest →
      ∃ d ds, text = d :: ds ∧ Text.isBlank d = false := by
    rintro kind text rest ⟨d, ds, htext, hgap, -⟩
    exact ⟨d, ds, htext, gap?_blank hgap⟩
  fun_induction foldCells cells with
  | case1 => cases hc
  | case2 first cells name n _ ih =>
    rcases List.mem_cons.mp hc with rfl | hc
    · obtain ⟨d, ds, htext, hd⟩ := hcut h.2.1
      exact ⟨d, ds ++ cellsText (cells.take n), by rw [htext, List.cons_append], hd⟩
    · have hbehind : Laid (cells.take n ++ cells.drop n) trail := by
        rw [List.take_append_drop]
        exact h.2.2
      exact ih (Laid.of_append hbehind) hc
  | case3 first cells _ ih =>
    rcases List.mem_cons.mp hc with rfl | hc
    · exact hcut h.2.1
    · exact ih h.2.2 hc

/-- The gap that the first cell was given is no longer seen without the gap in front. -/
theorem ungapped_spread (gap : List Char) (cells : List Cell) : ungapped (spread gap cells) = spread [] cells := by
  cases cells <;> rfl

/-- A run of tokens in a text and in the spaced text. -/
theorem runText_spaced {cells : List Cell} {trail : List Char} (h : Laid cells trail) {f : Token → Token}
    (hf : (cellTokens .start (foldCells cells)).map f = cellTokens .start (spread [] (foldCells cells)))
    {front run back : List Token} (hsplit : cellTokens .start (foldCells cells) = front ++ (run ++ back)) (hrun : run ≠ []) :
    runText (cellsText cells ++ trail) run ≠ [] ∧ spaced (runText (cellsText cells ++ trail) run) ≠ [] ∧
      runText (cellsText (spread [] (foldCells cells))) (run.map f) = spaced (runText (cellsText cells ++ trail) run) := by
  obtain ⟨first, others, hcells, hfirst, rfl, hothers⟩ := cellTokens_eq_append hsplit
  obtain ⟨middle, last, rfl, hmiddle, rfl, rfl⟩ := cellTokens_eq_append hothers.symm
  have hne : middle ≠ [] := by
    rintro rfl
    exact hrun rfl
  have hoffset : ∀ text : List Char, (Place.start.after text).offset = text.length := fun text => by
    rw [Place.offset_after]
    exact Nat.zero_add _
  -- the run in the text
  have hold : runText (cellsText cells ++ trail) (cellTokens (Place.start.after (cellsText first)) middle) =
      Text.trimBy Text.isBlank (cellsText (ungapped middle)) := by
    rw [← cellsText_foldCells, hcells, cellsText_append, cellsText_append, List.append_assoc, List.append_assoc]
    exact runText_cellTokens (hoffset _) hne _
  -- the run in the spaced text
  obtain ⟨gap, hgap⟩ := spread_append [] first (middle ++ last)
  obtain ⟨gap', hgap'⟩ := spread_append gap middle last
  have hmap : (cellTokens (Place.start.after (cellsText first)) middle).map f =
      cellTokens (Place.start.after (cellsText (spread [] first))) (spread gap middle) := by
    rw [hsplit, hcells, hgap, hgap', cellTokens_append, cellTokens_append, List.map_append, List.map_append] at hf
    have hright := List.append_inj_right hf (by simp only [List.length_map, length_cellTokens, length_spread])
    exact List.append_inj_left hright (by simp only [List.length_map, length_cellTokens, length_spread])
  have hnew : runText (cellsText (spread [] (foldCells cells)))
      ((cellTokens (Place.start.after (cellsText first)) middle).map f) =
      Text.trimBy Text.isBlank (cellsText (spread [] middle)) := by
    rw [hmap, hcells, hgap, hgap', cellsText_append, cellsText_append, ← ungapped_spread gap middle]
    refine runText_cellTokens (hoffset _) ?_ _
    rwa [← List.length_pos_iff, length_spread, List.length_pos_iff]
  have hspaced := spaced_trimBy_run h hcells hne
  rw [← cellsText_spread_nil] at hspaced
  rw [hold, hspaced, hnew]
  -- both begin with the first character of the first token
  obtain ⟨c, middle, rfl⟩ := List.exists_cons_of_ne_nil hne
  obtain ⟨d, ds, htext, hd⟩ := h.text_of_mem (c := c) (by rw [hcells]; simp)
  rw [ungapped, spread, cellsText_cons, cellsText_cons]
  dsimp only
  rw [htext]
  exact ⟨trimBy_ne_nil hd _, trimBy_ne_nil hd _, rfl⟩

/-- A text is read like the text with one blank between each two of its tokens. -/
theorem exists_relabeling (s : String) :
    ∃ ρ : Relabeling, ρ.cursor (Cursor.ofText s) = Cursor.ofText (spacedText s) ∧ ρ.Faithful (Cursor.ofText s) := by
  obtain ⟨cells, trail, hsource, hlaid, htokens, hspaced, htokens'⟩ := tokens_spaced s.toList
  obtain ⟨f, hf, hmap⟩ := exists_map_eq (nodup_tokens s.toList) (map_kind_spaced s.toList)
  refine ⟨⟨spaced s.toList, Place.start.after (spaced s.toList), f, hf⟩, ?_, ?_, ?_⟩
  · rw [Cursor.ofText, Cursor.ofText, spacedText, String.toList_ofList, Relabeling.cursor]
    exact congrArg (Cursor.mk _ · _) hmap
  · -- the characters of each token
    have hspans : (tokens s.toList).map (fun t => (f t).span (spaced s.toList)) = (tokens s.toList).map (Token.span s.toList) := by
      rw [← map_span_spaced, ← hmap, List.map_map]
      rfl
    exact fun t ht => List.map_inj_left.mp hspans t ht
  · -- the text of a run
    intro front run back hunread hrun _
    have hunread : tokens s.toList = front ++ (run ++ back) := hunread
    have hsource' : (Cursor.ofText s).source = cellsText cells ++ trail := hsource
    rw [htokens, htokens'] at hmap
    rw [htokens] at hunread
    rw [hsource', hspaced]
    exact runText_spaced hlaid hmap hunread hrun

end HeaderAtlas
