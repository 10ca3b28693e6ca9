import HeaderAtlas.Declaration.Header

/-!
# A cursor goes onward

No operation gives back a token it has read: what is unread after it is the end of what was unread before it, and the text is the
same (`Cursor.Onward`). The statements go from the operations on tokens to those on cursors, in the order in which they use each
other; where an operation surely reads a token, a second statement says that fewer are left.
-/

namespace HeaderAtlas

namespace Cursor

/-- The second cursor is over the text of the first, and its unread tokens are the last ones of those of the first. -/
structure Onward (c c' : Cursor) : Prop where
  source_eq : c'.source = c.source
  finish_eq : c'.finish = c.finish
  suffix : c'.unread <:+ c.unread

namespace Onward

variable {c c' c'' : Cursor}

theorem refl (c : Cursor) : c.Onward c := ⟨rfl, rfl, List.suffix_refl _⟩

theorem trans (h : c.Onward c') (h' : c'.Onward c'') : c.Onward c'' :=
  ⟨h'.source_eq.trans h.source_eq, h'.finish_eq.trans h.finish_eq, h'.suffix.trans h.suffix⟩

/-- A cursor over the last ones of the unread tokens. -/
theorem of_suffix {ts : List Token} (h : ts <:+ c.unread) : c.Onward { c with unread := ts } := ⟨rfl, rfl, h⟩

/-- Onward there are not more tokens to be read. -/
theorem remaining_le (h : c.Onward c') : c'.remaining ≤ c.remaining := h.suffix.length_le

/-- Whoever goes on from behind the token in front has fewer left. -/
theorem remaining_lt (h : c.advance.Onward c') (hc : c.atEnd = false) : c'.remaining < c.remaining :=
  Nat.lt_of_le_of_lt h.remaining_le (remaining_advance_lt hc)

end Onward

/-! ## Tokens -/

/-- Behind a block stands the end of what stood inside it. -/
theorem afterBlock_suffix (opening closing : Char) (depth : Nat) (ts : List Token) :
    afterBlock opening closing depth ts <:+ ts := by
  fun_induction afterBlock opening closing depth ts with
  | case1 => exact List.suffix_refl _
  | case2 _ t ts _ ih => exact ih.trans (List.suffix_cons t ts)
  | case3 _ t ts => exact List.suffix_cons t ts
  | case4 _ t ts _ _ _ ih => exact ih.trans (List.suffix_cons t ts)
  | case5 _ t ts _ _ ih => exact ih.trans (List.suffix_cons t ts)

/-- The end of what stands behind a token is the end of the tokens with it. -/
theorem afterBlock_suffix_cons (opening closing : Char) (depth : Nat) (t : Token) (ts : List Token) :
    afterBlock opening closing depth ts <:+ t :: ts :=
  (afterBlock_suffix opening closing depth ts).trans (List.suffix_cons t ts)

/-- Behind a mark, or where none was, stands the end of the tokens. -/
theorem afterMark_suffix (symbol : Char) (ts : List Token) : afterMark symbol ts <:+ ts := by
  cases ts with
  | nil => exact List.suffix_refl _
  | cons t ts =>
    rw [afterMark]
    split
    · exact List.suffix_cons t ts
    · exact List.suffix_refl _

/-- A statement is followed by the end of the tokens, with nested braces passed over on the way. -/
theorem afterStatement_suffix (ts : List Token) : afterStatement ts <:+ ts := by
  fun_induction afterStatement ts with
  | case1 => exact List.suffix_refl _
  | case2 t ts => exact List.suffix_cons t ts
  | case3 => exact List.suffix_refl _
  | case4 t ts => exact (afterMark_suffix _ _).trans (afterBlock_suffix_cons ..)
  | case5 t ts _ _ _ _ ih => exact ih.trans (afterBlock_suffix_cons ..)
  | case6 t ts _ _ _ _ _ ih => exact ih.trans (afterBlock_suffix_cons ..)
  | case7 t ts _ _ _ _ _ ih => exact ih.trans (List.suffix_cons t ts)

/-- A statement that does not begin with the brace that closes the body around it has at least one token. -/
theorem length_afterStatement_lt {t : Token} (ht : t.isMark '}' = false) (ts : List Token) :
    (afterStatement (t :: ts)).length < (t :: ts).length := by
  have hblock : ∀ opening closing, (afterBlock opening closing 1 ts).length ≤ ts.length :=
    fun _ _ => length_afterBlock_le ..
  rw [List.length_cons, Nat.lt_succ_iff, afterStatement, ht]
  simp only [Bool.false_eq_true, if_false]
  split
  · exact Nat.le_refl _
  · split
    · exact Nat.le_trans (length_afterMark_le ..) (hblock ..)
    · split
      · exact Nat.le_trans (length_afterStatement_le _) (hblock ..)
      · split
        · exact Nat.le_trans (length_afterStatement_le _) (hblock ..)
        · exact length_afterStatement_le _

/-- A capture leaves the end of the tokens, at whatever depth it began. -/
theorem splitCapture_suffix (stops : List Char) (depth : Nat) (ts : List Token) :
    (splitCapture stops depth ts).2 <:+ ts := by
  fun_induction splitCapture stops depth ts with
  | case1 => exact List.suffix_refl _
  | case2 => exact List.suffix_refl _
  | case3 _ t ts _ _ _ _ ih => exact ih.trans (List.suffix_cons t ts)
  | case4 _ t ts _ _ ih => exact ih.trans (List.suffix_cons t ts)

/-- A parameter is followed by the end of the tokens, with nested blocks passed over on the way. -/
theorem afterParameter_suffix (ts : List Token) : afterParameter ts <:+ ts := by
  fun_induction afterParameter ts with
  | case1 => exact List.suffix_refl _
  | case2 => exact List.suffix_refl _
  | case3 => exact List.suffix_refl _
  | case4 t ts => exact List.suffix_cons t ts
  | case5 t ts _ _ _ _ ih => exact ih.trans (afterBlock_suffix_cons ..)
  | case6 t ts _ _ _ _ _ ih => exact ih.trans (afterBlock_suffix_cons ..)
  | case7 t ts _ _ _ _ _ _ ih => exact ih.trans (afterBlock_suffix_cons ..)
  | case8 t ts _ _ _ _ _ _ ih => exact ih.trans (List.suffix_cons t ts)

/-- The first mark of a kind is followed by the end of the tokens. -/
theorem afterFirst_suffix (symbol : Char) (ts : List Token) : afterFirst symbol ts <:+ ts := by
  fun_induction afterFirst symbol ts with
  | case1 => exact List.suffix_refl _
  | case2 t ts => exact List.suffix_cons t ts
  | case3 t ts _ ih => exact ih.trans (List.suffix_cons t ts)

/-- The length of an array is followed by the end of the tokens. -/
theorem afterArrayLength_suffix (ts : List Token) : afterArrayLength ts <:+ ts := by
  fun_induction afterArrayLength ts with
  | case1 => exact List.suffix_refl _
  | case2 => exact List.suffix_refl _
  | case3 t ts => exact List.suffix_cons t ts
  | case4 t ts _ _ ih => exact ih.trans (List.suffix_cons t ts)

/-- An entry is followed by the end of the tokens, with parentheses passed over on the way. -/
theorem afterEntry_suffix (ts : List Token) : afterEntry ts <:+ ts := by
  fun_induction afterEntry ts with
  | case1 => exact List.suffix_refl _
  | case2 => exact List.suffix_refl _
  | case3 t ts => exact List.suffix_cons t ts
  | case4 t ts _ _ _ ih => exact ih.trans (afterBlock_suffix_cons ..)
  | case5 t ts _ _ _ ih => exact ih.trans (List.suffix_cons t ts)

/-- The body of an enum, or what stands behind its `;`, is the end of the tokens. -/
theorem beforeBody_suffix (ts : List Token) : (beforeBody ts).2 <:+ ts := by
  fun_induction beforeBody ts with
  | case1 => exact List.suffix_refl _
  | case2 => exact List.suffix_refl _
  | case3 t ts => exact List.suffix_cons t ts
  | case4 t ts _ _ ih => exact ih.trans (List.suffix_cons t ts)

/-- A fake type is followed by the end of the tokens. -/
theorem afterFake_suffix (ts : List Token) : afterFake ts <:+ ts := by
  fun_induction afterFake ts with
  | case1 => exact List.suffix_refl _
  | case2 t ts => exact List.suffix_cons t ts
  | case3 t ts _ ih => exact ih.trans (List.suffix_cons t ts)

/-! ## Single steps -/

variable (c : Cursor)

/-- A cursor goes onward by one token. -/
theorem onward_advance : c.Onward c.advance := .of_suffix (List.tail_suffix _)

/-- A cursor goes onward by two tokens. -/
theorem onward_advance_advance : c.Onward c.advance.advance := c.onward_advance.trans c.advance.onward_advance

/-- A mark is passed or the cursor stays. -/
theorem onward_pass (symbol : Char) : c.Onward (c.pass symbol) := by
  rw [pass]
  split
  · exact c.onward_advance
  · exact .refl c

/-- A word is passed or the cursor stays. -/
theorem onward_passWord (name : String) : c.Onward (c.passWord name) := by
  rw [passWord]
  split
  · exact c.onward_advance
  · exact .refl c

/-- A word is read or the cursor stays. -/
theorem onward_takeWord : c.Onward c.takeWord.2 := by
  rw [takeWord]
  split
  · exact c.onward_advance
  · exact .refl c

/-- A block is passed over, or the cursor stays where none begins. -/
theorem onward_skipBlock (opening closing : Char) : c.Onward (c.skipBlock opening closing) := by
  rw [skipBlock]
  split
  · exact .of_suffix (afterBlock_suffix ..)
  · exact .refl c

/-- A statement is passed over. -/
theorem onward_skipStatement : c.Onward c.skipStatement := .of_suffix (afterStatement_suffix _)

/-- Off the end and not in front of a closing brace, passing over a statement leaves fewer tokens. -/
theorem remaining_skipStatement_lt {c : Cursor} (hend : c.atEnd = false) (hclose : c.sees '}' = false) :
    c.skipStatement.remaining < c.remaining := by
  obtain ⟨source, unread, finish⟩ := c
  cases unread with
  | nil => simp [atEnd] at hend
  | cons t ts => exact length_afterStatement_lt hclose ts

/-- A capture is read up to what ends it. -/
theorem onward_capture (stops : List Char) : c.Onward (c.capture stops).2 := .of_suffix (splitCapture_suffix ..)

/-! ## Names and trait lists -/

/-- The word behind `::`, read. -/
theorem onward_scopedWord : c.Onward c.advance.advance.takeWord.2 :=
  c.onward_advance_advance.trans (onward_takeWord _)

/-- Each part of a name is two marks and a word; a `::` without a word is left. -/
theorem onward_takeParts : c.Onward c.takeParts.2 := by
  fun_induction takeParts c with
  | case1 c _ _ _ _ ih => exact c.onward_scopedWord.trans ih
  | case2 c => exact .refl c
  | case3 c => exact .refl c

/-- Each part of a name is two marks and a word, and a last `::` is passed. -/
theorem onward_takeLooseParts : c.Onward c.takeLooseParts.2 := by
  fun_induction takeLooseParts c with
  | case1 c _ _ _ _ ih => exact c.onward_scopedWord.trans ih
  | case2 c => exact c.onward_advance_advance
  | case3 c => exact .refl c

/-- The head of a trait's value is one token, or none. -/
theorem onward_takeValueHead : c.Onward c.takeValueHead.2 := by
  rw [takeValueHead]
  split
  · exact c.onward_advance
  · exact c.onward_advance
  · exact c.onward_advance
  · exact c.onward_advance
  · exact .refl c

/-- The value of a trait goes on from its head. -/
theorem onward_takeTraitValue : c.Onward c.takeTraitValue.2 := by
  have hhead := (c.onward_pass '-').trans (onward_takeValueHead _)
  rw [takeTraitValue]
  split
  · exact hhead
  · exact hhead.trans (onward_takeLooseParts _)

/-- A trait without a value leaves the cursor where it is. -/
theorem onward_takeAssigned : c.Onward c.takeAssigned.2 := by
  rw [takeAssigned]
  split
  · exact c.onward_advance.trans (onward_takeTraitValue _)
  · exact .refl c

/-- The entries of a trait list go onward, one at a time. -/
theorem onward_takeTraitEntries : c.Onward c.takeTraitEntries.2 := by
  fun_induction takeTraitEntries c with
  | case1 c => exact .refl c
  | case2 c => exact c.onward_advance
  | case3 c _ _ _ ih => exact (c.onward_skipBlock _ _).trans ih
  | case4 c _ _ _ _ _ _ _ ih => exact (c.onward_advance.trans (onward_takeAssigned _)).trans ih
  | case5 c _ _ _ _ ih => exact c.onward_advance.trans ih

/-- A trait list is its entries and their parentheses, or nothing. -/
theorem onward_takeTraits : c.Onward c.takeTraits.2 := by
  rw [takeTraits]
  split
  · exact c.onward_advance.trans (onward_takeTraitEntries _)
  · exact .refl c

/-! ## Type expressions -/

/-- Each word that qualifies a type is one token. -/
theorem onward_takeQualifiers (m : Modifiers) : c.Onward (takeQualifiers m c).2 := by
  fun_induction takeQualifiers m c with
  | case1 _ c => exact .refl c
  | case2 _ c _ _ _ _ ih => exact c.onward_advance.trans ih
  | case3 _ c => exact .refl c

/-- A step that is taken on one condition only. -/
theorem onward_ite {p : Prop} [Decidable p] {c : Cursor} {a b : Cursor} (ha : c.Onward a) (hb : c.Onward b) :
    c.Onward (if p then a else b) := by
  split
  · exact ha
  · exact hb

/-- The head of a type is read onward: words, a `~` and its name. -/
theorem onward_takeTypeHead : c.Onward c.takeTypeHead.2 := by
  rw [takeTypeHead]
  have hkeyed : c.Onward (if c.seesWordOf ["class", "struct", "typename"] then c.advance else c) :=
    onward_ite c.onward_advance (.refl c)
  generalize (if c.seesWordOf ["class", "struct", "typename"] then c.advance else c) = keyed at hkeyed ⊢
  have hmarked := (hkeyed.trans (onward_passWord _ "virtual")).trans (onward_pass _ '~')
  have hqualified := hmarked.trans (onward_takeQualifiers _ { decorations := { isVirtual := keyed.seesWord "virtual" } })
  split
  · exact hqualified.trans (onward_advance _)
  · exact hqualified

/-- Each star is one token. -/
theorem onward_takeStars : c.Onward c.takeStars.2 := by
  fun_induction takeStars c with
  | case1 c _ _ ih => exact c.onward_advance.trans ih
  | case2 c => exact .refl c

/-- What stands behind a type is read onward: `const`, stars, another `const` and a reference. -/
theorem onward_takeTypeTail (m : Modifiers) : c.Onward (c.takeTypeTail m).2 := by
  have hstars := (c.onward_passWord "const").trans (onward_takeStars _)
  have hpointed := hstars.trans (onward_ite
    (p := (0 < m.shape.pointerDepth + (c.passWord "const").takeStars.1 && (c.passWord "const").takeStars.2.seesWord "const") = true)
    (onward_advance _) (.refl _))
  exact hpointed.trans (onward_ite ((onward_advance _).trans (onward_pass _ '&')) (.refl _))

/-! ## Members -/

/-- The rest of a parameter is passed over. -/
theorem onward_finishParameter : c.Onward c.finishParameter := .of_suffix (afterParameter_suffix _)

/-- A default is captured behind its `=`. -/
theorem onward_takeDefault : c.Onward c.takeDefault.2 := by
  rw [takeDefault]
  split
  · exact c.onward_advance.trans (onward_capture _ _)
  · exact .refl c

/-- Each word behind the parameters is a token or a few, and is read once. -/
theorem onward_takeSpecifiers (m : Modifiers) : c.Onward (takeSpecifiers m c).2 := by
  fun_induction takeSpecifiers m c with
  | case1 _ c => exact .refl c
  | case2 _ c _ _ ih => exact c.onward_advance.trans ih
  | case3 _ c _ _ _ ih => exact c.onward_advance.trans ih
  | case4 _ c _ _ _ _ ih => exact c.onward_advance.trans ih
  | case5 _ c _ _ _ _ _ ih => exact c.onward_advance.trans ih
  | case6 _ c _ _ _ _ _ _ ih => exact (c.onward_advance.trans (onward_skipBlock _ _ _)).trans ih
  | case7 _ c _ _ _ _ _ _ _ _ ih => exact c.onward_advance_advance.trans ih
  | case8 _ c => exact c.onward_advance
  | case9 _ c _ _ _ _ _ _ _ _ _ ih => exact c.onward_advance_advance.trans ih
  | case10 _ c => exact c.onward_advance
  | case11 _ c => exact .refl c

/-- The body of a method is passed over with a `;` behind it, or its statement is. -/
theorem onward_skipMethodBody : c.Onward c.skipMethodBody :=
  onward_ite ((c.onward_skipBlock _ _).trans (onward_pass _ _)) c.onward_skipStatement

/-- The word that says how a declaration is exported is read if it is there. -/
theorem onward_takeApiWord (options : ScanOptions) : c.Onward (c.takeApiWord options).2 := by
  rw [takeApiWord]
  split
  · exact c.onward_takeWord
  · exact .refl c

/-- The words that say how a method is called are read one at a time. -/
theorem onward_takeConvention (options : ScanOptions) (found : Option String) :
    c.Onward (takeConvention options found c).2 := by
  fun_induction takeConvention options found c with
  | case1 _ c => exact .refl c
  | case2 _ c _ _ _ ih => exact c.onward_advance.trans ih
  | case3 _ c => exact .refl c

/-- The symbol of an operator is read token by token. -/
theorem onward_takeSymbol : c.Onward c.takeSymbol.2 := by
  fun_induction takeSymbol c with
  | case1 c => exact .refl c
  | case2 c => exact .refl c
  | case3 c _ _ _ ih => exact c.onward_advance.trans ih

/-- An operator may begin with two parentheses, which belong to its name. -/
theorem onward_takeOperator : c.Onward c.takeOperator.2 := by
  rw [takeOperator]
  split
  · exact c.onward_advance_advance.trans (onward_takeSymbol _)
  · exact c.onward_takeSymbol

/-- The name of a member is a word, and the symbol behind it if it is `operator`. -/
theorem onward_takeMemberName : c.Onward c.takeMemberName.2 := by
  rw [takeMemberName]
  dsimp only
  split
  · exact c.onward_takeWord.trans (onward_takeOperator _)
  · exact c.onward_takeWord

/-- An initial value is captured, with or without a `=` in front. -/
theorem onward_takeInitial : c.Onward c.takeInitial.2 := by
  rw [takeInitial]
  split
  · exact c.onward_advance.trans (onward_capture _ _)
  · split
    · exact c.onward_capture _
    · exact .refl c

/-- What stands behind a comma is read onward: stars, a reference and a name. -/
theorem onward_takeNextDeclarator : c.Onward c.takeNextDeclarator.2 :=
  (c.onward_takeStars.trans (onward_pass _ '&')).trans (onward_takeWord _)

/-- Fields that share a type go onward, one at a time. -/
theorem onward_takeDeclarators (name : String) (shape : Shape) : c.Onward (takeDeclarators name shape c).2 := by
  fun_induction takeDeclarators name shape c with
  | case1 _ _ c => exact (c.onward_takeInitial.trans (onward_advance _)).trans (onward_takeNextDeclarator _)
  | case2 _ _ c _ _ _ _ _ _ _ ih =>
    exact ((c.onward_takeInitial.trans (onward_advance _)).trans (onward_takeNextDeclarator _)).trans ih
  | case3 _ _ c => exact c.onward_takeInitial

/-! ## Enums and the heads of types -/

/-- The rest of an entry is passed over. -/
theorem onward_skipEntry : c.Onward c.skipEntry := .of_suffix (afterEntry_suffix _)

/-- Each word behind the name of a type is one token. -/
theorem onward_takeTypeSpecifiers (flags : TypeFlags) : c.Onward (takeTypeSpecifiers flags c).2 := by
  fun_induction takeTypeSpecifiers flags c with
  | case1 _ c => exact .refl c
  | case2 _ c _ _ ih => exact c.onward_advance.trans ih
  | case3 _ c _ _ _ ih => exact c.onward_advance.trans ih
  | case4 _ c => exact .refl c

/-- Each word in front of a base is one token. -/
theorem onward_skipBaseWords : c.Onward c.skipBaseWords := by
  fun_induction skipBaseWords c with
  | case1 c => exact .refl c
  | case2 c _ _ ih => exact c.onward_advance.trans ih
  | case3 c => exact .refl c

/-- A base is its words, its name and its template arguments. -/
theorem onward_takeBase : c.Onward c.takeBase.2 := by
  have hword := c.onward_skipBaseWords.trans (onward_takeWord _)
  rw [takeBase]
  split
  · exact hword
  · exact (hword.trans (onward_takeParts _)).trans (onward_skipBlock _ _ _)

/-- Bases go onward, one for each comma. -/
theorem onward_takeBases : c.Onward c.takeBases.2 := by
  fun_induction takeBases c with
  | case1 c => exact c.onward_takeBase
  | case2 c _ _ _ _ _ ih => exact (c.onward_takeBase.trans (onward_advance _)).trans ih
  | case3 c => exact c.onward_takeBase

end Cursor

end HeaderAtlas
