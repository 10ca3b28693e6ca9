import HeaderAtlas.Proofs.Catalog.Invariant
import HeaderAtlas.Proofs.Cursor.Onward

/-!
# What words are made of

A word is made of letters, digits and underscores (`plain_tokens`), also where it stands for several words. In particular no word
holds a `:`, so a qualified name falls apart where it was put together: its last part is the last of the words it is written with
(`isLastPart_qualifiedName`).
-/

namespace HeaderAtlas

/-- All characters of the text may stand in a word. -/
def IsPlain (name : String) : Prop := ∀ c ∈ name.toList, Text.isWordChar c = true

/-- If the token is a word, it is made of the characters of words. -/
def Token.Plain (t : Token) : Prop := ∀ name, t.word? = some name → IsPlain name

/-- What begins a word may go on with one. -/
theorem isWordChar_of_isWordStart {c : Char} (h : Text.isWordStart c = true) : Text.isWordChar c = true := by
  unfold Text.isWordStart at h
  unfold Text.isWordChar Char.isAlphanum
  grind

/-- The word of a token is its kind. -/
theorem Token.kind_of_word? {t : Token} {name : String} (h : t.word? = some name) : t.kind = .word name := by
  unfold Token.word? Token.Kind.word? at h
  split at h
  · rename_i word hkind
    rw [hkind, Option.some.inj h]
  · cases h

/-! ## The words of a text -/

/-- A lexeme that is a word is made of the characters of words. -/
theorem plain_lexeme {c : Char} {cs : List Char} {name : String} (h : (lexeme c cs).kind.word? = some name) :
    IsPlain name := by
  unfold lexeme at h
  split at h
  · cases h
  · split at h
    · unfold numberLexeme at h
      split at h
      · split at h
        · cases h
        · unfold decimalLexeme at h
          dsimp only at h
          split at h <;> cases h
      · unfold decimalLexeme at h
        dsimp only at h
        split at h <;> cases h
    · split at h
      · rename_i hstart
        obtain rfl := Option.some.inj h
        intro d hd
        rw [String.toList_ofList, List.mem_cons] at hd
        rcases hd with rfl | hd
        · exact isWordChar_of_isWordStart hstart
        · exact List.all_eq_true.mp List.all_takeWhile d hd
      · unfold markLexeme at h
        split at h
        · split at h <;> cases h
        · cases h

/-- The words of a text are plain before they are folded. -/
theorem plain_tokensFrom (p : Place) (cs : List Char) : ∀ t ∈ tokensFrom p cs, t.Plain := by
  fun_induction tokensFrom p cs with
  | case1 => exact fun t ht => absurd ht List.not_mem_nil
  | case2 _ _ _ _ _ ih => exact ih
  | case3 p c cs _ l ih =>
    intro t ht
    rcases List.mem_cons.mp ht with rfl | ht
    · exact fun name h => plain_lexeme h
    · exact ih t ht

/-- A primitive type of several words has a name that may be a word. -/
theorem plain_compoundName {first second third : Option String} {name : String} {n : Nat}
    (h : compoundName? first second third = some (name, n)) : IsPlain name := by
  unfold compoundName? at h
  split at h
  all_goals simp only [Option.some.injEq, Prod.mk.injEq, reduceCtorEq] at h
  all_goals
    obtain ⟨rfl, -⟩ := h
    exact List.all_eq_true.mp (by decide)

/-- Words that are folded stay plain. -/
theorem plain_foldCompounds (ts : List Token) (h : ∀ t ∈ ts, t.Plain) : ∀ t ∈ foldCompounds ts, t.Plain := by
  fun_induction foldCompounds ts with
  | case1 => exact fun t ht => absurd ht List.not_mem_nil
  | case2 t ts name n hname ih =>
    intro u hu
    rcases List.mem_cons.mp hu with rfl | hu
    · intro word hword
      obtain rfl : name = word := Option.some.inj hword
      exact plain_compoundName hname
    · exact ih (fun v hv => h v (List.mem_cons_of_mem _ (List.mem_of_mem_drop hv))) u hu
  | case3 t ts _ ih =>
    intro u hu
    rcases List.mem_cons.mp hu with rfl | hu
    · exact h u List.mem_cons_self
    · exact ih (fun v hv => h v (List.mem_cons_of_mem _ hv)) u hu

/-- The words of a text are made of the characters of words. -/
theorem plain_tokens (source : List Char) : ∀ t ∈ tokens source, t.Plain :=
  plain_foldCompounds _ (plain_tokensFrom .start source)

namespace Cursor

/-- The unread words are made of the characters of words. -/
def Plain (c : Cursor) : Prop := ∀ t ∈ c.unread, t.Plain

/-- The tokens of a text are plain. -/
theorem plain_ofText (s : String) : (ofText s).Plain := plain_tokens s.toList

/-- The tokens that are left further on are plain. -/
theorem Plain.onward {c c' : Cursor} (h : c.Plain) (hon : c.Onward c') : c'.Plain :=
  fun t ht => h t (hon.suffix.subset ht)

/-- A word in front is plain. -/
theorem Plain.peek {c : Cursor} (h : c.Plain) {name : String} (hword : c.peek.word? = some name) : IsPlain name := by
  obtain ⟨source, unread, finish⟩ := c
  cases unread with
  | nil => cases hword
  | cons t ts => exact h t List.mem_cons_self name hword

/-- A word that is taken is plain. -/
theorem Plain.takeWord {c : Cursor} (h : c.Plain) {name : String} (hword : c.takeWord.1 = some name) : IsPlain name := by
  unfold Cursor.takeWord at hword
  split at hword
  · rename_i found hpeek
    obtain rfl : found = name := Option.some.inj hword
    exact h.peek hpeek
  · cases hword

/-- The word that names a type. -/
theorem Plain.takeTypeHead {c : Cursor} (h : c.Plain) {word : String} (hword : c.takeTypeHead.1.word = some word) :
    IsPlain word := by
  rw [Cursor.takeTypeHead] at hword
  have hkeyed : c.Onward (if c.seesWordOf ["class", "struct", "typename"] then c.advance else c) :=
    onward_ite c.onward_advance (.refl c)
  generalize (if c.seesWordOf ["class", "struct", "typename"] then c.advance else c) = keyed at hkeyed hword
  have hmarked := (hkeyed.trans (onward_passWord _ "virtual")).trans (onward_pass _ '~')
  have hqualified := hmarked.trans (onward_takeQualifiers _ { decorations := { isVirtual := keyed.seesWord "virtual" } })
  split at hword
  · rename_i found hfound
    obtain rfl : found = word := Option.some.inj hword
    obtain ⟨hpeek, -⟩ := Option.filter_eq_some_iff.mp hfound
    exact (h.onward hqualified).peek hpeek
  · cases hword

/-- The parts of a name are plain. -/
theorem Plain.takeParts {c : Cursor} (h : c.Plain) : ∀ part ∈ c.takeParts.1, IsPlain part := by
  fun_induction Cursor.takeParts c with
  | case1 c _ part hpart rest ih =>
    have hbehind := h.onward (c.onward_advance.trans c.advance.onward_advance)
    intro other hother
    rcases List.mem_cons.mp hother with rfl | hother
    · exact hbehind.takeWord hpart
    · exact ih (hbehind.onward (onward_takeWord _)) other hother
  | case2 => exact fun part hpart => absurd hpart List.not_mem_nil
  | case3 => exact fun part hpart => absurd hpart List.not_mem_nil

end Cursor

/-! ## Qualified names -/

/-- One more part of a qualified name stands behind `::`. -/
theorem qualifiedName_concat (first : String) (parts : List String) (part : String) :
    qualifiedName first (parts ++ [part]) = qualifiedName first parts ++ "::" ++ part := by
  rw [qualifiedName, List.foldl_append]
  rfl

/-- There is no `::` in a colon and a word. -/
theorem IsPlain.noColons {part : String} (h : IsPlain part) : ¬[':', ':'] <:+: ':' :: part.toList := by
  have hcolon : ':' ∉ part.toList := fun hmem => absurd (h ':' hmem) (by decide)
  intro hin
  have hcount := hin.sublist.count_le ':'
  simp [List.count_eq_zero_of_not_mem hcolon] at hcount

/-- The last part of a qualified name is the last of the words it is written with. -/
theorem isLastPart_qualifiedName (first : String) (parts : List String) {part : String} (h : IsPlain part) :
    IsLastPart (qualifiedName first (parts ++ [part])) part := by
  refine ⟨(qualifiedName first parts).toList, ?_, h.noColons⟩
  rw [qualifiedName_concat, String.toList_append, String.toList_append]
  simp

end HeaderAtlas
