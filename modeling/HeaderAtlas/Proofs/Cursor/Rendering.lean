import HeaderAtlas.Proofs.Cursor.Item
import HeaderAtlas.Proofs.Token.Chunk

/-!
# Writing items

Items are written one behind another with a blank behind each. The cursor in front of such a text shows the items
(`shows_text`), so a declaration that is described by its items has at least this text.
-/

namespace HeaderAtlas

/-- An identifier in front of a blank is one word. -/
theorem lone_word {name : String} (h : isIdentifier name = true) : Lone (.word name) name.toList := (oneToken_word h rfl).lone

/-- Digits in front of a blank are one number. -/
theorem lone_int {n : Nat} (h : n < Nat.pow 2 63) : Lone (.int (.ofNat n)) (Nat.toDigits 10 n) := (oneToken_int h rfl).lone

/-- The text is a value: with a blank behind it, it reads as tokens from its first character to its last one, properly nested and
without a comma or semicolon outside of that. -/
structure IsValue (text : String) : Prop where
  first : (tokens (text.toList ++ [' '])).head?.map Token.start = some 0
  last : (tokens (text.toList ++ [' '])).getLast?.map Token.stop = some text.toList.length
  nested : Nested [',', ';'] ((tokens (text.toList ++ [' '])).map Token.kind)

/-! ## Items -/

/-- A token as it is written. Numbers with a fraction are written in values only. -/
def Token.Kind.chars : Token.Kind → List Char
  | word name => name.toList
  | int value => Nat.toDigits 10 value.toInt.toNat
  | mark symbol => [symbol]
  | shiftLeft => ['<', '<']
  | _ => []

namespace Item

/-- An item as it is written. -/
def chars : Item → List Char
  | token kind => kind.chars
  | written _ text => text.toList
  | value text => text.toList
  | nested => []

/-- The item is a value. -/
def isValue : Item → Bool
  | value _ => true
  | _ => false

/-- The item is written so that it can be read back. -/
def Legible : Item → Prop
  | token kind => Lone kind kind.chars ∧ ∀ name, kind.word? = some name → name ∉ foldedWords
  | written kind text => Lone kind text.toList ∧ ∀ name, kind.word? = some name → name ∉ foldedWords
  | value text => IsValue text
  | nested => True

end Item

/-- Items one behind another as they are written. -/
def charsOf (items : List Item) : List Char := items.flatMap fun item => item.chars ++ [' ']

/-- The items can be read back: behind a value stands a mark, which ends it. -/
def Legible : List Item → Prop
  | [] => True
  | item :: items => item.Legible ∧ (item.isValue = true → ∃ symbol items', items = .mark symbol :: items') ∧ Legible items

namespace Legible

variable {items : List Item}

theorem nil : Legible [] := trivial

/-- One more token may be written in front, if it stands alone and is not folded. -/
theorem token {kind : Token.Kind} (h : Legible items) (hkind : Lone kind kind.chars)
    (hword : ∀ name, kind.word? = some name → name ∉ foldedWords) : Legible (.token kind :: items) :=
  ⟨⟨hkind, hword⟩, Bool.noConfusion, h⟩

/-- One more word may be written in front, if it is not folded. -/
theorem word {name : String} (h : Legible items) (hname : isIdentifier name = true) (hfolded : name ∉ foldedWords) :
    Legible (.word name :: items) := by
  refine h.token (lone_word hname) ?_
  rintro _ ⟨⟩
  exact hfolded

/-- One more mark may be written in front. -/
theorem mark {symbol : Char} (h : Legible items) (hsymbol : Lone (.mark symbol) [symbol]) : Legible (.mark symbol :: items) :=
  h.token hsymbol (by rintro _ ⟨⟩)

/-- One more number may be written in front. -/
theorem int {n : Nat} (h : Legible items) (hn : n < Nat.pow 2 63) : Legible (.token (.int (.ofNat n)) :: items) := by
  have hchars : Token.Kind.chars (.int (.ofNat n)) = Nat.toDigits 10 n := by
    change Nat.toDigits 10 (Int64.ofNat n).toInt.toNat = _
    rw [Int64.toInt_ofNat_of_lt hn, Int.toNat_natCast]
  exact h.token (hchars ▸ lone_int hn) (by rintro _ ⟨⟩)

/-- A value may be written in front of the mark that ends it. -/
theorem value {symbol : Char} {text : String} (h : Legible (.mark symbol :: items)) (htext : IsValue text) :
    Legible (.value text :: .mark symbol :: items) :=
  ⟨htext, fun _ => ⟨symbol, items, rfl⟩, h⟩

end Legible

/-- An item is written with a blank behind it. -/
theorem charsOf_cons (item : Item) (items : List Item) : charsOf (item :: items) = item.chars ++ ' ' :: charsOf items := by
  rw [charsOf, List.flatMap_cons, List.append_assoc]
  rfl

/-- A token that stands alone is closed. -/
theorem Lone.closed {kind : Token.Kind} {cs : List Char} (h : Lone kind cs) (p : Place) : Closed p cs := by
  rw [Closed, h p]
  rfl

/-- A piece of one token stays alone when words are folded. -/
theorem Lone.foldCompounds {kind : Token.Kind} {cs : List Char} (h : Lone kind cs)
    (hword : ∀ name, kind.word? = some name → name ∉ foldedWords) (p : Place) (us : List Token) :
    foldCompounds (tokensFrom p (cs ++ [' ']) ++ us) = Token.at p kind cs.length :: HeaderAtlas.foldCompounds us := by
  rw [h p, List.singleton_append]
  exact foldCompounds_cons us hword

/-- A token that stands alone is not folded. -/
theorem Lone.foldCompounds_nil {kind : Token.Kind} {cs : List Char} (h : Lone kind cs)
    (hword : ∀ name, kind.word? = some name → name ∉ foldedWords) (p : Place) :
    HeaderAtlas.foldCompounds (tokensFrom p (cs ++ [' '])) = [Token.at p kind cs.length] := by
  have hfold := h.foldCompounds hword p []
  rwa [List.append_nil, HeaderAtlas.foldCompounds] at hfold

/-- Where a value stands in a text, it is cut into its own tokens, moved to that place. -/
theorem IsValue.tokens_at {text : String} (h : IsValue text) (p : Place) :
    let run := foldCompounds (tokensFrom p (text.toList ++ [' ']))
    Nested [',', ';'] (run.map Token.kind) ∧ run.head?.map Token.start = some p.offset ∧
      run.getLast?.map Token.stop = some (p.offset + text.toList.length) := by
  intro run
  have hmoved : run.map (Token.moved 0) = (tokens (text.toList ++ [' '])).map (Token.moved p.offset) :=
    moved_foldCompounds p (text.toList ++ [' '])
  obtain ⟨hfirst, hlast, hnested⟩ := h
  generalize tokens (text.toList ++ [' ']) = ts at hmoved hfirst hlast hnested
  refine ⟨?_, ?_, ?_⟩
  · have hkinds := congrArg (List.map Token.kind) hmoved
    rw [List.map_map, List.map_map] at hkinds
    exact hkinds ▸ hnested
  · have hstart := congrArg (fun us => us.head?.map Token.start) hmoved
    simp only [List.head?_map, Option.map_map] at hstart
    obtain ⟨t, ht, hzero⟩ := Option.map_eq_some_iff.mp hfirst
    rw [ht, Option.map_some, Function.comp_apply, Token.moved, hzero, Nat.zero_add] at hstart
    exact hstart
  · have hstop := congrArg (fun us => us.getLast?.map Token.stop) hmoved
    simp only [List.getLast?_map, Option.map_map] at hstop
    obtain ⟨t, ht, hlength⟩ := Option.map_eq_some_iff.mp hlast
    rw [ht, Option.map_some, Function.comp_apply, Token.moved, hlength] at hstop
    exact hstop.trans (congrArg some (Nat.add_comm ..))

/-- The text of a value is closed. -/
theorem IsValue.closed {text : String} (h : IsValue text) (p : Place) : Closed p text.toList := by
  rw [Closed, ← stop_getLast_foldCompounds]
  exact (h.tokens_at p).2.2

namespace Item

/-- The text of tokens that stand where some characters do. -/
theorem textOf_eq {c : Cursor} {before cs more : List Char} (hsource : c.source = before ++ (cs ++ more)) {run : List Token}
    (hfirst : run.head?.map Token.start = some before.length)
    (hlast : run.getLast?.map Token.stop = some (before.length + cs.length)) : c.textOf run = String.ofList cs := by
  rw [Cursor.textOf, hfirst, hlast, Option.getD_some, Option.getD_some, Cursor.slice, hsource, List.drop_left,
    Nat.add_sub_cancel_left, List.take_left]

/-- What can be written is closed, or empty. -/
theorem Legible.closed {item : Item} (h : item.Legible) (p : Place) : item.chars = [] ∨ Closed p item.chars := by
  cases item with
  | token kind => exact Or.inr (h.1.closed p)
  | written kind text => exact Or.inr (h.1.closed p)
  | value text => exact Or.inr (IsValue.closed h p)
  | nested => exact Or.inl rfl

/-- A legible item is spelled by the tokens of what is written for it. -/
theorem Legible.spelledBy {item : Item} (h : item.Legible) {c : Cursor} {before more : List Char}
    (hsource : c.source = before ++ (item.chars ++ more)) {p : Place} (hp : p.offset = before.length) :
    item.SpelledBy c (foldCompounds (tokensFrom p (item.chars ++ [' ']))) := by
  cases item with
  | token kind =>
    rw [chars, h.1.foldCompounds_nil h.2]
    rfl
  | written kind text =>
    rw [chars, h.1.foldCompounds_nil h.2]
    refine ⟨rfl, ?_⟩
    have htext : c.textOf [Token.at p kind text.toList.length] = String.ofList text.toList :=
      textOf_eq hsource (congrArg some hp) (congrArg (fun n => some (n + text.toList.length)) hp)
    rw [htext, String.ofList_toList]
  | value text =>
    obtain ⟨hnested, hfirst, hlast⟩ := IsValue.tokens_at h p
    refine ⟨?_, hnested, ?_⟩
    · intro hnil
      rw [chars] at hnil
      rw [hnil] at hfirst
      cases hfirst
    · rw [hp] at hfirst hlast
      exact (textOf_eq hsource hfirst hlast).trans String.ofList_toList
  | nested =>
    rw [chars, List.nil_append, tokensFrom_blank, tokensFrom_nil, foldCompounds]
    rfl

end Item

/-- The first token of items that begin with a mark is no word. -/
theorem word?_head_tokensFrom {symbol : Char} {items : List Item} (h : Legible (.mark symbol :: items)) (p : Place) :
    (tokensFrom p (charsOf (.mark symbol :: items))).head?.bind Token.word? = none := by
  have hlone : Lone (.mark symbol) [symbol] := h.1.1
  have hpiece := tokensFrom_piece (charsOf items) 1 [symbol] p (Nat.le_refl _) (Or.inr (hlone.closed p))
  rw [hlone p] at hpiece
  rw [charsOf_cons, show Item.chars (.mark symbol) = [symbol] from rfl, hpiece]
  rfl

/-- The tokens of legible items are those of the first one and those of the others. -/
theorem Legible.tokens_cons {item : Item} {items : List Item} (h : Legible (item :: items)) (p : Place) :
    foldCompounds (tokensFrom p (charsOf (item :: items))) = foldCompounds (tokensFrom p (item.chars ++ [' '])) ++
      foldCompounds (tokensFrom (p.after (item.chars ++ [' '])) (charsOf items)) := by
  obtain ⟨hitem, hmark, hitems⟩ := h
  rw [charsOf_cons, tokensFrom_piece _ _ _ p (Nat.le_refl _) (hitem.closed p)]
  cases item with
  | token kind =>
    rw [Item.chars, hitem.1.foldCompounds hitem.2, hitem.1.foldCompounds_nil hitem.2]
    rfl
  | written kind text =>
    rw [Item.chars, hitem.1.foldCompounds hitem.2, hitem.1.foldCompounds_nil hitem.2]
    rfl
  | value text =>
    obtain ⟨symbol, items', rfl⟩ := hmark rfl
    exact foldCompounds_append _ (word?_head_tokensFrom hitems _)
  | nested =>
    have hnone : tokensFrom p [' '] = [] := by rw [tokensFrom_blank, tokensFrom_nil]
    rw [Item.chars, List.nil_append, hnone, foldCompounds]
    rfl

/-- In front of legible items, as they are written, a cursor shows the items. -/
theorem shows_charsOf (finish : Place) (items : List Item) : ∀ (before : List Char) (p : Place), Legible items →
    p.offset = before.length →
    Cursor.Shows ⟨before ++ charsOf items, foldCompounds (tokensFrom p (charsOf items)), finish⟩ items [] := by
  induction items with
  | nil =>
    intro before p _ _
    rw [charsOf, List.flatMap_nil, tokensFrom_nil, foldCompounds]
    rfl
  | cons item items ih =>
    intro before p h hp
    have hsource : before ++ charsOf (item :: items) = before ++ (item.chars ++ [' ']) ++ charsOf items := by
      rw [charsOf, List.flatMap_cons, List.append_assoc before]
      rfl
    refine ⟨_, _, h.tokens_cons p, h.1.spelledBy (by rw [charsOf_cons]) hp, ?_⟩
    rw [Cursor.before, hsource]
    exact ih _ _ h.2.2 (by rw [Place.offset_after, hp]; exact List.length_append.symm)

/-- Legible items can be read back from their text. -/
theorem shows_text {items : List Item} (h : Legible items) : (Cursor.ofText (.ofList (charsOf items))).Shows items [] := by
  rw [Cursor.ofText, String.toList_ofList]
  exact shows_charsOf _ items [] .start h rfl

end HeaderAtlas
