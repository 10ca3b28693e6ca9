import HeaderAtlas.Proofs.Cursor.Nesting
import HeaderAtlas.Proofs.Enum.Reading

/-!
# What a cursor shows

A declaration is spelled by items: single tokens, single tokens of which the text counts, values, which are copied as they are
written, and nested tokens that do not count. `Cursor.Shows` says that the tokens in front of a cursor spell some items, in whatever
layout, and what stands behind them. Reading one item leaves the cursor in front of the next one.
-/

namespace HeaderAtlas

/-- A piece of a declaration. -/
inductive Item where
  | token (kind : Token.Kind)
  /-- A token as it is written. -/
  | written (kind : Token.Kind) (text : String)
  /-- At least one token, properly nested and without a comma or semicolon outside of that, as they are written. -/
  | value (text : String)
  /-- Properly nested tokens, or none at all, whatever they are. -/
  | nested
  deriving DecidableEq, Repr

namespace Item

/-- The item that is a word. -/
def word (name : String) : Item := .token (.word name)

/-- The item that is a mark. -/
def mark (symbol : Char) : Item := .token (.mark symbol)

/-- The tokens spell the item in the text of the cursor. -/
def SpelledBy (c : Cursor) : Item → List Token → Prop
  | token kind, run => run.map Token.kind = [kind]
  | written kind text, run => run.map Token.kind = [kind] ∧ c.textOf run = text
  | value text, run => run ≠ [] ∧ Nested [',', ';'] (run.map Token.kind) ∧ c.textOf run = text
  | nested, run => Nested [] (run.map Token.kind)

end Item

namespace Cursor

/-- Tokens that spell the items stand in front of the cursor, and `rest` behind them. -/
def Shows (c : Cursor) : List Item → List Token → Prop
  | [], rest => c.unread = rest
  | item :: items, rest => ∃ run ts, c.unread = run ++ ts ∧ item.SpelledBy c run ∧ (c.before ts).Shows items rest

variable {c : Cursor} {items : List Item} {rest : List Token}

theorem Shows.eq_before (h : c.Shows [] rest) : c = c.before rest := by
  have hunread : c.unread = rest := h
  rw [before, ← hunread]

/-- The tokens of one kind in front, and the cursor behind it. -/
theorem Shows.token {kind : Token.Kind} (h : c.Shows (.token kind :: items) rest) :
    c.atEnd = false ∧ c.peek.kind = kind ∧ c.advance.Shows items rest := by
  obtain ⟨run, ts, hunread, hrun, hshows⟩ := h
  obtain ⟨t, rfl, rfl⟩ := List.map_eq_singleton_iff.mp hrun
  rw [atEnd, peek, advance, hunread]
  exact ⟨rfl, rfl, hshows⟩

theorem sees_of_kind {kind : Token.Kind} (h : c.peek.kind = kind) (symbol : Char) : c.sees symbol = (kind == .mark symbol) := by
  rw [sees, Token.isMark, h]

theorem seesWord_of_kind {kind : Token.Kind} (h : c.peek.kind = kind) (name : String) :
    c.seesWord name = (kind == .word name) := by
  rw [seesWord, Token.isWord, h]

theorem word?_of_kind {name : String} (h : c.peek.kind = .word name) : c.peek.word? = some name := by
  rw [Token.word?, h]
  rfl

/-- A value is captured whole, as it is written, up to the mark behind it. -/
theorem Shows.value {text : String} {symbol : Char} (stops : List Char) (hc : c.Lined)
    (h : c.Shows (.value text :: .mark symbol :: items) rest)
    (hstops : ∀ symbol ∈ stops, isOpener symbol = false ∧ (symbol ∈ [',', ';'] ∨ isCloser symbol = true))
    (hsymbol : symbol ∈ stops ∨ isCloser symbol = true) :
    ∃ ts, c.capture stops = (some text, c.before ts) ∧ (c.before ts).Shows (.mark symbol :: items) rest := by
  obtain ⟨run, ts, hunread, ⟨hne, hnested, rfl⟩, hshows⟩ := h
  obtain ⟨hend, hkind, -⟩ := hshows.token
  obtain ⟨t, ts', rfl⟩ : ∃ t ts', ts = t :: ts' := by
    cases ts with
    | nil => cases hend
    | cons t ts' => exact ⟨t, ts', rfl⟩
  exact ⟨t :: ts', capture_nested hc hunread hne hnested hstops hkind hsymbol, hshows⟩

end Cursor

end HeaderAtlas
