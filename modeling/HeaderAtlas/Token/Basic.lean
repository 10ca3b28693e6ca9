import HeaderAtlas.Number.Shortest
import HeaderAtlas.Text.Quoted

/-!
# Tokens

A header is read as a sequence of tokens: words, numbers, quoted texts, single marks and the shift `<<`. A token carries the
half-open span of characters it was read from, so that source text can be copied verbatim, and the location of its first
character. The kind `eof` stands behind the last token.
-/

namespace HeaderAtlas

/-- A line and a column, both counted from one. -/
structure Location where
  line : Nat
  column : Nat
  deriving DecidableEq, Repr

/-- The location behind a character. -/
def Location.next (l : Location) (c : Char) : Location :=
  if c == '\n' then ⟨l.line + 1, 1⟩ else ⟨l.line, l.column + 1⟩

/-- A location as events show it. -/
def Location.text (l : Location) : String := s!"{l.line}:{l.column}"

/-- How far the text has been read: the number of characters passed, and the location of the next one. -/
structure Place where
  offset : Nat
  location : Location
  deriving DecidableEq, Repr

/-- The place in front of the first character. -/
def Place.start : Place := ⟨0, ⟨1, 1⟩⟩

/-- The place behind a character. -/
def Place.next (p : Place) (c : Char) : Place := ⟨p.offset + 1, p.location.next c⟩

/-- The place behind a run of characters. -/
def Place.after (p : Place) (cs : List Char) : Place := cs.foldl Place.next p

/-- What a token is, and what it says. -/
inductive Token.Kind where
  | word (name : String)
  | int (value : Int64)
  | float (value : Number.Binary64)
  /-- Quoted text without its quotes; escapes stay as written. -/
  | quoted (text : String)
  | mark (symbol : Char)
  | shiftLeft
  | eof
  deriving DecidableEq, Repr

instance : Inhabited Token.Kind := ⟨.eof⟩

/-- A token with the characters `start, …, stop - 1` it was read from and the location of the first of them. -/
structure Token where
  kind : Token.Kind
  start : Nat
  stop : Nat
  location : Location
  deriving DecidableEq, Repr

/-- A token of the given kind and length that begins at a place. -/
def Token.at (p : Place) (kind : Token.Kind) (length : Nat) : Token := ⟨kind, p.offset, p.offset + length, p.location⟩

/-- The word a token is. -/
def Token.Kind.word? : Token.Kind → Option String
  | .word name => some name
  | _ => none

/-- The word a token is. -/
def Token.word? (t : Token) : Option String := t.kind.word?

/-- The token is this word. -/
def Token.isWord (t : Token) (name : String) : Bool := t.kind == .word name

/-- The token is this mark. -/
def Token.isMark (t : Token) (symbol : Char) : Bool := t.kind == .mark symbol

/-- The token stands behind the last one. -/
def Token.isEof (t : Token) : Bool := t.kind == .eof

/-- A token in words, for a message to the reader of a header. -/
def Token.Kind.describe : Token.Kind → String
  | .word name => s!"identifier '{name}'"
  | .int value => s!"int literal {value.toInt}"
  | .float value => "float literal " ++ Number.Binary64.positional value
  | .quoted text => s!"string literal \"{text}\""
  | .mark symbol => s!"'{symbol}'"
  | .shiftLeft => "'<<'"
  | .eof => "end of file"

/-- A token by its kind and content, for the trace of what was passed over. -/
def Token.Kind.trace : Token.Kind → String
  | .word name => "Ident(" ++ Text.quoteText name ++ ")"
  | .int value => s!"IntLiteral({value.toInt})"
  | .float value => "FloatLiteral(" ++ Number.Binary64.general value ++ ")"
  | .quoted text => "StringLiteral(" ++ Text.quoteText text ++ ")"
  | .mark symbol => "Punct(" ++ Text.quoteChar symbol ++ ")"
  | .shiftLeft => "ShiftLeft"
  | .eof => "Eof"

end HeaderAtlas
