import HeaderAtlas.Token.Compound
import HeaderAtlas.Token.Lexeme

/-!
# The tokens of a text

`tokens` cuts a text into lexemes and gaps from its first character to its last and keeps the lexemes, each with its span and
location, then folds the primitive types of several words. Every text has tokens: reading cannot fail.
-/

namespace HeaderAtlas

/-- The tokens of a text that begins at a place, before folding. -/
def tokensFrom (p : Place) : List Char → List Token
  | [] => []
  | c :: cs =>
    match _h : gap? (c :: cs) with
    | some g => tokensFrom (p.after g.1) g.2
    | none =>
      let l := lexeme c cs
      Token.at p l.kind l.text.length :: tokensFrom (p.after l.text) l.rest
termination_by cs => cs.length
decreasing_by
  · exact length_rest_gap _h
  · exact length_rest_lexeme c cs

/-- The tokens of a text, without the end of file. -/
def tokens (source : List Char) : List Token := foldCompounds (tokensFrom .start source)

/-- The token behind the last one: it stands at the end of the text and has no characters. -/
def endToken (p : Place) : Token := Token.at p .eof 0

/-- The tokens of a text, the end of file behind them. -/
def tokensWithEnd (source : List Char) : List Token := tokens source ++ [endToken (Place.start.after source)]

end HeaderAtlas
