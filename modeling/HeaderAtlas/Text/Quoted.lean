import HeaderAtlas.Text.Printable

/-!
# Quoted text

Characters and texts between quotes, as events show them. The quote itself, the backslash and the common controls are
written with a backslash, and what cannot be shown as it stands by its code point.
-/

namespace HeaderAtlas.Text

/-- A character inside the given quotes. -/
def escapeChar (quote c : Char) : List Char :=
  if c == Char.ofNat 0 then ['\\', '0']
  else if c == '\t' then ['\\', 't']
  else if c == '\r' then ['\\', 'r']
  else if c == '\n' then ['\\', 'n']
  else if c == '\\' || c == quote then ['\\', c]
  else if isPrintable c then [c]
  else ['\\', 'u', '\x7b'] ++ Nat.toDigits 16 c.toNat ++ ['\x7d']

/-- Characters between the given quotes. -/
def quoteWith (quote : Char) (cs : List Char) : String :=
  String.ofList (quote :: (cs.flatMap (escapeChar quote) ++ [quote]))

/-- A character between single quotes. -/
def quoteChar (c : Char) : String := quoteWith '\'' [c]

/-- A text between double quotes. -/
def quoteText (s : String) : String := quoteWith '"' s.toList

end HeaderAtlas.Text
