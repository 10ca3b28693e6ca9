import HeaderAtlas.Token.Lexer

/-!
# Walking over tokens

A cursor holds a text and those of its tokens that have not been read. It moves forward only; a place to come back to is the
cursor itself, kept. Reading past the last token is harmless: the end of file stands there and stays.

What is not understood is passed over in three ways: a block between two marks (`skipBlock`), a statement (`skipStatement`),
which never leaves the body it stands in, and a capture (`capture`), which copies the passed text as it is written.
-/

namespace HeaderAtlas

/-- A text, its tokens that are still to be read, and the place of its end. -/
structure Cursor where
  source : List Char
  unread : List Token
  finish : Place
  deriving DecidableEq, Repr

namespace Cursor

/-- The cursor in front of the first token of a text. -/
def ofText (s : String) : Cursor :=
  let source := s.toList
  ⟨source, tokens source, Place.start.after source⟩

/-- The token in front of the cursor. -/
def peek (c : Cursor) : Token := c.unread.headD (endToken c.finish)

/-- The token `n` steps ahead of the one in front of the cursor. -/
def ahead (c : Cursor) (n : Nat) : Token := (c.unread.drop n).headD (endToken c.finish)

/-- The cursor one token on; at the end it stays. -/
def advance (c : Cursor) : Cursor := { c with unread := c.unread.tail }

/-- Every token has been read. -/
def atEnd (c : Cursor) : Bool := c.unread.isEmpty

/-- How many tokens are still to be read. -/
def remaining (c : Cursor) : Nat := c.unread.length

/-- The token in front of the cursor is this mark. -/
def sees (c : Cursor) (symbol : Char) : Bool := c.peek.isMark symbol

/-- The token in front of the cursor is this word. -/
def seesWord (c : Cursor) (name : String) : Bool := c.peek.isWord name

/-- The token in front of the cursor is one of these words. -/
def seesWordOf (c : Cursor) (names : List String) : Bool :=
  match c.peek.word? with
  | some name => names.contains name
  | none => false

/-- The cursor behind this mark, if it stands in front. -/
def pass (c : Cursor) (symbol : Char) : Cursor := if c.sees symbol then c.advance else c

/-- The cursor behind this word, if it stands in front. -/
def passWord (c : Cursor) (name : String) : Cursor := if c.seesWord name then c.advance else c

/-- The word in front of the cursor, read. -/
def takeWord (c : Cursor) : Option String × Cursor :=
  match c.peek.word? with
  | some name => (some name, c.advance)
  | none => (none, c)

/-- The characters of the source from one offset up to another. -/
def slice (c : Cursor) (start stop : Nat) : List Char := (c.source.drop start).take (stop - start)

/-- The text of the token in front of the cursor as it is written, read. -/
def takeText (c : Cursor) : String × Cursor := (String.ofList (c.slice c.peek.start c.peek.stop), c.advance)

/-- The two marks in front of the cursor spell `::`. -/
def atScope (c : Cursor) : Bool := c.sees ':' && (c.ahead 1).isMark ':'

/-- The marks `::` and a word stand in front of the cursor. -/
def atScopedWord (c : Cursor) : Bool := c.atScope && (c.ahead 2).word?.isSome

/-! ## Passing over what is not understood -/

/-- The tokens behind the block that `depth` open marks have begun; none if it is not closed. -/
def afterBlock (opening closing : Char) : Nat → List Token → List Token
  | _, [] => []
  | depth, t :: ts =>
    if t.isMark opening then afterBlock opening closing (depth + 1) ts
    else if t.isMark closing then
      if depth ≤ 1 then ts else afterBlock opening closing (depth - 1) ts
    else afterBlock opening closing depth ts

/-- The cursor behind the block that begins in front of it; without a block in front it stays. -/
def skipBlock (c : Cursor) (opening closing : Char) : Cursor :=
  if c.sees opening then { c with unread := afterBlock opening closing 0 c.unread } else c

theorem length_afterBlock_le (opening closing : Char) (depth : Nat) (ts : List Token) :
    (afterBlock opening closing depth ts).length ≤ ts.length := by
  induction ts generalizing depth with
  | nil => simp [afterBlock]
  | cons t ts ih =>
    rw [afterBlock, List.length_cons]
    split
    · exact Nat.le_succ_of_le (ih _)
    · split
      · split
        · exact Nat.le_succ _
        · exact Nat.le_succ_of_le (ih _)
      · exact Nat.le_succ_of_le (ih _)

/-- The tokens behind a mark, if it stands first. -/
def afterMark (symbol : Char) : List Token → List Token
  | [] => []
  | t :: ts => if t.isMark symbol then ts else t :: ts

/-- The tokens behind the statement at the head of a token sequence. It ends behind its first `;`, or behind its first braces
and a `;` right behind those; the brace that closes the body around it is left where it is. Parentheses and brackets are
passed over whole. -/
def afterStatement : List Token → List Token
  | [] => []
  | t :: ts =>
    if t.isMark ';' then ts
    else if t.isMark '}' then t :: ts
    else if t.isMark '{' then afterMark ';' (afterBlock '{' '}' 1 ts)
    else if t.isMark '(' then afterStatement (afterBlock '(' ')' 1 ts)
    else if t.isMark '[' then afterStatement (afterBlock '[' ']' 1 ts)
    else afterStatement ts
termination_by ts => ts.length
decreasing_by
  · exact Nat.lt_succ_of_le (length_afterBlock_le ..)
  · exact Nat.lt_succ_of_le (length_afterBlock_le ..)
  · exact Nat.lt_succ_self _

/-- The cursor behind the statement in front of it. -/
def skipStatement (c : Cursor) : Cursor := { c with unread := afterStatement c.unread }

/-- A mark that opens a nesting. -/
def isOpener (symbol : Char) : Bool := symbol == '(' || symbol == '[' || symbol == '{'

/-- A mark that closes a nesting. -/
def isCloser (symbol : Char) : Bool := symbol == ')' || symbol == ']' || symbol == '}'

/-- The nesting depth behind a mark. -/
def depthAfter (depth : Nat) (symbol : Char) : Nat :=
  if isOpener symbol then depth + 1 else if isCloser symbol then depth - 1 else depth

/-- The tokens up to the first one outside all nesting that is a stop or closes a nesting begun before, and that token with all
behind it. -/
def splitCapture (stops : List Char) : Nat → List Token → List Token × List Token
  | _, [] => ([], [])
  | depth, t :: ts =>
    match t.kind with
    | .mark symbol =>
      if depth = 0 ∧ (stops.contains symbol ∨ isCloser symbol) then ([], t :: ts)
      else
        let r := splitCapture stops (depthAfter depth symbol) ts
        (t :: r.1, r.2)
    | _ =>
      let r := splitCapture stops depth ts
      (t :: r.1, r.2)

/-- The source text up to the first stop outside all nesting, as it is written, read; the cursor is left on the stop. -/
def capture (c : Cursor) (stops : List Char) : Option String × Cursor :=
  let r := splitCapture stops 0 c.unread
  let start := c.peek.start
  let text := Text.trimBy Text.isBlank (c.slice start ((r.1.getLast?.map Token.stop).getD start))
  (if text.isEmpty then none else some (String.ofList text), { c with unread := r.2 })

end Cursor

end HeaderAtlas
