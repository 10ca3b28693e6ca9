import HeaderAtlas.Cursor.Basic

/-!
# Walks

A walk is a cursor together with the checkpoints that were saved on the way. A step asks the cursor something, moves it, saves
a checkpoint or goes back to one; `Walk.run` takes steps one after the other and keeps what each one answered.
-/

namespace HeaderAtlas

/-- One step of a walk. -/
inductive Step where
  | peek
  /-- Any number of tokens ahead: it is not bounded by the size of a machine word, so its sum with a position never wraps. -/
  | ahead (n : Nat)
  | advance
  | atEnd
  | sees (symbol : Char)
  | seesWord (name : String)
  | pass (symbol : Char)
  | passWord (name : String)
  | atScope
  | takeWord
  | takeText
  | location
  | save
  | restore (checkpoint : Nat)
  | skipBlock (opening closing : Char)
  | skipStatement
  | capture (stops : List Char)
  deriving DecidableEq, Repr

/-- What a step answers. -/
inductive Answer where
  | token (t : Token)
  | flag (b : Bool)
  | text (s : String)
  | text? (s : Option String)
  | checkpoint (n : Nat)
  | done
  deriving DecidableEq, Repr

/-- A cursor and the unread tokens at each checkpoint, in the order they were saved. -/
structure Walk where
  cursor : Cursor
  checkpoints : List (List Token)
  deriving DecidableEq, Repr

namespace Walk

/-- The walk in front of the first token of a text. -/
def ofText (s : String) : Walk := ⟨.ofText s, []⟩

/-- The walk with its cursor moved. -/
def moved (w : Walk) (c : Cursor) : Walk := { w with cursor := c }

/-- One step: the answer, and the walk behind the step. -/
def step (w : Walk) : Step → Answer × Walk
  | .peek => (.token w.cursor.peek, w)
  | .ahead n => (.token (w.cursor.ahead n), w)
  | .advance => (.token w.cursor.peek, w.moved w.cursor.advance)
  | .atEnd => (.flag w.cursor.atEnd, w)
  | .sees symbol => (.flag (w.cursor.sees symbol), w)
  | .seesWord name => (.flag (w.cursor.seesWord name), w)
  | .pass symbol => (.flag (w.cursor.sees symbol), w.moved (w.cursor.pass symbol))
  | .passWord name => (.flag (w.cursor.seesWord name), w.moved (w.cursor.passWord name))
  | .atScope => (.flag w.cursor.atScope, w)
  | .takeWord => (.text? w.cursor.takeWord.1, w.moved w.cursor.takeWord.2)
  | .takeText => (.text w.cursor.takeText.1, w.moved w.cursor.takeText.2)
  | .location => (.text w.cursor.peek.location.text, w)
  | .save => (.checkpoint w.checkpoints.length, { w with checkpoints := w.checkpoints ++ [w.cursor.unread] })
  | .restore n =>
    match w.checkpoints[n]? with
    | some unread => (.done, w.moved { w.cursor with unread })
    | none => (.done, w)
  | .skipBlock opening closing => (.done, w.moved (w.cursor.skipBlock opening closing))
  | .skipStatement => (.done, w.moved w.cursor.skipStatement)
  | .capture stops => (.text? (w.cursor.capture stops).1, w.moved (w.cursor.capture stops).2)

/-- Steps one after the other: what each answered with the offset it left the cursor at, and the walk behind them all. -/
def run (w : Walk) : List Step → List (Answer × Nat) × Walk
  | [] => ([], w)
  | s :: steps =>
    let r := w.step s
    let rest := r.2.run steps
    ((r.1, r.2.cursor.peek.start) :: rest.1, rest.2)

end Walk

end HeaderAtlas
