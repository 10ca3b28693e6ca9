import HeaderAtlas.Cursor.Walk
import HeaderAtlas.Proofs.Cursor.Block
import HeaderAtlas.Proofs.Cursor.Capture

/-!
# Walking by position

A tape holds all tokens of a text, with the end of the text behind them, and the position of the token in front. Everything that can
go wrong on the way is checked where it happens and is a fault: a position without a token, a slice that the text does not have, and
a count that falls below zero. No walk over a text comes to a fault, whatever its steps are; it answers as the walk over the unread
tokens does, and the position stays on a token (`run_ofText`).
-/

namespace HeaderAtlas

/-- What a walk by position must not do. -/
inductive Fault where
  /-- Ask for a token where there is none. -/
  | token
  /-- Take characters that the text does not have, or that end before they begin. -/
  | slice
  /-- Take one from zero. -/
  | below
  deriving DecidableEq, Repr

/-- A text, its tokens with the end of the text behind them, the position of the token in front, and the positions that were saved. -/
structure Tape where
  source : List Char
  tokens : List Token
  position : Nat
  saved : List Nat
  deriving DecidableEq, Repr

namespace Tape

/-! ## Passing over tokens -/

/-- The token at a position. -/
def tokenAt (ts : List Token) (position : Nat) : Except Fault Token :=
  match ts[position]? with
  | some t => .ok t
  | none => .error .token

/-- One less. -/
def lower : Nat → Except Fault Nat
  | 0 => .error .below
  | n + 1 => .ok n

/-- A result handed on together with where it comes from; a fault is kept. -/
def bindOf {α β : Type} : (x : Except Fault α) → ((a : α) → x = .ok a → Except Fault β) → Except Fault β
  | .error fault, _ => .error fault
  | .ok a, f => f a rfl

section

variable {α β : Type} {x : Except Fault α} {f : (a : α) → x = .ok a → Except Fault β}

/-- What goes on from a result goes on with it. -/
theorem bindOf_ok {a : α} (h : x = .ok a) : bindOf x f = f a h := by
  subst h
  rfl

theorem ok_bind (a : α) (f : α → Except Fault β) : (Except.ok a >>= f) = f a := rfl

/-- A result of both parts is a result of the first, and one of the second with it. -/
theorem exists_of_bindOf {b : β} (h : bindOf x f = .ok b) : ∃ a, ∃ ha : x = .ok a, f a ha = .ok b := by
  cases x with
  | error fault => cases h
  | ok a => exact ⟨a, rfl, h⟩

end

/-- There is a token only at a position on the tape. -/
theorem lt_length_of_tokenAt {ts : List Token} {position : Nat} {t : Token} (h : tokenAt ts position = .ok t) :
    position < ts.length := by
  rw [tokenAt] at h
  split at h
  · rename_i hget
    exact (List.getElem?_eq_some_iff.mp hget).1
  · cases h

/-- The position behind a block of which `depth` marks are open. -/
def blockEnd (ts : List Token) (opening closing : Char) (depth position : Nat) : Except Fault Nat :=
  bindOf (tokenAt ts position) fun t _h =>
    if t.isEof then .ok position
    else if t.isMark opening then blockEnd ts opening closing (depth + 1) (position + 1)
    else if t.isMark closing then do
      let left ← lower depth
      if left = 0 then .ok (position + 1) else blockEnd ts opening closing left (position + 1)
    else blockEnd ts opening closing depth (position + 1)
termination_by ts.length - position
decreasing_by all_goals exact Nat.sub_succ_lt_self _ _ (lt_length_of_tokenAt _h)

/-- The position behind the block that begins at a position, or the position itself. -/
def passBlock (ts : List Token) (opening closing : Char) (position : Nat) : Except Fault Nat := do
  let t ← tokenAt ts position
  if t.isMark opening then blockEnd ts opening closing 0 position else .ok position

/-- The position behind this mark, if it stands at the position. -/
def passMark (ts : List Token) (symbol : Char) (position : Nat) : Except Fault Nat := do
  let t ← tokenAt ts position
  return if t.isMark symbol then position + 1 else position

/-- A mark is not the end. -/
theorem not_isEof_of_isMark {t : Token} {symbol : Char} (h : t.isMark symbol = true) : t.isEof = false := by
  rw [Token.isEof, kind_of_isMark h]
  rfl

section

variable {ts : List Token} {opening closing : Char} {position next : Nat} {t : Token}

/-- A block does not end before the position at which it is looked for. -/
theorem le_of_blockEnd {depth : Nat} (h : blockEnd ts opening closing depth position = .ok next) : position ≤ next := by
  induction hn : ts.length - position using Nat.strongRecOn generalizing depth position with
  | ind n ih =>
    rw [blockEnd] at h
    obtain ⟨t, hat, h⟩ := exists_of_bindOf h
    have hlt := lt_length_of_tokenAt hat
    have hbehind : ∀ {depth}, blockEnd ts opening closing depth (position + 1) = .ok next → position ≤ next :=
      fun h => Nat.le_of_succ_le (ih _ (by omega) h rfl)
    split at h
    · exact Nat.le_of_eq (Except.ok.inj h)
    · split at h
      · exact hbehind h
      · split at h
        · cases depth with
          | zero => cases h
          | succ depth =>
            have hleft : (if depth = 0 then .ok (position + 1) else blockEnd ts opening closing depth (position + 1)) = .ok next := h
            split at hleft
            · exact Nat.le_of_succ_le (Nat.le_of_eq (Except.ok.inj hleft))
            · exact hbehind hleft
        · exact hbehind h

/-- A block that begins at a position is not empty. -/
theorem lt_of_passBlock (ht : tokenAt ts position = .ok t) (hmark : t.isMark opening = true)
    (h : passBlock ts opening closing position = .ok next) : position < next := by
  rw [passBlock, ht] at h
  have hblock : blockEnd ts opening closing 0 position = .ok next := (if_pos hmark).symm.trans h
  rw [blockEnd, bindOf_ok ht, not_isEof_of_isMark hmark, if_neg Bool.false_ne_true, if_pos hmark] at hblock
  exact le_of_blockEnd hblock

end

/-- The position behind the statement that begins at a position. -/
def statementEnd (ts : List Token) (position : Nat) : Except Fault Nat :=
  bindOf (tokenAt ts position) fun t _h =>
    if t.isEof then .ok position
    else if t.isMark ';' then .ok (position + 1)
    else if t.isMark '}' then .ok position
    else if t.isMark '{' then passBlock ts '{' '}' position >>= passMark ts ';'
    else if _ht : t.isMark '(' = true then bindOf (passBlock ts '(' ')' position) fun next _hb => statementEnd ts next
    else if _ht : t.isMark '[' = true then bindOf (passBlock ts '[' ']' position) fun next _hb => statementEnd ts next
    else statementEnd ts (position + 1)
termination_by ts.length - position
decreasing_by
  · exact Nat.sub_lt_sub_left (lt_length_of_tokenAt _h) (lt_of_passBlock _h _ht _hb)
  · exact Nat.sub_lt_sub_left (lt_length_of_tokenAt _h) (lt_of_passBlock _h _ht _hb)
  · exact Nat.sub_succ_lt_self _ _ (lt_length_of_tokenAt _h)

/-- Where a capture ends in which `depth` marks are open and the last token taken ends at `stop`: the end of the last token taken, and
the position of the token behind it. -/
def captureEnd (ts : List Token) (stops : List Char) (depth stop position : Nat) : Except Fault (Nat × Nat) :=
  bindOf (tokenAt ts position) fun t _h =>
    match t.kind with
    | .eof => .ok (stop, position)
    | .mark symbol =>
      if depth = 0 ∧ (stops.contains symbol ∨ Cursor.isCloser symbol) then .ok (stop, position)
      else if Cursor.isOpener symbol then captureEnd ts stops (depth + 1) t.stop (position + 1)
      else if Cursor.isCloser symbol then do captureEnd ts stops (← lower depth) t.stop (position + 1)
      else captureEnd ts stops depth t.stop (position + 1)
    | _ => captureEnd ts stops depth t.stop (position + 1)
termination_by ts.length - position
decreasing_by all_goals exact Nat.sub_succ_lt_self _ _ (lt_length_of_tokenAt _h)

/-! ## Steps -/

/-- The tape in front of the first token of a text. -/
def ofText (s : String) : Tape := ⟨s.toList, tokensWithEnd s.toList, 0, []⟩

/-- The tape at another position. -/
def moveTo (t : Tape) (position : Nat) : Tape := { t with position := position }

/-- The token in front. -/
def peek (t : Tape) : Except Fault Token := tokenAt t.tokens t.position

/-- The token `n` steps ahead, or the last one. Positions are not bounded here; in machine words the sum with a huge `n` may wrap
around or be refused, and if it wraps it is cut off at the last token all the same. -/
def ahead (t : Tape) (n : Nat) : Except Fault Token := do
  let last ← lower t.tokens.length
  tokenAt t.tokens (min (t.position + n) last)

/-- The tape one token on; at the end it stays. -/
def advance (t : Tape) : Except Fault Tape := do
  let token ← t.peek
  return if token.isEof then t else t.moveTo (t.position + 1)

/-- The characters of the text from one offset up to another. -/
def slice (t : Tape) (start stop : Nat) : Except Fault (List Char) :=
  if start ≤ stop ∧ stop ≤ t.source.length then .ok ((t.source.drop start).take (stop - start)) else .error .slice

/-- The text up to the first stop outside all nesting, and the tape in front of the stop. -/
def capture (t : Tape) (stops : List Char) : Except Fault (Option String × Tape) := do
  let first ← t.peek
  let r ← captureEnd t.tokens stops 0 first.start t.position
  let text := Text.trimBy Text.isBlank (← t.slice first.start r.1)
  return (if text.isEmpty then none else some (String.ofList text), t.moveTo r.2)

/-- One step: the answer, and the tape behind the step. -/
def step (t : Tape) : Step → Except Fault (Answer × Tape)
  | .peek => do return (.token (← t.peek), t)
  | .ahead n => do return (.token (← t.ahead n), t)
  | .advance => do return (.token (← t.peek), ← t.advance)
  | .atEnd => do return (.flag (← t.peek).isEof, t)
  | .sees symbol => do return (.flag ((← t.peek).isMark symbol), t)
  | .seesWord name => do return (.flag ((← t.peek).isWord name), t)
  | .pass symbol => do
    let token ← t.peek
    return (.flag (token.isMark symbol), ← if token.isMark symbol then t.advance else pure t)
  | .passWord name => do
    let token ← t.peek
    return (.flag (token.isWord name), ← if token.isWord name then t.advance else pure t)
  | .atScope => do
    let token ← t.peek
    if token.isMark ':' then return (.flag ((← t.ahead 1).isMark ':'), t) else return (.flag false, t)
  | .takeWord => do
    match (← t.peek).word? with
    | some name => return (.text? (some name), ← t.advance)
    | none => return (.text? none, t)
  | .takeText => do
    let token ← t.peek
    let next ← t.advance
    return (.text (String.ofList (← t.slice token.start token.stop)), next)
  | .location => do return (.text (← t.peek).location.text, t)
  | .save => return (.checkpoint t.saved.length, { t with saved := t.saved ++ [t.position] })
  | .restore n =>
    match t.saved[n]? with
    | some position => return (.done, t.moveTo position)
    | none => return (.done, t)
  | .skipBlock opening closing => do return (.done, t.moveTo (← passBlock t.tokens opening closing t.position))
  | .skipStatement => do return (.done, t.moveTo (← statementEnd t.tokens t.position))
  | .capture stops => do
    let r ← t.capture stops
    return (.text? r.1, r.2)

/-- Steps one after the other: what each answered with the offset it left the tape at, and the tape behind them all. -/
def run (t : Tape) : List Step → Except Fault (List (Answer × Nat) × Tape)
  | [] => .ok ([], t)
  | s :: steps => do
    let r ← t.step s
    let token ← r.2.peek
    let rest ← r.2.run steps
    return ((r.1, token.start) :: rest.1, rest.2)

/-! ## Positions and unread tokens -/

section

variable {ts : List Token} {last : Token} {opening closing : Char} {depth position : Nat}

/-- At a position stands the first of the tokens from there on, or behind all of them the last token. -/
theorem tokenAt_cases (ts : List Token) (last : Token) (hposition : position ≤ ts.length) :
    (tokenAt (ts ++ [last]) position = .ok last ∧ ts.drop position = []) ∨
      ∃ t ∈ ts, position < ts.length ∧ tokenAt (ts ++ [last]) position = .ok t ∧ ts.drop position = t :: ts.drop (position + 1) := by
  rcases Nat.eq_or_lt_of_le hposition with rfl | hlt
  · refine Or.inl ⟨?_, List.drop_length⟩
    rw [tokenAt, List.getElem?_append_right (Nat.le_refl _), Nat.sub_self]
    rfl
  · refine Or.inr ⟨ts[position], List.getElem_mem hlt, hlt, ?_, List.drop_eq_getElem_cons hlt⟩
    rw [tokenAt, List.getElem?_append_left hlt, List.getElem?_eq_getElem hlt]

/-- Passing a mark comes to no fault, and to the unread tokens behind it. -/
theorem exists_passMark (hlast : last.isEof = true) (symbol : Char) (hposition : position ≤ ts.length) :
    ∃ next, passMark (ts ++ [last]) symbol position = .ok next ∧ next ≤ ts.length ∧
      ts.drop next = Cursor.afterMark symbol (ts.drop position) := by
  rcases tokenAt_cases ts last hposition with ⟨hat, hdrop⟩ | ⟨t, ht, hlt, hat, hdrop⟩
  · have hmark : last.isMark symbol = false :=
      Bool.eq_false_iff.mpr fun hmark => Bool.false_ne_true ((not_isEof_of_isMark hmark).symm.trans hlast)
    refine ⟨position, ?_, hposition, ?_⟩
    · rw [passMark, hat]
      exact congrArg Except.ok (if_neg (Bool.eq_false_iff.mp hmark))
    · rw [hdrop, Cursor.afterMark]
  · rw [passMark, hat, hdrop, Cursor.afterMark]
    by_cases hmark : t.isMark symbol = true
    · rw [if_pos hmark]
      exact ⟨position + 1, congrArg Except.ok (if_pos hmark), hlt, rfl⟩
    · rw [if_neg hmark]
      exact ⟨position, congrArg Except.ok (if_neg hmark), hposition, hdrop⟩

variable (hts : ∀ t ∈ ts, t.isEof = false) (hlast : last.isEof = true)
include hts hlast

/-- With a mark open, passing over a block never takes one from zero. -/
theorem exists_blockEnd (opening closing : Char) (depth : Nat) (hposition : position ≤ ts.length) :
    ∃ next, blockEnd (ts ++ [last]) opening closing (depth + 1) position = .ok next ∧ next ≤ ts.length ∧
      ts.drop next = Cursor.afterBlock opening closing (depth + 1) (ts.drop position) := by
  induction hn : ts.length - position using Nat.strongRecOn generalizing depth position with
  | ind n ih =>
    rcases tokenAt_cases ts last hposition with ⟨hat, hdrop⟩ | ⟨t, ht, hlt, hat, hdrop⟩
    · refine ⟨position, ?_, hposition, ?_⟩
      · rw [blockEnd, bindOf_ok hat, if_pos hlast]
      · rw [hdrop, Cursor.afterBlock]
    · have hbehind : ∀ depth, ∃ next, blockEnd (ts ++ [last]) opening closing (depth + 1) (position + 1) = .ok next ∧
          next ≤ ts.length ∧ ts.drop next = Cursor.afterBlock opening closing (depth + 1) (ts.drop (position + 1)) :=
        fun depth => ih _ (by omega) depth hlt rfl
      rw [blockEnd, bindOf_ok hat, hts t ht, if_neg Bool.false_ne_true, hdrop, Cursor.afterBlock]
      by_cases hopening : t.isMark opening = true
      · rw [if_pos hopening, if_pos hopening]
        exact hbehind (depth + 1)
      · rw [if_neg hopening, if_neg hopening]
        by_cases hclosing : t.isMark closing = true
        · rw [if_pos hclosing, if_pos hclosing]
          cases depth with
          | zero => exact ⟨position + 1, rfl, hlt, rfl⟩
          | succ depth =>
            rw [if_neg (by omega), Nat.add_sub_cancel]
            exact hbehind depth
        · rw [if_neg hclosing, if_neg hclosing]
          exact hbehind depth

/-- Passing a block comes to no fault, and to the unread tokens behind it. -/
theorem exists_passBlock {t : Token} (closing : Char) (hlt : position < ts.length)
    (hat : tokenAt (ts ++ [last]) position = .ok t) (hmark : t.isMark opening = true) :
    ∃ next, passBlock (ts ++ [last]) opening closing position = .ok next ∧ next ≤ ts.length ∧
      ts.drop next = Cursor.afterBlock opening closing 1 (ts.drop (position + 1)) := by
  obtain ⟨next, hnext, hle, hdrop⟩ := exists_blockEnd hts hlast opening closing 0 (Nat.succ_le_of_lt hlt)
  refine ⟨next, ?_, hle, hdrop⟩
  rw [passBlock, hat]
  refine (if_pos hmark).trans ?_
  rw [blockEnd, bindOf_ok hat, not_isEof_of_isMark hmark, if_neg Bool.false_ne_true, if_pos hmark, hnext]

/-- Passing a statement comes to no fault, and to the unread tokens behind it. -/
theorem exists_statementEnd (hposition : position ≤ ts.length) :
    ∃ next, statementEnd (ts ++ [last]) position = .ok next ∧ next ≤ ts.length ∧
      ts.drop next = Cursor.afterStatement (ts.drop position) := by
  induction hn : ts.length - position using Nat.strongRecOn generalizing position with
  | ind n ih =>
    rcases tokenAt_cases ts last hposition with ⟨hat, hdrop⟩ | ⟨t, ht, hlt, hat, hdrop⟩
    · refine ⟨position, ?_, hposition, ?_⟩
      · rw [statementEnd, bindOf_ok hat, if_pos hlast]
      · rw [hdrop, Cursor.afterStatement]
    · have hblock : ∀ {opening : Char} (closing : Char), t.isMark opening = true →
          ∃ next, (bindOf (passBlock (ts ++ [last]) opening closing position) fun next _ => statementEnd (ts ++ [last]) next) = .ok next ∧
            next ≤ ts.length ∧
            ts.drop next = Cursor.afterStatement (Cursor.afterBlock opening closing 1 (ts.drop (position + 1))) := by
        intro opening closing hmark
        obtain ⟨middle, hmiddle, hle, hdrop⟩ := exists_passBlock hts hlast closing hlt hat hmark
        have hprogress := lt_of_passBlock hat hmark hmiddle
        rw [bindOf_ok hmiddle, ← hdrop]
        exact ih _ (by omega) hle rfl
      rw [statementEnd, bindOf_ok hat, hts t ht, if_neg Bool.false_ne_true, hdrop, Cursor.afterStatement]
      by_cases hsemicolon : t.isMark ';' = true
      · rw [if_pos hsemicolon, if_pos hsemicolon]
        exact ⟨position + 1, rfl, hlt, rfl⟩
      rw [if_neg hsemicolon, if_neg hsemicolon]
      by_cases hclose : t.isMark '}' = true
      · rw [if_pos hclose, if_pos hclose]
        exact ⟨position, rfl, hposition, hdrop⟩
      rw [if_neg hclose, if_neg hclose]
      by_cases hopen : t.isMark '{' = true
      · rw [if_pos hopen, if_pos hopen]
        obtain ⟨middle, hmiddle, hle, hdrop⟩ := exists_passBlock hts hlast '}' hlt hat hopen
        rw [hmiddle, ← hdrop]
        exact exists_passMark hlast ';' hle
      rw [if_neg hopen, if_neg hopen]
      by_cases hparenthesis : t.isMark '(' = true
      · rw [dif_pos hparenthesis, if_pos hparenthesis]
        exact hblock ')' hparenthesis
      rw [dif_neg hparenthesis, if_neg hparenthesis]
      by_cases hbracket : t.isMark '[' = true
      · rw [dif_pos hbracket, if_pos hbracket]
        exact hblock ']' hbracket
      rw [dif_neg hbracket, if_neg hbracket]
      exact ih _ (by omega) hlt rfl

/-- A capture closes only what it has opened, and never takes one from zero. -/
theorem exists_captureEnd (stops : List Char) (depth stop : Nat) (hposition : position ≤ ts.length) :
    ∃ next, captureEnd (ts ++ [last]) stops depth stop position =
        .ok (((Cursor.splitCapture stops depth (ts.drop position)).1.getLast?.map Token.stop).getD stop, next) ∧
      next ≤ ts.length ∧ ts.drop next = (Cursor.splitCapture stops depth (ts.drop position)).2 := by
  induction hn : ts.length - position using Nat.strongRecOn generalizing depth stop position with
  | ind n ih =>
    rcases tokenAt_cases ts last hposition with ⟨hat, hdrop⟩ | ⟨t, ht, hlt, hat, hdrop⟩
    · refine ⟨position, ?_, hposition, ?_⟩
      · rw [captureEnd, bindOf_ok hat, eq_of_beq hlast, hdrop]
        rfl
      · rw [hdrop]
        rfl
    · -- what is taken behind the token ends the capture, or nothing is and the token does
      have hbehind : ∀ {depth} {taken left : List Token}, Cursor.splitCapture stops depth (ts.drop (position + 1)) = (taken, left) →
          ∃ next, captureEnd (ts ++ [last]) stops depth t.stop (position + 1) =
              .ok (((t :: taken).getLast?.map Token.stop).getD stop, next) ∧
            next ≤ ts.length ∧ ts.drop next = left := by
        intro depth taken left hsplit
        obtain ⟨next, hnext, hle, hdrop⟩ := ih _ (by omega) depth t.stop hlt rfl
        rw [hsplit] at hnext hdrop
        refine ⟨next, ?_, hle, hdrop⟩
        rw [hnext, List.getLast?_cons]
        cases taken.getLast? <;> rfl
      rw [captureEnd, bindOf_ok hat, hdrop, Cursor.splitCapture]
      cases hkind : t.kind with
      | eof =>
        have heof := hts t ht
        rw [Token.isEof, hkind] at heof
        cases heof
      | mark symbol =>
        dsimp only
        by_cases hstop : depth = 0 ∧ (stops.contains symbol = true ∨ Cursor.isCloser symbol = true)
        · rw [if_pos hstop, if_pos hstop]
          exact ⟨position, rfl, hposition, hdrop⟩
        rw [if_neg hstop, if_neg hstop, Cursor.depthAfter]
        by_cases hopener : Cursor.isOpener symbol = true
        · rw [if_pos hopener, if_pos hopener]
          exact hbehind rfl
        rw [if_neg hopener, if_neg hopener]
        by_cases hcloser : Cursor.isCloser symbol = true
        · rw [if_pos hcloser, if_pos hcloser]
          cases depth with
          | zero => exact absurd ⟨rfl, Or.inr hcloser⟩ hstop
          | succ depth => exact hbehind rfl
        rw [if_neg hcloser, if_neg hcloser]
        exact hbehind rfl
      | _ => exact hbehind rfl

end

/-! ## Tapes over a text -/

/-- The walk over the unread tokens that stands for a tape. -/
def walk (t : Tape) : Walk :=
  ⟨⟨t.source, (HeaderAtlas.tokens t.source).drop t.position, Place.start.after t.source⟩,
    t.saved.map fun position => (HeaderAtlas.tokens t.source).drop position⟩

/-- The tape is over the tokens of its text, and its positions are those of tokens. -/
structure Valid (t : Tape) : Prop where
  tokens_eq : t.tokens = tokensWithEnd t.source
  position_lt : t.position < t.tokens.length
  saved_lt : ∀ position ∈ t.saved, position < t.tokens.length

section

variable {t : Tape}

/-- A step of a tape that comes to no fault: it answers as the walk does, and the tape behind it stands for the walk behind it. -/
def Agrees (t : Tape) (r : Except Fault (Answer × Tape)) (q : Answer × Walk) : Prop :=
  ∃ t' : Tape, r = .ok (q.1, t') ∧ t'.Valid ∧ t'.source = t.source ∧ t'.walk = q.2

/-- The end is no token of a text. -/
theorem not_isEof_of_mem_tokens {source : List Char} : ∀ t ∈ HeaderAtlas.tokens source, t.isEof = false :=
  fun _ ht => beq_eq_false_iff_ne.mpr (kind_ne_eof_of_mem_tokens ht)

namespace Valid

/-- A tape over a text begins on a token, or on the end. -/
theorem ofText (s : String) : (Tape.ofText s).Valid := by
  refine ⟨rfl, ?_, List.forall_mem_nil _⟩
  rw [Tape.ofText, tokensWithEnd, List.length_append]
  exact Nat.succ_pos _

/-- The tape has one token more than the text. -/
theorem length_eq (h : t.Valid) : t.tokens.length = (HeaderAtlas.tokens t.source).length + 1 := by
  rw [h.tokens_eq, tokensWithEnd, List.length_append]
  rfl

/-- The position is on the tape. -/
theorem position_le (h : t.Valid) : t.position ≤ (HeaderAtlas.tokens t.source).length := by
  have hlt := h.position_lt
  rw [h.length_eq] at hlt
  exact Nat.le_of_lt_succ hlt

/-- A tape may be moved to any token, or to the end. -/
theorem moveTo (h : t.Valid) {position : Nat} (hposition : position ≤ (HeaderAtlas.tokens t.source).length) :
    (t.moveTo position).Valid := by
  refine ⟨h.tokens_eq, ?_, h.saved_lt⟩
  have hlength : (t.moveTo position).tokens.length = (HeaderAtlas.tokens t.source).length + 1 := h.length_eq
  rw [hlength]
  exact Nat.lt_succ_of_le hposition

/-- On a valid tape there is a token at every position up to the end. -/
theorem tokenAt (h : t.Valid) {position : Nat} (hposition : position ≤ (HeaderAtlas.tokens t.source).length) :
    Tape.tokenAt t.tokens position =
      .ok (((HeaderAtlas.tokens t.source).drop position).headD (endToken (Place.start.after t.source))) := by
  rw [h.tokens_eq, tokensWithEnd]
  rcases tokenAt_cases (HeaderAtlas.tokens t.source) (endToken (Place.start.after t.source)) hposition with
    ⟨hat, hdrop⟩ | ⟨token, -, -, hat, hdrop⟩
  · rw [hat, hdrop]
    rfl
  · rw [hat, hdrop]
    rfl

/-- The token in front is that of the walk. -/
theorem peek (h : t.Valid) : t.peek = .ok t.walk.cursor.peek := h.tokenAt h.position_le

/-- A token further ahead is that of the walk, however far. -/
theorem ahead (h : t.Valid) (n : Nat) : t.ahead n = .ok (t.walk.cursor.ahead n) := by
  have hdrop : (HeaderAtlas.tokens t.source).drop (min (t.position + n) (HeaderAtlas.tokens t.source).length) =
      ((HeaderAtlas.tokens t.source).drop t.position).drop n := by
    rw [List.drop_drop]
    rcases Nat.le_total (t.position + n) (HeaderAtlas.tokens t.source).length with hle | hle
    · rw [Nat.min_eq_left hle]
    · rw [Nat.min_eq_right hle, List.drop_length, List.drop_of_length_le hle]
  have hlower : lower t.tokens.length = .ok (HeaderAtlas.tokens t.source).length := by rw [h.length_eq, lower]
  have hat := h.tokenAt (Nat.min_le_right (t.position + n) _)
  rw [hdrop] at hat
  rw [Tape.ahead, hlower]
  exact hat

/-- The token in front is the end of the text exactly at the end. -/
theorem isEof_peek (t : Tape) : t.walk.cursor.peek.isEof = t.walk.cursor.atEnd := by
  cases hdrop : (HeaderAtlas.tokens t.source).drop t.position with
  | nil =>
    rw [Cursor.peek, Cursor.atEnd, walk, hdrop]
    rfl
  | cons token ts =>
    have hmem : token ∈ HeaderAtlas.tokens t.source := List.mem_of_mem_drop (hdrop ▸ List.mem_cons_self)
    rw [Cursor.peek, Cursor.atEnd, walk, hdrop]
    exact not_isEof_of_mem_tokens token hmem

/-- One step on is no fault, also at the end. -/
theorem exists_advance (h : t.Valid) :
    ∃ t' : Tape, t.advance = .ok t' ∧ t'.Valid ∧ t'.source = t.source ∧ t'.walk = t.walk.moved t.walk.cursor.advance := by
  rw [Tape.advance, h.peek]
  rcases tokenAt_cases (HeaderAtlas.tokens t.source) (endToken (Place.start.after t.source)) h.position_le with
    ⟨-, hdrop⟩ | ⟨token, hmem, hlt, -, hdrop⟩
  · have hend : t.walk.cursor.atEnd = true := by
      rw [Cursor.atEnd, walk, hdrop]
      rfl
    refine ⟨t, congrArg Except.ok (if_pos ((isEof_peek t).trans hend)), h, rfl, ?_⟩
    rw [Cursor.advance, walk, hdrop]
    rfl
  · have hend : t.walk.cursor.atEnd = false := by
      rw [Cursor.atEnd, walk, hdrop]
      rfl
    refine ⟨t.moveTo (t.position + 1), congrArg Except.ok (if_neg ?_), h.moveTo hlt, rfl, ?_⟩
    · rw [isEof_peek, hend]
      exact Bool.false_ne_true
    · rw [Cursor.advance, walk, walk, hdrop]
      rfl

/-- The token in front covers characters of the text, or none at its end. -/
theorem span_peek (t : Tape) :
    t.walk.cursor.peek.start ≤ t.walk.cursor.peek.stop ∧ t.walk.cursor.peek.stop ≤ t.source.length := by
  cases hdrop : (HeaderAtlas.tokens t.source).drop t.position with
  | nil =>
    rw [Cursor.peek, walk, hdrop]
    simp [endToken, Token.at, Place.start]
  | cons token ts =>
    have hspans := (lined_tokens t.source).spans token (List.mem_of_mem_drop (hdrop ▸ List.mem_cons_self))
    rw [Cursor.peek, walk, hdrop]
    exact ⟨Nat.le_of_lt hspans.start_lt_stop, hspans.stop_le_length⟩

/-- A slice inside of the text is no fault. -/
theorem slice_ok {start stop : Nat} (hle : start ≤ stop) (hlength : stop ≤ t.source.length) :
    t.slice start stop = .ok (t.walk.cursor.slice start stop) := if_pos ⟨hle, hlength⟩

/-- What a capture takes begins where the token in front does and ends in the text, not before that. -/
theorem span_capture (t : Tape) (stops : List Char) :
    let stop := ((Cursor.splitCapture stops 0 t.walk.cursor.unread).1.getLast?.map Token.stop).getD t.walk.cursor.peek.start
    t.walk.cursor.peek.start ≤ stop ∧ stop ≤ t.source.length := by
  intro stop
  have htaken := Cursor.append_splitCapture stops 0 t.walk.cursor.unread
  have hlined : t.walk.cursor.Lined := (lined_tokens t.source).of_suffix (List.drop_suffix t.position _)
  cases hlast : (Cursor.splitCapture stops 0 t.walk.cursor.unread).1.getLast? with
  | none =>
    have hstop : stop = t.walk.cursor.peek.start := by simp only [stop, hlast, Option.map_none, Option.getD_none]
    rw [hstop]
    exact ⟨Nat.le_refl _, Nat.le_trans (span_peek t).1 (span_peek t).2⟩
  | some last =>
    have hstop : stop = last.stop := by simp only [stop, hlast, Option.map_some, Option.getD_some]
    have hmem : last ∈ t.walk.cursor.unread := htaken ▸ List.mem_append_left _ (List.mem_of_getLast? hlast)
    have hspans := hlined.spans last hmem
    rw [hstop]
    refine ⟨?_, hspans.stop_le_length⟩
    obtain ⟨first, rest, hunread⟩ := List.exists_cons_of_ne_nil (List.ne_nil_of_mem hmem)
    have hpeek : t.walk.cursor.peek = first := by rw [Cursor.peek, hunread, List.headD_cons]
    rw [Cursor.Lined, hunread] at hlined
    rw [hunread] at hmem
    rw [hpeek]
    have hfirst := (hlined.spans first List.mem_cons_self).start_lt_stop
    rcases List.mem_cons.mp hmem with rfl | hrest
    · exact Nat.le_of_lt hfirst
    · have hbehind := List.rel_of_pairwise_cons hlined.sorted hrest
      have hlt := hspans.start_lt_stop
      omega

/-- A block is passed over as by the walk. -/
theorem exists_skipBlock (h : t.Valid) (opening closing : Char) :
    ∃ next ≤ (HeaderAtlas.tokens t.source).length, passBlock t.tokens opening closing t.position = .ok next ∧
      t.walk.cursor.skipBlock opening closing =
        { t.walk.cursor with unread := (HeaderAtlas.tokens t.source).drop next } := by
  have hend : (endToken (Place.start.after t.source)).isEof = true := rfl
  cases hsees : t.walk.cursor.sees opening with
  | false =>
    refine ⟨t.position, h.position_le, ?_, ?_⟩
    · rw [passBlock, ← Tape.peek, h.peek, ok_bind]
      exact if_neg (Bool.eq_false_iff.mp hsees)
    · rw [Cursor.skipBlock, hsees]
      rfl
  | true =>
    rcases tokenAt_cases (HeaderAtlas.tokens t.source) (endToken (Place.start.after t.source)) h.position_le with
      ⟨-, hdrop⟩ | ⟨token, -, hlt, hat, hdrop⟩
    · have hunread := Cursor.not_atEnd_of_sees hsees
      rw [Cursor.atEnd, walk, hdrop] at hunread
      cases hunread
    · have hmark : token.isMark opening = true := by
        rw [Cursor.sees, Cursor.peek, walk, hdrop] at hsees
        exact hsees
      obtain ⟨next, hnext, hle, hbehind⟩ := exists_passBlock not_isEof_of_mem_tokens hend closing hlt hat hmark
      refine ⟨next, hle, by rw [h.tokens_eq]; exact hnext, ?_⟩
      rw [Cursor.skipBlock, if_pos hsees, hbehind, walk, hdrop]
      simp only [Cursor.afterBlock, hmark, if_true]

/-- A capture is no fault: its slice goes from the start of one token to the end of a later one. -/
theorem exists_capture (h : t.Valid) (stops : List Char) :
    ∃ t' : Tape, t.capture stops = .ok ((t.walk.cursor.capture stops).1, t') ∧ t'.Valid ∧ t'.source = t.source ∧
      t'.walk = t.walk.moved (t.walk.cursor.capture stops).2 := by
  have hend : (endToken (Place.start.after t.source)).isEof = true := rfl
  obtain ⟨next, hnext, hle, hdrop⟩ :=
    exists_captureEnd not_isEof_of_mem_tokens hend stops 0 t.walk.cursor.peek.start h.position_le
  refine ⟨t.moveTo next, ?_, h.moveTo hle, rfl, ?_⟩
  · obtain ⟨hstart, hstop⟩ := span_capture t stops
    have htaken : captureEnd t.tokens stops 0 t.walk.cursor.peek.start t.position = .ok
        (((Cursor.splitCapture stops 0 t.walk.cursor.unread).1.getLast?.map Token.stop).getD t.walk.cursor.peek.start, next) := by
      rw [h.tokens_eq]
      exact hnext
    rw [Tape.capture, h.peek, ok_bind, htaken, ok_bind, slice_ok hstart hstop]
    rfl
  · rw [Tape.moveTo, walk, hdrop]
    rfl

/-! ## Walks -/

/-- A step that only answers agrees. -/
theorem agrees (h : t.Valid) (a : Answer) : t.Agrees (.ok (a, t)) (a, t.walk) := ⟨t, rfl, h, rfl, rfl⟩

/-- A step that moves to where the walk goes agrees. -/
theorem agrees_moveTo (h : t.Valid) (a : Answer) {position : Nat} {c : Cursor}
    (hposition : position ≤ (HeaderAtlas.tokens t.source).length)
    (hc : c = { t.walk.cursor with unread := (HeaderAtlas.tokens t.source).drop position }) :
    t.Agrees (.ok (a, t.moveTo position)) (a, t.walk.moved c) :=
  ⟨t.moveTo position, rfl, h.moveTo hposition, rfl, by rw [hc]; rfl⟩

/-- A step that may move on by a token agrees. -/
theorem agrees_advance (h : t.Valid) (a : Answer) (moves : Bool) :
    t.Agrees (do return (a, ← if moves then t.advance else pure t))
      (a, t.walk.moved (if moves then t.walk.cursor.advance else t.walk.cursor)) := by
  cases moves with
  | false => exact h.agrees a
  | true =>
    obtain ⟨t', ht', hvalid, hsource, hwalk⟩ := h.exists_advance
    rw [if_pos rfl, if_pos rfl, ht']
    exact ⟨t', rfl, hvalid, hsource, hwalk⟩

/-- No step comes to a fault. -/
theorem step (h : t.Valid) (s : Step) : t.Agrees (t.step s) (t.walk.step s) := by
  have hend : (endToken (Place.start.after t.source)).isEof = true := rfl
  cases s with
  | peek =>
    rw [Tape.step, h.peek]
    exact h.agrees _
  | ahead n =>
    rw [Tape.step, h.ahead]
    exact h.agrees _
  | advance =>
    rw [Tape.step, h.peek]
    exact h.agrees_advance _ true
  | atEnd =>
    rw [Tape.step, h.peek, Walk.step, ← isEof_peek]
    exact h.agrees _
  | sees symbol =>
    rw [Tape.step, h.peek]
    exact h.agrees _
  | seesWord name =>
    rw [Tape.step, h.peek]
    exact h.agrees _
  | pass symbol =>
    rw [Tape.step, h.peek]
    exact h.agrees_advance _ (t.walk.cursor.sees symbol)
  | passWord name =>
    rw [Tape.step, h.peek]
    exact h.agrees_advance _ (t.walk.cursor.seesWord name)
  | atScope =>
    rw [Tape.step, h.peek, ok_bind, h.ahead, Walk.step, Cursor.atScope, Cursor.sees]
    cases t.walk.cursor.peek.isMark ':' with
    | false => exact h.agrees _
    | true => exact h.agrees _
  | takeWord =>
    rw [Tape.step, h.peek, ok_bind, Walk.step, Cursor.takeWord]
    cases t.walk.cursor.peek.word? with
    | none => exact h.agrees _
    | some name => exact h.agrees_advance _ true
  | takeText =>
    obtain ⟨t', ht', hvalid, hsource, hwalk⟩ := h.exists_advance
    rw [Tape.step, h.peek, ok_bind, ht', ok_bind, slice_ok (span_peek t).1 (span_peek t).2]
    exact ⟨t', rfl, hvalid, hsource, hwalk⟩
  | location =>
    rw [Tape.step, h.peek]
    exact h.agrees _
  | save =>
    refine ⟨{ t with saved := t.saved ++ [t.position] }, ?_, ⟨h.tokens_eq, h.position_lt, ?_⟩, rfl, ?_⟩
    · rw [Tape.step, Walk.step, walk, List.length_map]
      rfl
    · exact List.forall_mem_append.mpr ⟨h.saved_lt, List.forall_mem_singleton.mpr h.position_lt⟩
    · rw [walk, List.map_append]
      rfl
  | restore n =>
    have hsaved : t.walk.checkpoints[n]? = t.saved[n]?.map fun position => (HeaderAtlas.tokens t.source).drop position :=
      List.getElem?_map
    rw [Tape.step, Walk.step, hsaved]
    cases hn : t.saved[n]? with
    | none => exact h.agrees _
    | some position =>
      have hlt := h.saved_lt position (List.mem_of_getElem? hn)
      rw [h.length_eq] at hlt
      exact h.agrees_moveTo _ (Nat.le_of_lt_succ hlt) rfl
  | skipBlock opening closing =>
    obtain ⟨next, hle, hnext, hskip⟩ := h.exists_skipBlock opening closing
    rw [Tape.step, hnext]
    exact h.agrees_moveTo _ hle hskip
  | skipStatement =>
    obtain ⟨next, hnext, hle, hdrop⟩ := exists_statementEnd not_isEof_of_mem_tokens hend h.position_le
    rw [← tokensWithEnd, ← h.tokens_eq] at hnext
    rw [Tape.step, hnext]
    exact h.agrees_moveTo _ hle (by rw [hdrop]; rfl)
  | capture stops =>
    obtain ⟨t', ht', hvalid, hsource, hwalk⟩ := h.exists_capture stops
    rw [Tape.step, ht']
    exact ⟨t', rfl, hvalid, hsource, hwalk⟩

/-- No walk comes to a fault. -/
theorem run (steps : List Step) : ∀ {t : Tape}, t.Valid →
    ∃ t' : Tape, t.run steps = .ok ((t.walk.run steps).1, t') ∧ t'.Valid ∧ t'.source = t.source ∧
      t'.walk = (t.walk.run steps).2 := by
  induction steps with
  | nil => exact fun h => ⟨_, rfl, h, rfl, rfl⟩
  | cons s steps ih =>
    intro t h
    obtain ⟨t₁, hstep, hvalid, hsource, hwalk⟩ := h.step s
    obtain ⟨t₂, hrun, hvalid₂, hsource₂, hwalk₂⟩ := ih hvalid
    refine ⟨t₂, ?_, hvalid₂, hsource₂.trans hsource, ?_⟩
    · rw [Tape.run, hstep, ok_bind, hvalid.peek, ok_bind, hrun, hwalk]
      rfl
    · rw [hwalk₂, hwalk]
      rfl

end Valid

end

/-- Whatever the steps of a walk over a text are, every position at which it asks for a token has one, every slice it takes lies in the
text and does not end before it begins, and no count falls below zero: the walk by position comes to no fault. It answers as the walk
over the unread tokens does, ends where that one does, and stands on a token there. -/
theorem run_ofText (s : String) (steps : List Step) :
    ∃ t : Tape, (ofText s).run steps = .ok (((Walk.ofText s).run steps).1, t) ∧
      t.source = s.toList ∧ t.tokens = tokensWithEnd s.toList ∧ t.position < t.tokens.length ∧
      t.walk = ((Walk.ofText s).run steps).2 := by
  obtain ⟨t, hrun, hvalid, hsource, hwalk⟩ := (Valid.ofText s).run steps
  exact ⟨t, hrun, hsource, by rw [hvalid.tokens_eq, hsource]; rfl, hvalid.position_lt, hwalk⟩

-- a tape that is over no text comes to a fault
example : (⟨[], [], 0, []⟩ : Tape).run [.peek] = .error .token := rfl

end Tape

end HeaderAtlas
