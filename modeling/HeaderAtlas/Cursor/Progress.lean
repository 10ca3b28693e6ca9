import HeaderAtlas.Cursor.Basic

/-!
# Progress of a cursor

No operation gives back a token it has read, and whoever reads a token has fewer left. The readers of declarations end because of
these facts.
-/

namespace HeaderAtlas

/-- What is left of a statement is no longer than the statement with all behind it. -/
theorem length_afterMark_le (symbol : Char) (ts : List Token) : (Cursor.afterMark symbol ts).length ≤ ts.length := by
  cases ts with
  | nil => exact Nat.le_refl _
  | cons t ts =>
    rw [Cursor.afterMark]
    split
    · exact Nat.le_succ _
    · exact Nat.le_refl _

/-- Passing over a statement gives back no token. -/
theorem length_afterStatement_le (ts : List Token) : (Cursor.afterStatement ts).length ≤ ts.length := by
  fun_induction Cursor.afterStatement ts with
  | case1 => exact Nat.le_refl _
  | case2 t ts => exact Nat.le_succ _
  | case3 t ts => exact Nat.le_refl _
  | case4 t ts =>
    have h₁ := length_afterMark_le ';' (Cursor.afterBlock '{' '}' 1 ts)
    have h₂ := Cursor.length_afterBlock_le '{' '}' 1 ts
    exact Nat.le_succ_of_le (Nat.le_trans h₁ h₂)
  | case5 t ts _ _ _ _ ih => exact Nat.le_succ_of_le (Nat.le_trans ih (Cursor.length_afterBlock_le ..))
  | case6 t ts _ _ _ _ _ ih => exact Nat.le_succ_of_le (Nat.le_trans ih (Cursor.length_afterBlock_le ..))
  | case7 t ts _ _ _ _ _ ih => exact Nat.le_succ_of_le ih

/-- A capture leaves no more tokens than there were. -/
theorem length_splitCapture_le (stops : List Char) (depth : Nat) (ts : List Token) :
    (Cursor.splitCapture stops depth ts).2.length ≤ ts.length := by
  fun_induction Cursor.splitCapture stops depth ts with
  | case1 => exact Nat.le_refl _
  | case2 => exact Nat.le_refl _
  | case3 _ t ts _ _ _ _ ih => exact Nat.le_succ_of_le ih
  | case4 _ t ts _ _ ih => exact Nat.le_succ_of_le ih

namespace Cursor

/-- A cursor in front of a mark is not at the end. -/
theorem not_atEnd_of_sees {c : Cursor} {symbol : Char} (h : c.sees symbol = true) : c.atEnd = false := by
  obtain ⟨source, unread, finish⟩ := c
  cases unread with
  | nil => simp [sees, peek, endToken, Token.at, Token.isMark] at h
  | cons t ts => rfl

/-- A cursor in front of a word is not at the end. -/
theorem not_atEnd_of_word {c : Cursor} {name : String} (h : c.peek.word? = some name) : c.atEnd = false := by
  obtain ⟨source, unread, finish⟩ := c
  cases unread with
  | nil => simp [peek, endToken, Token.at, Token.word?, Token.Kind.word?] at h
  | cons t ts => rfl

theorem remaining_advance_le (c : Cursor) : c.advance.remaining ≤ c.remaining := by
  simp [advance, remaining]

/-- Off the end, going on leaves fewer tokens. -/
theorem remaining_advance_lt {c : Cursor} (h : c.atEnd = false) : c.advance.remaining < c.remaining := by
  obtain ⟨source, unread, finish⟩ := c
  cases unread with
  | nil => simp [atEnd] at h
  | cons t ts => exact Nat.lt_succ_self _

theorem remaining_pass_le (c : Cursor) (symbol : Char) : (c.pass symbol).remaining ≤ c.remaining := by
  rw [pass]
  split
  · exact c.remaining_advance_le
  · exact Nat.le_refl _

theorem remaining_passWord_le (c : Cursor) (name : String) : (c.passWord name).remaining ≤ c.remaining := by
  rw [passWord]
  split
  · exact c.remaining_advance_le
  · exact Nat.le_refl _

theorem remaining_takeWord_le (c : Cursor) : c.takeWord.2.remaining ≤ c.remaining := by
  rw [takeWord]
  split
  · exact c.remaining_advance_le
  · exact Nat.le_refl _

/-- Whoever has taken a word has fewer tokens left. -/
theorem remaining_takeWord_lt {c : Cursor} {name : String} (h : c.takeWord.1 = some name) :
    c.takeWord.2.remaining < c.remaining := by
  rw [takeWord] at h ⊢
  split at h
  · rename_i hw
    exact remaining_advance_lt (not_atEnd_of_word hw)
  · cases h

theorem remaining_skipBlock_le (c : Cursor) (opening closing : Char) :
    (c.skipBlock opening closing).remaining ≤ c.remaining := by
  rw [skipBlock]
  split
  · exact length_afterBlock_le ..
  · exact Nat.le_refl _

/-- Whoever has passed over a block has fewer tokens left. -/
theorem remaining_skipBlock_lt {c : Cursor} {opening closing : Char} (h : c.sees opening = true) :
    (c.skipBlock opening closing).remaining < c.remaining := by
  obtain ⟨source, unread, finish⟩ := c
  cases unread with
  | nil => simp [sees, peek, endToken, Token.at, Token.isMark] at h
  | cons t ts =>
    have ht : t.isMark opening = true := h
    rw [skipBlock, if_pos h]
    simp only [remaining, afterBlock, ht, if_true]
    exact Nat.lt_succ_of_le (length_afterBlock_le ..)

theorem remaining_capture_le (c : Cursor) (stops : List Char) : (c.capture stops).2.remaining ≤ c.remaining :=
  length_splitCapture_le stops 0 c.unread

end Cursor

end HeaderAtlas
