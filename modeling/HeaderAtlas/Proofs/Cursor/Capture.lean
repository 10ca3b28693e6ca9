import HeaderAtlas.Proofs.Cursor.Nesting
import HeaderAtlas.Proofs.Token.Exact
import HeaderAtlas.Proofs.Token.Run

/-!
# What a capture takes

A capture counts brackets of all kinds alike, and ends at the first token that is a stop or closes a bracket while as many brackets
have been closed as opened (`captureEnds_splitCapture`). What it has passed over is copied as it is written, from the first token to
the last, and the copy is read, alone, as these tokens again (`capture_exact`).
-/

namespace HeaderAtlas

/-- The token opens a bracket, of whatever kind. -/
def Token.opens (t : Token) : Bool := ['(', '[', '{'].any t.isMark

/-- The token closes a bracket, of whatever kind. -/
def Token.closes (t : Token) : Bool := [')', ']', '}'].any t.isMark

/-- The token is one of the stops or closes a bracket. -/
def Token.stops (stops : List Char) (t : Token) : Bool := stops.any t.isMark || t.closes

section

variable {t : Token} {symbol : Char}

/-- Whether a mark opens a block is seen from its character. -/
theorem opens_of_kind (h : t.kind = .mark symbol) : t.opens = Cursor.isOpener symbol := by
  simp [Token.opens, isMark_of_kind h, Cursor.isOpener, Bool.or_assoc]

/-- Whether a mark closes a block is seen from its character. -/
theorem closes_of_kind (h : t.kind = .mark symbol) : t.closes = Cursor.isCloser symbol := by
  simp [Token.closes, isMark_of_kind h, Cursor.isCloser, Bool.or_assoc]

/-- A capture is stopped by its own marks, and by those that close a block. -/
theorem stops_of_kind (stops : List Char) (h : t.kind = .mark symbol) :
    t.stops stops = true ↔ stops.contains symbol = true ∨ Cursor.isCloser symbol = true := by
  simp [Token.stops, isMark_of_kind h, closes_of_kind h]

/-- A token that is no mark neither stops a capture nor counts. -/
theorem stops_of_not_mark (stops : List Char) (h : ∀ symbol, t.kind ≠ .mark symbol) :
    t.opens = false ∧ t.closes = false ∧ t.stops stops = false := by
  have hmark : ∀ symbol, t.isMark symbol = false := fun symbol => beq_eq_false_iff_ne.mpr (h symbol)
  simp [Token.opens, Token.closes, Token.stops, hmark]

/-- The end is no token of a text. -/
theorem kind_ne_eof_of_mem_tokens {source : List Char} (h : t ∈ tokens source) : t.kind ≠ .eof := by
  rcases (read_of_mem_tokens h).2 with hspelled | ⟨words, name, hword, -⟩
  · exact hspelled.ne_eof
  · simp [hword]

end

namespace Cursor

/-- At this depth, the tokens close as many brackets as are open before or opened by them. -/
def Level (depth : Nat) (ts : List Token) : Prop := depth + ts.countP Token.opens = ts.countP Token.closes

/-- The depth behind a mark stands for the mark, if it closes only what is open. -/
theorem level_cons {depth : Nat} {t : Token} {symbol : Char} (ts : List Token) (ht : t.kind = .mark symbol)
    (hopen : isCloser symbol = true → depth ≠ 0) : Level depth (t :: ts) ↔ Level (depthAfter depth symbol) ts := by
  rw [Level, Level, List.countP_cons, List.countP_cons, opens_of_kind ht, closes_of_kind ht, depthAfter]
  cases hopener : isOpener symbol with
  | true =>
    rw [not_isCloser_of_isOpener hopener]
    simp only [if_true, if_neg Bool.false_ne_true]
    omega
  | false =>
    cases hcloser : isCloser symbol with
    | true =>
      have hpos := hopen hcloser
      simp only [if_true, if_neg Bool.false_ne_true]
      omega
    | false => simp only [if_neg Bool.false_ne_true, Nat.add_zero]

/-- What is no mark leaves the depth. -/
theorem level_cons_of_not_mark {t : Token} (depth : Nat) (ts : List Token) (ht : ∀ symbol, t.kind ≠ .mark symbol) :
    Level depth (t :: ts) ↔ Level depth ts := by
  obtain ⟨hopens, hcloses, -⟩ := stops_of_not_mark [] ht
  rw [Level, Level, List.countP_cons_of_neg (by simp [hopens]), List.countP_cons_of_neg (by simp [hcloses])]

/-- A capture at this depth that takes `taken` and leaves `left` ends where it ought to: at no token that it takes, and at the token
behind them if there is one. -/
structure CaptureEnds (stops : List Char) (depth : Nat) (taken left : List Token) : Prop where
  inside : ∀ front u back, taken = front ++ u :: back → ¬(u.stops stops = true ∧ Level depth front)
  behind : ∀ u rest, left = u :: rest → u.stops stops = true ∧ Level depth taken

/-- One more token is captured if it does not stop the capture. -/
theorem CaptureEnds.cons {stops : List Char} {depth depth' : Nat} {t : Token} {taken left : List Token}
    (h : CaptureEnds stops depth' taken left) (hlevel : ∀ ts, Level depth (t :: ts) ↔ Level depth' ts)
    (ht : depth = 0 → t.stops stops = false) : CaptureEnds stops depth (t :: taken) left := by
  refine ⟨fun front u back hsplit => ?_, fun u rest hsplit => ?_⟩
  · cases front with
    | nil =>
      obtain ⟨rfl, -⟩ := List.cons.inj hsplit
      rintro ⟨hstop, hdepth⟩
      rw [ht hdepth] at hstop
      cases hstop
    | cons v front =>
      obtain ⟨rfl, htail⟩ := List.cons.inj hsplit
      rw [hlevel]
      exact h.inside front u back htail
  · rw [hlevel]
    exact h.behind u rest hsplit

/-- A capture ends where it should, at whatever depth it began. -/
theorem captureEnds_splitCapture (stops : List Char) (depth : Nat) (ts : List Token) :
    CaptureEnds stops depth (splitCapture stops depth ts).1 (splitCapture stops depth ts).2 := by
  fun_induction splitCapture stops depth ts with
  | case1 => exact ⟨by simp, by simp⟩
  | case2 depth t ts symbol hkind hstop =>
    refine ⟨by simp, fun u rest hsplit => ?_⟩
    obtain ⟨rfl, rfl⟩ := List.cons.inj hsplit
    exact ⟨(stops_of_kind stops hkind).mpr hstop.2, by rw [hstop.1]; rfl⟩
  | case3 depth t ts symbol hkind hstop _ ih =>
    refine ih.cons (fun ts => level_cons ts hkind fun hcloser hdepth => hstop ⟨hdepth, Or.inr hcloser⟩) fun hdepth => ?_
    exact Bool.eq_false_iff.mpr fun h => hstop ⟨hdepth, (stops_of_kind stops hkind).mp h⟩
  | case4 depth t ts _ hmark ih =>
    exact ih.cons (fun ts => level_cons_of_not_mark depth ts hmark) fun _ => (stops_of_not_mark stops hmark).2.2

/-- What some of the unread tokens cover is read, alone, as these tokens. -/
theorem map_kind_textOf {c : Cursor} {front run back : List Token} (h : tokens c.source = front ++ (run ++ back)) :
    (tokensWithEnd (c.textOf run).toList).map Token.kind = run.map Token.kind ++ [.eof] := by
  have hspan : c.textOf run = String.ofList (runSpan c.source run) := rfl
  rw [hspan, String.toList_ofList, map_kind_tokensWithEnd, map_kind_runSpan h]

/-- Wherever a capture begins in a text, it takes tokens up to the first one that is the end of the text, or that is a stop or closes a
bracket with as many brackets opened as closed before it. It gives no text if it takes no token. If it ends before the text does, it
gives the text from its first token to its last one, which is read, alone, as the tokens that it has taken. -/
theorem capture_exact (s : String) (position : Nat) (stops : List Char) :
    let c : Cursor := { ofText s with unread := (tokens s.toList).drop position }
    ∃ taken left, c.unread = taken ++ left ∧ (c.capture stops).2 = { c with unread := left } ∧
      (∀ front t back, taken = front ++ t :: back →
        t.kind ≠ .eof ∧ ¬(t.stops stops = true ∧ front.countP Token.opens = front.countP Token.closes)) ∧
      ((c.capture stops).2.peek.kind = .eof ∨
        (c.capture stops).2.peek.stops stops = true ∧ taken.countP Token.opens = taken.countP Token.closes) ∧
      ((c.capture stops).1 = none ↔ taken = []) ∧
      ((c.capture stops).2.peek.kind ≠ .eof → taken ≠ [] →
        (c.capture stops).1 = some (c.textOf taken) ∧
          (tokensWithEnd (c.textOf taken).toList).map Token.kind = taken.map Token.kind ++ [.eof]) := by
  intro c
  have hsource : tokens c.source = (tokens s.toList).take position ++ c.unread := (List.take_append_drop position _).symm
  have hlined : c.Lined := (lined_ofText s).onward ⟨rfl, rfl, List.drop_suffix position _⟩
  have hsplit := append_splitCapture stops 0 c.unread
  have hends := captureEnds_splitCapture stops 0 c.unread
  have hleft : (c.capture stops).2 = { c with unread := (splitCapture stops 0 c.unread).2 } := by rw [capture_eq]
  have hlevel : ∀ ts, Level 0 ts ↔ ts.countP Token.opens = ts.countP Token.closes := fun ts => by rw [Level, Nat.zero_add]
  refine ⟨(splitCapture stops 0 c.unread).1, (splitCapture stops 0 c.unread).2, hsplit.symm, hleft,
    fun front t back hfront => ⟨?_, ?_⟩, ?_, capture_eq_none_iff hlined stops, fun hpeek hne => ?_⟩
  · have hmem : t ∈ tokens c.source := by
      rw [hsource, ← hsplit, hfront]
      simp
    exact kind_ne_eof_of_mem_tokens hmem
  · rw [← hlevel]
    exact hends.inside front t back hfront
  · rw [hleft]
    cases hrest : (splitCapture stops 0 c.unread).2 with
    | nil => exact Or.inl rfl
    | cons t rest =>
      rw [← hlevel]
      exact Or.inr (hends.behind t rest hrest)
  · rw [hleft] at hpeek
    cases hrest : (splitCapture stops 0 c.unread).2 with
    | nil =>
      rw [hrest] at hpeek
      exact absurd rfl hpeek
    | cons t rest =>
      rw [capture_of_splitCapture hlined (Prod.ext rfl hrest) hne]
      rw [← hsplit] at hsource
      exact ⟨rfl, map_kind_textOf hsource⟩

/-- Brackets of two kinds that close each other, with a comma inside, and words that are folded over a comment with a comma in it. -/
theorem capture_exact_over_brackets :
    let c : Cursor := { ofText "x=f(1, [2)]+unsigned /*,*/ int , y" with
      unread := (tokens "x=f(1, [2)]+unsigned /*,*/ int , y".toList).drop 2 }
    ∃ taken left, c.unread = taken ++ left ∧ left.map Token.kind = [.mark ',', .word "y"] ∧
      c.textOf taken = "f(1, [2)]+unsigned /*,*/ int" ∧ (c.capture [',']).1 = some (c.textOf taken) ∧
      (tokensWithEnd (c.textOf taken).toList).map Token.kind = taken.map Token.kind ++ [.eof] := by
  have hread :
      let c : Cursor := { ofText "x=f(1, [2)]+unsigned /*,*/ int , y" with
        unread := (tokens "x=f(1, [2)]+unsigned /*,*/ int , y".toList).drop 2 }
      (c.capture [',']).1 = some "f(1, [2)]+unsigned /*,*/ int" ∧
        (c.capture [',']).2.unread.map Token.kind = [.mark ',', .word "y"] ∧ (c.capture [',']).2.peek.kind ≠ .eof := by
    decide +kernel
  intro c
  obtain ⟨htext, hrest, hpeek⟩ := hread
  obtain ⟨taken, left, hunread, hleft, -, -, hnone, hcopy⟩ := capture_exact "x=f(1, [2)]+unsigned /*,*/ int , y" 2 [',']
  have hne : taken ≠ [] := fun hnil => by
    rw [hnone.mpr hnil] at htext
    cases htext
  obtain ⟨hcapture, hkinds⟩ := hcopy hpeek hne
  rw [hleft] at hrest
  exact ⟨taken, left, hunread, hrest, Option.some.inj (hcapture.symm.trans htext), hcapture, hkinds⟩

end Cursor

end HeaderAtlas
