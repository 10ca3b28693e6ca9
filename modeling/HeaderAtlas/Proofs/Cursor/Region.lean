import HeaderAtlas.Proofs.Cursor.Statement

/-!
# The region of a block

Passing over a block counts two marks and nothing else. It stops behind the first token at which as many marks of either kind have
been read, and runs to the end of the text if there is none (`region_afterBlock`). Where parentheses, brackets and braces are properly
nested this is the mark that closes the block, although marks of the other kinds are not counted (`skipBlock_exact`).
-/

namespace HeaderAtlas

namespace Cursor

/-- With `depth` marks open before them, the tokens have as many opening as closing marks. -/
def Evened (opening closing : Char) (depth : Nat) (ts : List Token) : Prop :=
  depth + ts.countP (·.isMark opening) = ts.countP (·.isMark closing)

/-- `left` stands behind the first token at which the marks are even, where `depth` marks are open before the tokens; nothing is left if
they never are. -/
inductive Region (opening closing : Char) (depth : Nat) : List Token → List Token → Prop where
  | closed (region left : List Token) (heven : Evened opening closing depth region)
      (hfirst : ∀ front, front <+: region → front ≠ [] → front ≠ region → ¬Evened opening closing depth front) (hne : region ≠ []) :
      Region opening closing depth (region ++ left) left
  | unclosed {ts : List Token} (h : ∀ front, front <+: ts → front ≠ [] → ¬Evened opening closing depth front) :
      Region opening closing depth ts []

section

variable {opening closing : Char} {depth depth' : Nat} {t : Token} {ts left : List Token}

/-- A token in front may be counted among the marks that are open. -/
theorem Region.cons (h : Region opening closing depth' ts left) (hdepth : depth' ≠ 0)
    (hcount : ∀ ts, Evened opening closing depth (t :: ts) ↔ Evened opening closing depth' ts) :
    Region opening closing depth (t :: ts) left := by
  -- of the fronts behind the token only the empty one is new, and with marks open it is not even
  have hnil : ¬Evened opening closing depth' [] := fun h => hdepth (by simpa [Evened] using h)
  have hfront : ∀ {run front : List Token}, (∀ front, front <+: run → front ≠ [] → front ≠ run → ¬Evened opening closing depth' front) →
      front <+: t :: run → front ≠ [] → front ≠ t :: run → ¬Evened opening closing depth front := by
    intro run front hrun hprefix hne hproper
    obtain rfl | ⟨front, rfl, htail⟩ := List.prefix_cons_iff.mp hprefix
    · exact absurd rfl hne
    · rw [hcount]
      by_cases hfront : front = []
      · rwa [hfront]
      · exact hrun front htail hfront fun heq => hproper (by rw [heq])
  cases h with
  | closed region left heven hfirst hne =>
    exact .closed (t :: region) left ((hcount region).mpr heven) (fun front => hfront hfirst) (List.cons_ne_nil t region)
  | unclosed h =>
    refine .unclosed fun front hprefix hne => ?_
    by_cases hwhole : front = t :: ts
    · rw [hwhole, hcount]
      by_cases hts : ts = []
      · rwa [hts]
      · exact h ts (List.prefix_refl ts) hts
    · exact hfront (fun front hprefix hne _ => h front hprefix hne) hprefix hne hwhole

theorem even_cons_opening (hne : opening ≠ closing) (ht : t.isMark opening = true) (depth : Nat) (ts : List Token) :
    Evened opening closing depth (t :: ts) ↔ Evened opening closing (depth + 1) ts := by
  have hclosing : t.isMark closing = false := by
    rw [isMark_of_kind (kind_of_isMark ht)]
    exact beq_eq_false_iff_ne.mpr hne
  rw [Evened, Evened, List.countP_cons_of_pos (by simpa using ht), List.countP_cons_of_neg (by simp [hclosing])]
  omega

theorem even_cons_closing (hopening : t.isMark opening = false) (ht : t.isMark closing = true) (depth : Nat) (ts : List Token) :
    Evened opening closing (depth + 1) (t :: ts) ↔ Evened opening closing depth ts := by
  rw [Evened, Evened, List.countP_cons_of_neg (by simp [hopening]), List.countP_cons_of_pos (by simpa using ht)]
  omega

theorem even_cons_other (hopening : t.isMark opening = false) (hclosing : t.isMark closing = false) (depth : Nat) (ts : List Token) :
    Evened opening closing depth (t :: ts) ↔ Evened opening closing depth ts := by
  rw [Evened, Evened, List.countP_cons_of_neg (by simp [hopening]), List.countP_cons_of_neg (by simp [hclosing])]

/-- With marks open, a block ends where the marks are even for the first time. -/
theorem region_afterBlock (hne : opening ≠ closing) (depth : Nat) (ts : List Token) :
    Region opening closing (depth + 1) ts (afterBlock opening closing (depth + 1) ts) := by
  induction ts generalizing depth with
  | nil => exact .unclosed fun front hprefix hnil => absurd (List.prefix_nil.mp hprefix) hnil
  | cons t ts ih =>
    rw [afterBlock]
    by_cases hopening : t.isMark opening = true
    · rw [if_pos hopening]
      exact (ih (depth + 1)).cons (Nat.succ_ne_zero _) (even_cons_opening hne hopening _)
    · rw [if_neg hopening]
      have hopening := Bool.eq_false_iff.mpr hopening
      by_cases hclosing : t.isMark closing = true
      · rw [if_pos hclosing]
        have hcount := even_cons_closing hopening hclosing
        cases depth with
        | zero =>
          rw [if_pos (Nat.le_refl 1)]
          refine .closed [t] ts ((hcount 0 []).mpr rfl) (fun front hprefix hnil hproper => ?_) (List.cons_ne_nil t [])
          obtain rfl | ⟨front, rfl, htail⟩ := List.prefix_cons_iff.mp hprefix
          · exact absurd rfl hnil
          · exact absurd (congrArg (t :: ·) (List.prefix_nil.mp htail)) hproper
        | succ depth =>
          rw [if_neg (by omega), Nat.add_sub_cancel]
          exact (ih depth).cons (Nat.succ_ne_zero _) (hcount (depth + 1))
      · rw [if_neg hclosing]
        exact (ih depth).cons (Nat.succ_ne_zero _) (even_cons_other hopening (Bool.eq_false_iff.mpr hclosing) _)

end

/-- `rest` stands behind the mark that closes the block which the first of the tokens begins: between the two marks, the parentheses,
brackets and braces are properly nested. -/
def Closes (opening : Char) (ts rest : List Token) : Prop :=
  ∃ t inner u, ts = t :: (inner ++ u :: rest) ∧ t.kind = .mark opening ∧ Balanced inner ∧ u.kind = .mark (closerOf opening)

/-- Anywhere in properly nested tokens, a mark that opens a block is closed. -/
theorem exists_closes {opening : Char} {before ts : List Token} {t : Token} (hopening : isOpener opening = true)
    (ht : t.kind = .mark opening) (h : Balanced (before ++ t :: ts)) : ∃ rest, Closes opening (t :: ts) rest := by
  rw [Balanced, Nested, List.map_append, pending_append] at h
  obtain ⟨awaited, -, hbehind⟩ := Option.bind_eq_some_iff.mp h
  rw [List.map_cons, ht, pending_opener hopening, ← List.nil_append (closerOf opening :: awaited)] at hbehind
  obtain ⟨inner, u, rest, rfl, hu, hinner, -⟩ := exists_closer awaited hbehind
  exact ⟨rest, t, inner, u, rfl, ht, hinner, hu⟩

/-- In front of an opening mark, the block is passed over up to the first token at which as many of the two marks have been read, or up
to the end of the text if there is no such token; in front of anything else the cursor stays. Anywhere in properly nested tokens, the
block that a parenthesis, bracket or brace begins is passed over up to the mark that closes it. -/
theorem skipBlock_exact (c : Cursor) {opening closing : Char} (hne : opening ≠ closing) :
    (c.sees opening = false → c.skipBlock opening closing = c) ∧
      (c.sees opening = true →
        (∃ left, Region opening closing 0 c.unread left ∧ c.skipBlock opening closing = { c with unread := left }) ∧
        ∀ before, Balanced (before ++ c.unread) → isOpener opening = true → closing = closerOf opening →
          (∃ rest, Closes opening c.unread rest) ∧
            ∀ rest, Closes opening c.unread rest → c.skipBlock opening closing = { c with unread := rest }) := by
  refine ⟨fun hsees => ?_, fun hsees => ?_⟩
  · rw [skipBlock, hsees]
    rfl
  · obtain ⟨source, unread, finish⟩ := c
    cases unread with
    | nil =>
      have hend := not_atEnd_of_sees hsees
      cases hend
    | cons t ts =>
      have ht : t.isMark opening = true := hsees
      have hskip : skipBlock ⟨source, t :: ts, finish⟩ opening closing =
          ⟨source, afterBlock opening closing 1 ts, finish⟩ := by
        rw [skipBlock, if_pos hsees]
        simp only [afterBlock, ht, if_true]
      refine ⟨⟨_, (region_afterBlock hne 0 ts).cons Nat.one_ne_zero (even_cons_opening hne ht 0), hskip⟩, ?_⟩
      rintro before hbalanced hopening rfl
      refine ⟨exists_closes hopening (kind_of_isMark ht) hbalanced, ?_⟩
      rintro rest ⟨t, inner, u, hsplit, -, hinner, hu⟩
      obtain ⟨rfl, rfl⟩ := List.cons.inj hsplit
      rw [hskip, afterBlock_nested hopening hinner hu]

/-- Inside of a call, over brackets and braces and another pair of parentheses. -/
theorem skipBlock_exact_over_brackets :
    let c : Cursor := { ofText "f(a[\x7b(b)\x7d], (c)) d" with unread := (tokens "f(a[\x7b(b)\x7d], (c)) d".toList).drop 1 }
    '(' ≠ ')' ∧ c.sees '(' = true ∧ Balanced ((tokens c.source).take 1 ++ c.unread) ∧
      ∃ rest, Closes '(' c.unread rest ∧ Region '(' ')' 0 c.unread rest ∧ rest.map Token.kind = [.word "d"] ∧
        c.skipBlock '(' ')' = { c with unread := rest } := by
  have hread :
      let c : Cursor := { ofText "f(a[\x7b(b)\x7d], (c)) d" with unread := (tokens "f(a[\x7b(b)\x7d], (c)) d".toList).drop 1 }
      '(' ≠ ')' ∧ c.sees '(' = true ∧ Balanced ((tokens c.source).take 1 ++ c.unread) ∧
        (c.skipBlock '(' ')').unread.map Token.kind = [.word "d"] := by
    decide +kernel
  intro c
  obtain ⟨hne, hsees, hbalanced, hleft⟩ := hread
  obtain ⟨⟨left, hregion, hskip⟩, hnested⟩ := (skipBlock_exact c hne).2 hsees
  obtain ⟨⟨rest, hrest⟩, hall⟩ := hnested _ hbalanced rfl rfl
  obtain rfl : left = rest := congrArg Cursor.unread (hskip.symm.trans (hall rest hrest))
  rw [hskip] at hleft
  exact ⟨hne, hsees, hbalanced, left, hrest, hregion, hleft, hskip⟩

end Cursor

end HeaderAtlas
