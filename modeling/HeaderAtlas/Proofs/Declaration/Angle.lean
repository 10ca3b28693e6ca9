import HeaderAtlas.Proofs.Cursor.Passed
import HeaderAtlas.Proofs.Declaration.Turn

/-!
# Template arguments end with their brackets

The marks `<` and `>` are brackets only behind a name, so nothing makes them match: a comparison among template arguments opens a
bracket that is never closed, and what is read or passed over as arguments then runs on, through braces and all. Here it is shown
that reading the arguments never goes beyond the `>` that closes them by count (`afterBlock_suffix_takeTemplateArgs`). So where the
arguments behind a name are closed and hold no brace and no `;` (`angled`), a type is read without passing one
(`clear_takeType`), and so are the bases of a type (`clear_takeBases`).
-/

namespace HeaderAtlas

/-! ## What is passed without a brace -/

/-- The marks that end a statement or a body, or begin one. -/
def Token.Kind.isBound (kind : Token.Kind) : Bool := kind == .mark '{' || kind == .mark '}' || kind == .mark ';'

/-- What has been passed over holds no brace and no `;`, and closes only what it has opened. -/
def Clear (ts ts' : List Token) : Prop :=
  ∃ run opened, ts = run ++ ts' ∧ pending [] [] (run.map Token.kind) = some opened ∧ ∀ t ∈ run, t.kind.isBound = false

namespace Clear

variable {ts ts' ts'' : List Token}

theorem refl (ts : List Token) : Clear ts ts := ⟨[], [], rfl, rfl, List.forall_mem_nil _⟩

/-- Two runs that pass no bound make one. -/
theorem trans (h : Clear ts ts') (h' : Clear ts' ts'') : Clear ts ts'' := by
  obtain ⟨run, opened, rfl, hrun, hbound⟩ := h
  obtain ⟨run', opened', rfl, hrun', hbound'⟩ := h'
  refine ⟨run ++ run', opened' ++ opened, by rw [List.append_assoc], ?_, List.forall_mem_append.mpr ⟨hbound, hbound'⟩⟩
  rw [List.map_append, pending_append, hrun]
  exact pending_add opened hrun'

/-- A soft token is passed without a brace or a `;`. -/
theorem of_soft {t : Token} (h : t.kind.Soft) : Clear (t :: ts) ts := by
  refine ⟨[t], [], rfl, pending_flat h.flat, List.forall_mem_singleton.mpr ?_⟩
  cases hkind : t.kind with
  | mark symbol =>
    have hmarks : softMarks.all (fun symbol => !(Token.Kind.mark symbol).isBound) = true := rfl
    simpa using List.all_eq_true.mp hmarks symbol (h symbol hkind)
  | _ => rfl

end Clear

/-- What is passed token by token passes no bound. -/
theorem Passed.clear {ts ts' : List Token} (h : Passed ts ts') : Clear ts ts' := by
  obtain ⟨run, rfl, hrun⟩ := h
  induction run with
  | nil => exact .refl _
  | cons t run ih =>
    obtain ⟨ht, hrun⟩ := List.forall_mem_cons.mp hrun
    exact (Clear.of_soft ht).trans (ih hrun)

/-- What is no bound is none of the three marks. -/
theorem ne_of_not_isBound {kind : Token.Kind} (h : kind.isBound = false) :
    kind ≠ .mark '{' ∧ kind ≠ .mark '}' ∧ kind ≠ .mark ';' := by
  simpa [Token.Kind.isBound, and_assoc] using h

/-- Whoever passes no brace stays in the body. -/
theorem InBlock.clear {test : List Token.Kind → Bool} {base : List Char} {rest ts ts' : List Token}
    (h : InBlock '{' test base rest ts) (hclear : Clear ts ts') : InBlock '{' test base rest ts' := by
  obtain ⟨run, opened, rfl, hrun, hbound⟩ := hclear
  refine h.behind rfl run hrun fun t ht => ?_
  obtain ⟨hopen, hclose, -⟩ := ne_of_not_isBound (hbound t ht)
  exact ⟨hopen, hclose⟩

/-! ## Brackets by count -/

/-- The kinds up to the mark that closes a block behind `depth` more that are open. -/
def blockContent (opening closing : Char) : Nat → List Token.Kind → Option (List Token.Kind)
  | _, [] => none
  | depth, kind :: kinds =>
    if kind = .mark opening then (blockContent opening closing (depth + 1) kinds).map (kind :: ·)
    else if kind = .mark closing then
      if depth = 0 then some [] else (blockContent opening closing (depth - 1) kinds).map (kind :: ·)
    else (blockContent opening closing depth kinds).map (kind :: ·)

theorem isMark_eq (t : Token) (symbol : Char) : t.isMark symbol = decide (t.kind = .mark symbol) := by
  rw [Token.isMark]
  rfl

/-- The content of a block is what is passed over with the block, up to the mark that closes it. -/
theorem exists_of_blockContent {opening closing : Char} {content : List Token.Kind} :
    ∀ {ts : List Token} {depth : Nat}, blockContent opening closing depth (ts.map Token.kind) = some content →
      ∀ more, ∃ run t, ts ++ more = run ++ t :: Cursor.afterBlock opening closing (depth + 1) (ts ++ more) ∧
        run.map Token.kind = content ∧ t.kind = .mark closing := by
  intro ts
  induction ts generalizing content with
  | nil =>
    intro depth h
    cases h
  | cons t ts ih =>
    intro depth h more
    have hcons : ∀ {depth' : Nat}, (blockContent opening closing depth' (ts.map Token.kind)).map (t.kind :: ·) = some content →
        ∃ run u, t :: (ts ++ more) = run ++ u :: Cursor.afterBlock opening closing (depth' + 1) (ts ++ more) ∧
          run.map Token.kind = content ∧ u.kind = .mark closing := by
      intro depth' h
      obtain ⟨content', hcontent, rfl⟩ := Option.map_eq_some_iff.mp h
      obtain ⟨run, u, hts, hrun, hu⟩ := ih hcontent more
      exact ⟨t :: run, u, congrArg (t :: ·) hts, congrArg (t.kind :: ·) hrun, hu⟩
    rw [List.map_cons, blockContent] at h
    rw [List.cons_append, Cursor.afterBlock, isMark_eq, isMark_eq]
    by_cases hopen : t.kind = .mark opening
    · rw [if_pos hopen] at h
      rw [if_pos (decide_eq_true hopen)]
      exact hcons h
    · rw [if_neg hopen] at h
      rw [if_neg (by simpa using hopen)]
      by_cases hclose : t.kind = .mark closing
      · rw [if_pos hclose] at h
        rw [if_pos (decide_eq_true hclose)]
        cases depth with
        | zero =>
          obtain rfl := Option.some.inj h
          exact ⟨[], t, rfl, rfl, hclose⟩
        | succ depth => exact hcons h
      · rw [if_neg hclose] at h
        rw [if_neg (by simpa using hclose)]
        exact hcons h

/-- What stands behind the angle brackets that are open. -/
def behindAngles : Nat → List Token → List Token
  | 0, ts => ts
  | depth + 1, ts => Cursor.afterBlock '<' '>' (depth + 1) ts

/-- Behind brackets by count stands the end of the tokens. -/
theorem behindAngles_suffix (depth : Nat) (ts : List Token) : behindAngles depth ts <:+ ts := by
  cases depth with
  | zero => exact List.suffix_refl _
  | succ depth => exact Cursor.afterBlock_suffix ..

/-- Of the angle brackets that are open, at most `closed` have been closed. -/
def ClosesAngles (closed : Nat) (ts ts' : List Token) : Prop :=
  ∀ depth, 0 < depth → ∃ depth', depth ≤ depth' + closed ∧ behindAngles depth ts = behindAngles depth' ts'

namespace ClosesAngles

variable {ts ts' ts'' : List Token} {closed : Nat}

theorem refl (ts : List Token) : ClosesAngles 0 ts ts := fun depth _ => ⟨depth, Nat.le_refl _, rfl⟩

/-- Reading that closes nothing may stand in front of reading that closes a bracket. -/
theorem trans (h : ClosesAngles 0 ts ts') (h' : ClosesAngles closed ts' ts'') : ClosesAngles closed ts ts'' := by
  intro depth hdepth
  obtain ⟨depth', hle, heq⟩ := h depth hdepth
  obtain ⟨depth'', hle', heq'⟩ := h' depth' (Nat.lt_of_lt_of_le hdepth hle)
  exact ⟨depth'', Nat.le_trans hle hle', heq.trans heq'⟩

/-- To close no bracket is to close at most one. -/
theorem weaken (h : ClosesAngles 0 ts ts') : ClosesAngles 1 ts ts' := by
  intro depth hdepth
  obtain ⟨depth', hle, heq⟩ := h depth hdepth
  exact ⟨depth', Nat.le_succ_of_le hle, heq⟩

/-- A token that does not close an angle bracket. -/
theorem step {t : Token} (h : t.kind ≠ .mark '>') : ClosesAngles 0 (t :: ts) ts := by
  intro depth hdepth
  obtain ⟨depth, rfl⟩ := Nat.exists_eq_succ_of_ne_zero (Nat.ne_of_gt hdepth)
  rw [behindAngles, Cursor.afterBlock, isMark_eq, isMark_eq]
  split
  · exact ⟨depth + 2, Nat.le_succ _, rfl⟩
  · rw [if_neg (by simpa using h)]
    exact ⟨depth + 1, Nat.le_refl _, rfl⟩

/-- Arguments behind a `<` close only what that has opened. -/
theorem opened {t : Token} (h : t.kind = .mark '<') (hargs : ClosesAngles 1 ts ts') : ClosesAngles 0 (t :: ts) ts' := by
  intro depth hdepth
  obtain ⟨depth, rfl⟩ := Nat.exists_eq_succ_of_ne_zero (Nat.ne_of_gt hdepth)
  obtain ⟨depth', hle, heq⟩ := hargs (depth + 2) (Nat.succ_pos _)
  refine ⟨depth', Nat.le_of_succ_le_succ hle, ?_⟩
  rw [← heq, behindAngles, Cursor.afterBlock, isMark_eq, if_pos (decide_eq_true h), behindAngles]

/-- A `>` closes one. -/
theorem closed_one {t : Token} (h : t.kind = .mark '>') : ClosesAngles 1 (t :: ts) ts := by
  intro depth hdepth
  obtain ⟨depth, rfl⟩ := Nat.exists_eq_succ_of_ne_zero (Nat.ne_of_gt hdepth)
  refine ⟨depth, Nat.le_refl _, ?_⟩
  rw [behindAngles, Cursor.afterBlock, isMark_eq, isMark_eq, if_neg (by rw [h]; decide), if_pos (decide_eq_true h)]
  cases depth with
  | zero => rfl
  | succ depth => rfl

end ClosesAngles

/-- What is passed token by token closes no bracket. -/
theorem Passed.closesAngles {ts ts' : List Token} (h : Passed ts ts') : ClosesAngles 0 ts ts' := by
  obtain ⟨run, rfl, hrun⟩ := h
  induction run with
  | nil => exact .refl _
  | cons t run ih =>
    obtain ⟨ht, hrun⟩ := List.forall_mem_cons.mp hrun
    refine ClosesAngles.trans (.step fun hkind => ?_) (ih hrun)
    exact absurd (ht _ hkind) (by decide)

namespace Cursor

/-- The head of a type expression has no name, or the name stands right in front of what is read next. -/
theorem takeTypeHead_cases (c : Cursor) :
    (c.takeTypeHead.1.word = none ∧ Passed c.unread c.takeTypeHead.2.unread) ∨
      ∃ t word, c.takeTypeHead.1.word = some word ∧ Passed c.unread (t :: c.takeTypeHead.2.unread) ∧ t.kind = .word word ∧
        word ∉ nonTypeWords := by
  have hkeyed : Passed c.unread (if c.seesWordOf ["class", "struct", "typename"] then c.advance else c).unread := by
    split
    · obtain ⟨name, -, hname⟩ := kind_of_seesWordOf ‹_›
      exact passed_of_word hname
    · exact .refl _
  unfold takeTypeHead
  dsimp only
  generalize (if c.seesWordOf ["class", "struct", "typename"] then c.advance else c) = keyed at hkeyed
  have hmarked := (hkeyed.trans (keyed.passed_passWord "virtual")).trans (passed_pass _ (by decide : '~' ∈ _))
  split
  · rename_i word hword
    obtain ⟨hword, htype⟩ := Option.filter_eq_some_iff.mp hword
    refine Or.inr ⟨_, word, rfl, ?_, kind_of_word? hword, by simpa using htype⟩
    rw [← unread_eq_cons (not_atEnd_of_word hword)]
    exact hmarked.trans (passed_takeQualifiers _ _)
  · exact Or.inl ⟨rfl, hmarked.trans (passed_takeQualifiers _ _)⟩

/-- The head of a type is passed token by token. -/
theorem passed_takeTypeHead (c : Cursor) : Passed c.unread c.takeTypeHead.2.unread := by
  rcases c.takeTypeHead_cases with ⟨-, hpassed⟩ | ⟨t, word, -, hpassed, ht, -⟩
  · exact hpassed
  · exact hpassed.trans ⟨[t], rfl, List.forall_mem_singleton.mpr (by rw [ht]; exact soft_word word)⟩

/-- A token in front that closes no angle bracket. -/
theorem closesAngles_advance {c : Cursor} (h : c.sees '>' = false) : ClosesAngles 0 c.unread c.advance.unread := by
  cases hend : c.atEnd with
  | true =>
    have hnil : c.unread = [] := List.isEmpty_iff.mp hend
    rw [advance, hnil]
    exact .refl _
  | false =>
    rw [unread_eq_cons hend]
    exact .step (kind_ne_of_not_isMark (Bool.eq_false_iff.mp h))

end Cursor

namespace Reader

/-- A turn of reading template arguments closes none of the brackets around them, if the types in it do not. -/
theorem closesAngles_argTurn {r : Reader} (hclose : r.cursor.sees '>' = false)
    (htype : ClosesAngles 0 r.cursor.unread (takeType none r).2.cursor.unread) :
    ClosesAngles 0 r.cursor.unread r.argTurn.2.cursor.unread := by
  have hadvance := Cursor.closesAngles_advance hclose
  unfold argTurn
  split
  · exact hadvance
  · exact hadvance
  · split
    · rename_i value hvalue
      refine hadvance.trans (Cursor.closesAngles_advance (c := r.cursor.advance) ?_)
      unfold Token.Kind.int? at hvalue
      split at hvalue
      · rename_i hkind
        have hkind' : r.cursor.advance.peek.kind = .int _ := hkind
        exact (isMark_eq ..).trans (decide_eq_false (by rw [hkind']; exact fun h => Token.Kind.noConfusion h))
      · cases hvalue
    · exact hadvance
  · dsimp only
    split
    · unfold resume
      split
      · exact htype
      · exact hadvance
    · unfold use
      split
      · exact htype
      · exact htype
  · exact hadvance

/-- Types close no angle bracket around them, and template arguments close one. The two call each other; the induction is on the
tokens that are left, arguments coming after the type in front of them. -/
theorem closesAngles_takeType_and_takeTemplateArgs (n : Nat) :
    (∀ (context : Option TypeId) (r : Reader), 2 * r.remaining ≤ n →
      ClosesAngles 0 r.cursor.unread (takeType context r).2.cursor.unread) ∧
    ∀ r : Reader, 2 * r.remaining + 1 ≤ n → ClosesAngles 1 r.cursor.unread (takeTemplateArgs r).2.cursor.unread := by
  induction n with
  | zero =>
    refine ⟨?_, fun r h => absurd h (Nat.not_succ_le_zero _)⟩
    intro context r h
    cases hword : r.cursor.takeTypeHead.1.word with
    | none =>
      rw [takeType_of_none hword]
      exact r.cursor.passed_takeTypeHead.closesAngles
    | some word =>
      have := Cursor.remaining_takeTypeHead_lt hword
      simp only [remaining] at h
      omega
  | succ n ih =>
    obtain ⟨ihType, ihArgs⟩ := ih
    constructor
    · intro context r h
      have hhead := r.cursor.passed_takeTypeHead
      cases hword : r.cursor.takeTypeHead.1.word with
      | none =>
        rw [takeType_of_none hword]
        exact hhead.closesAngles
      | some word =>
        have hparts := hhead.trans (r.cursor.takeTypeHead.2.passed_takeParts)
        rw [takeType_of_some hword]
        dsimp only
        split
        · exact hhead.closesAngles
        · split
          · rename_i hopen
            have hopen' := Cursor.unread_eq_cons (Cursor.not_atEnd_of_sees hopen)
            have hlt : r.cursor.takeTypeHead.2.takeParts.2.advance.remaining < r.remaining := by
              have h₁ := Cursor.remaining_takeTypeHead_lt hword
              have h₂ := r.cursor.takeTypeHead.2.remaining_takeParts_le
              have h₃ := r.cursor.takeTypeHead.2.takeParts.2.remaining_advance_le
              exact Nat.lt_of_le_of_lt h₃ (Nat.lt_of_le_of_lt h₂ h₁)
            have hargs := ihArgs (r.moveTo r.cursor.takeTypeHead.2.takeParts.2.advance) (by
              have : (r.moveTo r.cursor.takeTypeHead.2.takeParts.2.advance).remaining =
                r.cursor.takeTypeHead.2.takeParts.2.advance.remaining := rfl
              omega)
            have hopened := hparts.closesAngles.trans (hopen' ▸ ClosesAngles.opened (Cursor.kind_of_sees hopen) hargs)
            exact hopened.trans (Cursor.passed_takeTypeTail _ _).closesAngles
          · exact (hparts.trans (Cursor.passed_takeTypeTail _ _)).closesAngles
    · intro r h
      rw [takeTemplateArgs_eq]
      split
      · exact (ClosesAngles.refl _).weaken
      · rename_i hend
        have hend' := Bool.eq_false_iff.mpr hend
        split
        · rename_i hclose
          have hpeek := Cursor.unread_eq_cons hend'
          rw [hpeek]
          exact .closed_one (Cursor.kind_of_sees hclose)
        · rename_i hclose
          have hturn := closesAngles_argTurn (Bool.eq_false_iff.mpr hclose) (ihType none r (by omega))
          have hlt := remaining_argTurn_lt hend'
          exact hturn.trans (ihArgs _ (by omega))

/-- Template arguments are read up to the `>` that closes them by count at the latest. -/
theorem afterBlock_suffix_takeTemplateArgs (r : Reader) :
    Cursor.afterBlock '<' '>' 1 r.cursor.unread <:+ (takeTemplateArgs r).2.cursor.unread := by
  obtain ⟨depth, -, heq⟩ := (closesAngles_takeType_and_takeTemplateArgs _).2 r (Nat.le_refl _) 1 Nat.zero_lt_one
  rw [show Cursor.afterBlock '<' '>' 1 r.cursor.unread = behindAngles 1 r.cursor.unread from rfl, heq]
  exact behindAngles_suffix ..

end Reader

/-! ## Arguments that are closed -/

/-- What stands behind a `<` closes it, and holds up to there no brace, no `;` and nothing that closes what was open before. -/
def angled (kinds : List Token.Kind) : Bool :=
  match blockContent '<' '>' 0 kinds with
  | some content => (pending [] [] content).isSome && content.all fun kind => !kind.isBound
  | none => false

/-- Whoever stays within closed arguments passes no brace. -/
theorem clear_of_angled {run more ts : List Token} (h : angled (run.map Token.kind) = true)
    (hafter : Cursor.afterBlock '<' '>' 1 (run ++ more) <:+ ts) (hts : ts <:+ run ++ more) : Clear (run ++ more) ts := by
  unfold angled at h
  split at h
  · rename_i content hcontent
    obtain ⟨hopened, hbound⟩ := Bool.and_eq_true_iff.mp h
    obtain ⟨opened, hopened⟩ := Option.isSome_iff_exists.mp hopened
    obtain ⟨args, t, hargs, rfl, ht⟩ := exists_of_blockContent hcontent more
    obtain ⟨inside, hinside⟩ := hafter
    obtain ⟨passed, hpassed⟩ := hts
    have hsplit : passed ++ inside = args ++ [t] := by
      have hwhole : passed ++ (inside ++ Cursor.afterBlock '<' '>' 1 (run ++ more)) =
          args ++ ([t] ++ Cursor.afterBlock '<' '>' 1 (run ++ more)) := by
        rw [hinside, hpassed]
        exact hargs
      rw [← List.append_assoc, ← List.append_assoc] at hwhole
      exact List.append_cancel_right hwhole
    have hpending : pending [] [] ((args ++ [t]).map Token.kind) = some opened := by
      rw [List.map_append, pending_append, hopened, Option.bind_some, List.map_singleton, ht, pending_flat (flat_mark rfl rfl), pending]
    rw [← hsplit, List.map_append, pending_append] at hpending
    obtain ⟨opened', hopened', -⟩ := Option.bind_eq_some_iff.mp hpending
    refine ⟨passed, opened', hpassed.symm, hopened', fun u hu => ?_⟩
    have hmem : u ∈ args ++ [t] := hsplit ▸ List.mem_append_left _ hu
    rcases List.mem_append.mp hmem with hmem | hmem
    · have := List.all_eq_true.mp hbound _ (List.mem_map_of_mem hmem)
      simpa using this
    · rw [List.mem_singleton.mp hmem, ht]
      rfl
  · cases h

/-- If a `<` comes first, the arguments behind it are closed. -/
def closedAngles : List Token.Kind → Bool
  | [] => true
  | kind :: kinds => kind != .mark '<' || angled kinds

/-- The token may stand in front of the name of a base, or of a further part of a name. -/
def Token.Kind.leadsName (kind : Token.Kind) : Bool :=
  [.mark ':', .mark ',', .word "public", .word "protected", .word "private", .word "virtual"].contains kind

/-- The arguments behind a name are closed. The word `operator` is no name, except where only a name can stand. -/
def angles : List Token.Kind → Bool
  | [] => true
  | kind :: kinds =>
    (match kind with
      | .word name => name == "operator" || closedAngles kinds
      | _ => true) &&
    (match kinds with
      | .word _ :: kinds => !kind.leadsName || closedAngles kinds
      | _ => true)

/-- If a `<` comes first, the arguments behind it are closed. -/
def ArgsClosed (ts : List Token) : Prop :=
  ∀ t ts', ts = t :: ts' → t.kind = .mark '<' → ∃ run more, ts' = run ++ more ∧ angled (run.map Token.kind) = true

namespace InBlock

variable {test : List Token.Kind → Bool} {base : List Char} {rest ts : List Token} {t u : Token}

/-- Arguments that are closed within a body are closed where they stand. -/
theorem argsClosed_of_closedAngles {run : List Token} (hu : u.kind = .mark '}') (h : closedAngles (run.map Token.kind) = true) :
    ArgsClosed (run ++ u :: rest) := by
  intro t ts hts ht
  cases run with
  | nil =>
    obtain ⟨rfl, -⟩ := List.cons.inj hts
    rw [hu] at ht
    exact absurd (Token.Kind.mark.inj ht) (by decide)
  | cons v run =>
    obtain ⟨rfl, rfl⟩ := List.cons.inj hts
    rw [List.map_cons, closedAngles, ht, bne_self_eq_false, Bool.false_or] at h
    exact ⟨run, _, rfl, h⟩

/-- The arguments behind a name in the block are closed. -/
theorem argsClosed_word (htest : ∀ kinds, test kinds = true → angles kinds = true) {name : String}
    (h : InBlock '{' test base rest (t :: ts)) (ht : t.kind = .word name) (hname : name ≠ "operator") : ArgsClosed ts := by
  obtain ⟨run, u, rfl, hu, hplace⟩ := h.exists_place (by rw [ht]; exact fun h => Token.Kind.noConfusion h)
  have hangles := (Bool.and_eq_true_iff.mp (htest _ hplace)).1
  rw [ht] at hangles
  exact argsClosed_of_closedAngles hu ((Bool.or_eq_true_iff.mp hangles).resolve_left (by simpa using hname))

/-- So are those behind a word where only a name can stand. -/
theorem argsClosed_lead (htest : ∀ kinds, test kinds = true → angles kinds = true) {name : String}
    (h : InBlock '{' test base rest (t :: u :: ts)) (ht : t.kind.leadsName = true) (hu : u.kind = .word name) : ArgsClosed ts := by
  obtain ⟨run, close, hts, hclose, hplace⟩ := h.exists_place (by rintro h; rw [h] at ht; exact absurd ht (by decide))
  cases run with
  | nil =>
    obtain ⟨rfl, -⟩ := List.cons.inj hts
    rw [hu] at hclose
    cases hclose
  | cons v run =>
    obtain ⟨rfl, rfl⟩ := List.cons.inj hts
    have hangles := (Bool.and_eq_true_iff.mp (htest _ hplace)).2
    rw [List.map_cons, hu] at hangles
    exact argsClosed_of_closedAngles hclose ((Bool.or_eq_true_iff.mp hangles).resolve_left (by simpa using ht))

end InBlock

/-! ## Names with arguments -/

namespace Cursor

variable {c : Cursor}

/-- Further parts of a name are none, or the last one is a word behind a `:`. -/
theorem takeParts_cases (c : Cursor) : c.takeParts.2 = c ∨
    ∃ t u name, Passed c.unread (t :: u :: c.takeParts.2.unread) ∧ t.kind = .mark ':' ∧ u.kind = .word name := by
  fun_induction takeParts c with
  | case1 c hscope part hpart rest ih =>
    refine Or.inr ?_
    have hword := hpart
    unfold takeWord at hword
    split at hword
    · rename_i name hname
      have hnext : c.advance.advance.takeWord.2 = c.advance.advance.advance := by
        rw [takeWord, hname]
      obtain ⟨hfirst, hsecond⟩ := Bool.and_eq_true_iff.mp hscope
      rw [ahead_one] at hsecond
      rcases ih with ih | ⟨t, u, name', hpassed, ht, hu⟩
      · refine ⟨c.advance.peek, c.advance.advance.peek, name, ?_, kind_of_sees hsecond, kind_of_word? hname⟩
        rw [show rest = _ from rfl, ih, hnext, ← unread_eq_cons (not_atEnd_of_word hname), ← unread_eq_cons (not_atEnd_of_sees hsecond)]
        exact passed_of_sees hfirst (by decide)
      · refine ⟨t, u, name', ?_, ht, hu⟩
        exact ((passed_atScope hscope).trans (passed_takeWord _)).trans hpassed
    · cases hword
  | case2 => exact Or.inl rfl
  | case3 => exact Or.inl rfl

/-- Where closed arguments are passed over as a block, no brace is passed. -/
theorem clear_skipAngles (h : ArgsClosed c.unread) : Clear c.unread (c.skipBlock '<' '>').unread := by
  unfold skipBlock
  split
  · rename_i hopen
    have hpeek := unread_eq_cons (not_atEnd_of_sees hopen)
    have hkind := kind_of_sees hopen
    obtain ⟨run, more, hargs, hangled⟩ := h _ _ hpeek hkind
    dsimp only
    rw [hpeek, afterBlock, isMark_of_kind hkind, beq_self_eq_true, if_pos rfl, hargs]
    refine Clear.trans ⟨[c.peek], [], rfl, ?_, ?_⟩ (clear_of_angled hangled (List.suffix_refl _) (afterBlock_suffix ..))
    · rw [List.map_singleton, hkind]
      exact pending_flat (flat_mark rfl rfl)
    · rw [List.forall_mem_singleton, hkind]
      rfl
  · exact .refl _

end Cursor

section

variable {test : List Token.Kind → Bool} {base : List Char} {rest : List Token}

namespace Reader

/-- Closed arguments are read without passing a brace. -/
theorem clear_takeTemplateArgs {r : Reader} {c : Cursor} (hopen : c.sees '<' = true) (h : ArgsClosed c.unread) :
    Clear c.unread (takeTemplateArgs (r.moveTo c.advance)).2.cursor.unread := by
  have hpeek := Cursor.unread_eq_cons (Cursor.not_atEnd_of_sees hopen)
  have hkind := Cursor.kind_of_sees hopen
  obtain ⟨run, more, hargs, hangled⟩ := h _ _ hpeek hkind
  have hsuffix := (onward_takeTemplateArgs (r.moveTo c.advance)).suffix
  have hafter := afterBlock_suffix_takeTemplateArgs (r.moveTo c.advance)
  rw [show (r.moveTo c.advance).cursor.unread = run ++ more from hargs] at hsuffix hafter
  rw [hpeek, hargs]
  refine Clear.trans ⟨[c.peek], [], rfl, ?_, ?_⟩ (clear_of_angled hangled hafter hsuffix)
  · rw [List.map_singleton, hkind]
    exact pending_flat (flat_mark rfl rfl)
  · rw [List.forall_mem_singleton, hkind]
    rfl

/-- A type in a body where the arguments behind a name are closed is read without passing a brace. -/
theorem clear_takeType (htest : ∀ kinds, test kinds = true → angles kinds = true) (context : Option TypeId) {r : Reader}
    (h : InBlock '{' test base rest r.cursor.unread) : Clear r.cursor.unread (takeType context r).2.cursor.unread := by
  rcases r.cursor.takeTypeHead_cases with ⟨hword, hpassed⟩ | ⟨t, word, hword, hpassed, ht, hname⟩
  · rw [takeType_of_none hword]
    exact hpassed.clear
  have hhead := r.cursor.passed_takeTypeHead
  have hparts := hhead.trans r.cursor.takeTypeHead.2.passed_takeParts
  have hclosed : ArgsClosed r.cursor.takeTypeHead.2.takeParts.2.unread := by
    rcases r.cursor.takeTypeHead.2.takeParts_cases with hnone | ⟨u, v, part, hpart, hu, hv⟩
    · rw [hnone]
      refine (h.passed rfl hpassed).argsClosed_word htest ht ?_
      rintro rfl
      exact hname (by decide)
    · exact (h.passed rfl (hhead.trans hpart)).argsClosed_lead htest (by rw [hu]; decide) hv
  rw [takeType_of_some hword]
  dsimp only
  split
  · exact hhead.clear
  · split
    · rename_i hopen
      exact (hparts.clear.trans (clear_takeTemplateArgs hopen hclosed)).trans (Cursor.passed_takeTypeTail _ _).clear
    · exact (hparts.trans (Cursor.passed_takeTypeTail _ _)).clear

end Reader

namespace Cursor

/-- What may stand in front of a name is soft. -/
theorem soft_of_leadsName {kind : Token.Kind} (h : kind.leadsName = true) : kind.Soft := by
  rintro symbol rfl
  have hmem := List.contains_iff_mem.mp h
  simp only [List.mem_cons, Token.Kind.mark.injEq, reduceCtorEq, List.not_mem_nil, or_false] at hmem
  rcases hmem with rfl | rfl <;> decide

/-- The access words in front of a base. -/
theorem passed_skipBaseWords {t : Token} (ht : t.kind.leadsName = true) (c : Cursor) :
    ∃ u, u.kind.leadsName = true ∧ Passed (t :: c.unread) (u :: c.skipBaseWords.unread) := by
  fun_induction skipBaseWords c generalizing t with
  | case1 c => exact ⟨t, ht, .refl _⟩
  | case2 c hend hword ih =>
    obtain ⟨name, hname, hkind⟩ := kind_of_seesWordOf hword
    have hlead : c.peek.kind.leadsName = true := by
      rw [hkind]
      exact (by decide : ∀ name ∈ ["public", "protected", "private", "virtual"], (Token.Kind.word name).leadsName = true) name hname
    obtain ⟨u, hu, hpassed⟩ := ih hlead
    refine ⟨u, hu, Passed.trans ?_ hpassed⟩
    rw [← unread_eq_cons (Bool.eq_false_iff.mpr hend)]
    exact ⟨[t], rfl, List.forall_mem_singleton.mpr (soft_of_leadsName ht)⟩
  | case3 c => exact ⟨t, ht, .refl _⟩

/-- A base behind a token that leads it is read without passing a brace. -/
theorem clear_takeBase (htest : ∀ kinds, test kinds = true → angles kinds = true) {t : Token} (ht : t.kind.leadsName = true)
    {c : Cursor} (h : InBlock '{' test base rest (t :: c.unread)) : Clear (t :: c.unread) c.takeBase.2.unread := by
  obtain ⟨u, hu, hwords⟩ := passed_skipBaseWords ht c
  unfold takeBase
  cases hname : c.skipBaseWords.peek.word? with
  | none =>
    rw [takeWord, hname]
    exact hwords.clear.trans (.of_soft (soft_of_leadsName hu))
  | some first =>
    have hpeek := unread_eq_cons (not_atEnd_of_word hname)
    have hkind := kind_of_word? hname
    rw [takeWord, hname]
    dsimp only
    have hparts := c.skipBaseWords.advance.passed_takeParts
    rw [hpeek] at hwords
    have hname' : Clear (t :: c.unread) c.skipBaseWords.advance.unread :=
      (hwords.clear.trans (.of_soft (soft_of_leadsName hu))).trans (.of_soft (by rw [hkind]; exact soft_word first))
    have hclosed : ArgsClosed c.skipBaseWords.advance.takeParts.2.unread := by
      rcases c.skipBaseWords.advance.takeParts_cases with hnone | ⟨v, w, part, hpart, hv, hw⟩
      · rw [hnone]
        exact (h.passed rfl hwords).argsClosed_lead htest hu hkind
      · exact ((h.clear hname').passed rfl hpart).argsClosed_lead htest (by rw [hv]; decide) hw
    exact (hname'.trans hparts.clear).trans (clear_skipAngles hclosed)

/-- The bases of a type are read without passing a brace. -/
theorem clear_takeBases (htest : ∀ kinds, test kinds = true → angles kinds = true) (t : Token) (ht : t.kind.leadsName = true)
    (c : Cursor) (h : InBlock '{' test base rest (t :: c.unread)) : Clear (t :: c.unread) c.takeBases.2.unread := by
  fun_induction takeBases c generalizing t with
  | case1 c => exact clear_takeBase htest ht h
  | case2 c b name hname hcomma next ih =>
    have hbase := clear_takeBase htest ht h
    have hpeek := unread_eq_cons (not_atEnd_of_sees hcomma)
    have hkind := kind_of_sees hcomma
    have hmore := h.clear hbase
    rw [hpeek] at hmore hbase
    exact hbase.trans (ih _ (by rw [hkind]; decide) hmore)
  | case3 c => exact clear_takeBase htest ht h

end Cursor

end

end HeaderAtlas
