import HeaderAtlas.Proofs.Cursor.Text
import HeaderAtlas.Proofs.Token.Filler
import HeaderAtlas.Proofs.TraitList

/-!
# Integers in trait lists

An integer is written behind its key in plain decimal digits. It is cut as a number, taken as it is written, joined with its sign
and read again by key, and what comes back is the integer, over the whole signed 64-bit range (`getInt_takeTraits`): the list may
stand anywhere in a text, with blanks, comments and directives between its tokens, and its other entries may hold quoted values or
none. An earlier entry takes the key away if it stands for it; the words `short` and `long` do so for the types they name
(`getInt_takeTraits_behind_short`).
-/

namespace HeaderAtlas

/-! ## Reading a decimal integer -/

theorem mem_toString_int {n : Int} {c : Char} (h : c ∈ (toString n).toList) : c = '-' ∨ c.isDigit = true := by
  have hdigits : ∀ m, c ∈ Nat.toDigits 10 m → c.isDigit = true := fun m hc =>
    Nat.isDigit_of_mem_toDigits (by decide) (by decide) hc
  cases n with
  | ofNat m =>
    rw [toList_toString_ofNat] at h
    exact .inr (hdigits m h)
  | negSucc m =>
    rw [toList_toString_negSucc] at h
    exact (List.mem_cons.mp h).imp_right (hdigits (m + 1))

theorem Number.readInt?_toString (n : Int) : Number.readInt? 10 (toString n).toList = some n := by
  cases n with
  | ofNat m =>
    have hsign : Number.splitSign (Nat.toDigits 10 m) = (false, Nat.toDigits 10 m) := by
      have hdigits : ∀ c ∈ Nat.toDigits 10 m, c.isDigit = true := fun c hc =>
        Nat.isDigit_of_mem_toDigits (by decide) (by decide) hc
      unfold Number.splitSign
      split
      · rename_i hcs
        exact absurd (hdigits '-' (hcs ▸ List.mem_cons_self)) (by decide)
      · rename_i hcs
        exact absurd (hdigits '+' (hcs ▸ List.mem_cons_self)) (by decide)
      · rfl
    rw [toList_toString_ofNat, Number.readInt?, hsign, readNat?_toDigits]
    rfl
  | negSucc m =>
    have hsign : Number.splitSign ('-' :: Nat.toDigits 10 (m + 1)) = (true, Nat.toDigits 10 (m + 1)) := rfl
    rw [toList_toString_negSucc, Number.readInt?, hsign, readNat?_toDigits]
    rfl

/-- Every 64-bit integer reads as itself. -/
theorem Trait.readInt?_toString (v : Int64) : Trait.readInt? (toString v.toInt) = some v := by
  have hblank : ∀ c ∈ (toString v.toInt).toList, Text.isBlank c = false := by
    intro c hc
    rcases mem_toString_int hc with rfl | hdigit
    · rfl
    · exact isBlank_of_isDigit hdigit
  have htrim : (Text.trim (toString v.toInt)).toList = (toString v.toInt).toList := by
    rw [Text.trim, String.toList_ofList]
    exact trimBy_eq_self (fun c hc => hblank c (List.mem_of_head? hc)) fun c hc => hblank c (List.mem_of_getLast? hc)
  have hmark : ∀ c, c ≠ '-' → c.isDigit = false → c ∉ (toString v.toInt).toList := by
    intro c hc hdigit hmem
    rcases mem_toString_int hmem with rfl | h
    · exact hc rfl
    · rw [hdigit] at h
      cases h
  have hread : Number.readInt64? 10 (toString v.toInt).toList = some v := by
    have hlow := v.le_toInt
    have hhigh := v.toInt_lt
    have hrange : -Int.pow 2 63 ≤ v.toInt ∧ v.toInt < Int.pow 2 63 := ⟨hlow, hhigh⟩
    rw [Number.readInt64?, Number.readInt?_toString, Option.bind_some, Number.toInt64?, if_pos hrange, Int64.ofInt_toInt]
  unfold Trait.readInt?
  rw [htrim]
  split
  · rename_i hcs
    exact absurd (hcs ▸ by simp) (hmark 'x' (by decide) rfl)
  · rename_i hcs
    exact absurd (hcs ▸ by simp) (hmark 'X' (by decide) rfl)
  · exact hread

theorem Traits.getInt_of_first {earlier later : Traits} {key text : String} {v : Int64} (hearlier : ∀ t ∈ earlier, t.key ≠ key)
    (hvalue : Trait.readInt? text = some v) (default : Int64) :
    Traits.getInt (earlier ++ ⟨key, some text⟩ :: later) key default = v := by
  have hnone : earlier.find? (·.key == key) = none :=
    List.find?_eq_none.mpr fun t ht hkey => hearlier t ht (eq_of_beq hkey)
  have hfound : (Trait.mk key (some text) :: later).find? (·.key == key) = some ⟨key, some text⟩ :=
    List.find?_cons_of_pos (beq_self_eq_true key)
  rw [Traits.getInt, Traits.get?, List.find?_append, hnone, hfound, Option.none_or, Option.map_some, Option.bind_some,
    Option.getD_some, hvalue, Option.getD_some]

/-- A filler goes on with no word and no number. -/
theorem Filler.breaks {piece rest : List Char} (h : Filler piece rest) (more : List Char) :
    HeaderAtlas.breaks (piece ++ more) = true := by
  cases h with
  | blank _ hblank =>
    rewrite [List.singleton_append, HeaderAtlas.breaks, eq_false_of_isBlank (fun _ => isBlank_of_isWordChar) _ hblank, bne,
      beq_eq_false_of_isBlank hblank rfl]
    rfl
  | line | lastLine | comment | lastComment | directive | lastDirective => rfl

/-! ## The written list -/

namespace Annotation

/-- What may stand between two tokens: blanks, comments and directives, each of them ended. -/
structure Spacing where
  chars : List Char
  fillers : ∀ rest, Fillers chars rest

/-- Text between quotes, with neither its quote nor a backslash in it. -/
structure Quotation where
  quote : Char
  body : List Char
  isQuote : quote = '"' ∨ quote = '\''
  plain : ∀ c ∈ body, c ≠ quote ∧ c ≠ '\\'

/-- A key: a word or quoted text. -/
inductive Key where
  | word (name : String) (h : isIdentifier name = true)
  | quoted (q : Quotation)

/-- A value: quoted text or an integer. -/
inductive Value where
  | quoted (q : Quotation)
  | integer (v : Int64)

/-- A value behind an equals sign. -/
structure Assignment where
  before : Spacing
  behind : Spacing
  value : Value

/-- An entry of a trait list, as it is written between two commas. -/
structure Entry where
  lead : Spacing
  key : Key
  assigned : Option Assignment
  trail : Spacing

def Quotation.chars (q : Quotation) : List Char := q.quote :: (q.body ++ [q.quote])

def Key.chars : Key → List Char
  | .word name _ => name.toList
  | .quoted q => q.chars

def Value.chars : Value → List Char
  | .quoted q => q.chars
  | .integer v => (toString v.toInt).toList

def Assignment.chars (a : Assignment) : List Char := a.before.chars ++ ('=' :: (a.behind.chars ++ a.value.chars))

def Entry.chars (e : Entry) : List Char :=
  e.lead.chars ++ (e.key.chars ++ ((e.assigned.map Assignment.chars).getD [] ++ e.trail.chars))

/-- The characters of a trait list. -/
def chars (entries : List Entry) : List Char := '(' :: ([','].intercalate (entries.map Entry.chars) ++ [')'])

/-- An entry with this key answers for a name: the key is the name, or it is one of the two words that name a primitive type by
themselves and the name is the type's. -/
def Key.AnswersFor : Key → String → Prop
  | .word written _, name => written = name ∨ (written = "short" ∧ name = "int16_t") ∨ (written = "long" ∧ name = "int64_t")
  | .quoted q, name => String.ofList q.body = name

/-! ## What is read -/

/-- The name that is read for a key. -/
def Key.read : Key → String
  | .word name _ => soleName name
  | .quoted q => String.ofList q.body

/-- The text that is read for a value. -/
def Value.read : Value → String
  | .quoted q => String.ofList (restoreQuotes q.body)
  | .integer v => toString v.toInt

/-- The trait that is read for an entry. -/
def Entry.trait (e : Entry) : Trait := ⟨e.key.read, e.assigned.map fun a => a.value.read⟩

theorem Key.answersFor_of_read {k : Key} {name : String} (h : k.read = name) : k.AnswersFor name := by
  cases k with
  | quoted q => exact h
  | word written =>
    rw [read, soleName] at h
    split at h
    · exact .inr (.inl ⟨‹_›, h.symm⟩)
    · split at h
      · exact .inr (.inr ⟨‹_›, h.symm⟩)
      · exact .inl h

namespace Spacing

/-- Nothing between two tokens. -/
protected def none : Spacing := ⟨[], fun rest => .nil rest⟩

/-- One blank between two tokens. -/
protected def blank : Spacing := ⟨[' '], fun rest => .cons (.blank rest rfl) (.nil rest)⟩

variable (s : Spacing) {rest : List Char}

theorem gaps (hne : rest ≠ []) : Gaps s.chars rest := (s.fillers rest).gaps hne

/-- No word and no number goes on over a spacing. -/
theorem breaks (h : HeaderAtlas.breaks rest = true) : HeaderAtlas.breaks (s.chars ++ rest) = true := by
  have hfillers := s.fillers rest
  generalize s.chars = chars at hfillers
  cases hfillers with
  | nil => exact h
  | cons hpiece _ =>
    rw [List.append_assoc]
    exact hpiece.breaks _

/-- The token behind a spacing and in front of a mark is the mark. -/
theorem word_mark {symbol : Char} (hone : OneToken (.mark symbol) [symbol] rest) (q : Place) :
    (tokensFrom q (s.chars ++ symbol :: rest)).head?.bind Token.word? = none := by
  have hmark : tokensFrom (q.after s.chars) (symbol :: rest) = _ := hone _
  rw [tokensFrom_gaps (s.gaps (List.cons_ne_nil _ _)), hmark]
  rfl

end Spacing

/-- A mark that ends an entry is a token of its own. -/
theorem oneToken_entryEnd {symbol : Char} (h : symbol = ',' ∨ symbol = ')') (rest : List Char) :
    OneToken (.mark symbol) [symbol] rest ∧ HeaderAtlas.breaks (symbol :: rest) = true := by
  rcases h with rfl | rfl <;> exact ⟨oneToken_mark rfl rfl, rfl⟩

theorem Quotation.oneToken (q : Quotation) (rest : List Char) : OneToken (.quoted (String.ofList q.body)) q.chars rest :=
  oneToken_quoted q.isQuote rest q.plain

end Annotation

namespace Cursor

open Annotation

variable {c : Cursor} {p : Place} {symbol : Char} {rest : List Char}

/-- A key is read up to the mark behind it. -/
theorem takeTraitEntries_key (k : Key) (s : Spacing) (hone : OneToken (.mark symbol) [symbol] rest)
    (hbreaks : HeaderAtlas.breaks (symbol :: rest) = true) (h : c.StandsAt p (k.chars ++ (s.chars ++ symbol :: rest))) :
    ∃ q, c.advance.StandsAt q (symbol :: rest) ∧
      c.takeTraitEntries = (⟨k.read, c.advance.takeAssigned.1⟩ :: c.advance.takeAssigned.2.takeTraitEntries.1,
        c.advance.takeAssigned.2.takeTraitEntries.2) := by
  have hgaps : Gaps s.chars (symbol :: rest) := s.gaps (List.cons_ne_nil _ _)
  -- either kind of key is a token that is no mark
  obtain ⟨kind, hfaces, hkey, hmark, hnext⟩ : ∃ kind, c.Faces [kind] c.advance.unread ∧ c.traitKey? = some k.read ∧
      (∀ symbol, (kind == .mark symbol) = false) ∧ c.advance.StandsAt (p.after k.chars) (s.chars ++ symbol :: rest) := by
    cases k with
    | word name hname =>
      obtain ⟨hfaces, hnext⟩ := h.word (oneToken_word hname (s.breaks hbreaks)) (s.word_mark hone)
      exact ⟨_, hfaces, by rw [traitKey?, hfaces.cons.2.1]; rfl, fun _ => rfl, hnext⟩
    | quoted q =>
      obtain ⟨hfaces, -, hnext⟩ := h.token (q.oneToken _) rfl
      exact ⟨_, hfaces, by rw [traitKey?, hfaces.cons.2.1]; rfl, fun _ => rfl, hnext⟩
  refine ⟨_, hnext.gap hgaps, ?_⟩
  rw [takeTraitEntries, hfaces.cons.1, hfaces.sees, hfaces.sees, hmark, hmark, hkey]
  rfl

theorem takeTraitValue_of_head {first : String} {c' : Cursor} (h : (c.pass '-').takeValueHead = (some first, c'))
    (hcolon : c'.sees ':' = false) : c.takeTraitValue = (some (if c.sees '-' then "-" ++ first else first), c') := by
  rw [takeTraitValue, h]
  dsimp only
  rw [takeLooseParts_of_not_colon hcolon]
  rfl

/-- The mark that ends an entry goes on with no value. -/
theorem StandsAt.sees_entryEnd (hsymbol : symbol = ',' ∨ symbol = ')') (h : c.StandsAt p (symbol :: rest)) :
    c.sees ':' = false ∧ c.sees '=' = false := by
  have hfaces := (h.mark (oneToken_entryEnd hsymbol rest).1).1
  rw [hfaces.sees, hfaces.sees]
  rcases hsymbol with rfl | rfl <;> exact ⟨rfl, rfl⟩

theorem takeValueHead_digits {n : Nat} {more : List Char} (hmore : HeaderAtlas.breaks more = true)
    (h : c.StandsAt p (Nat.toDigits 10 n ++ more)) :
    c.sees '-' = false ∧ c.takeValueHead = (some (String.ofList (Nat.toDigits 10 n)), c.advance) ∧
      c.advance.StandsAt (p.after (Nat.toDigits 10 n)) more := by
  obtain ⟨hfaces, htext, hnext⟩ := h.token (oneToken_toDigits n hmore) rfl
  refine ⟨hfaces.sees '-', ?_, hnext⟩
  rw [takeValueHead, hfaces.cons.2.1]
  dsimp only
  rw [htext]
  rfl

/-- A value is read up to the mark that ends its entry. -/
theorem takeTraitValue_value (v : Value) (s : Spacing) (hsymbol : symbol = ',' ∨ symbol = ')')
    (h : c.StandsAt p (v.chars ++ (s.chars ++ symbol :: rest))) :
    ∃ (c' : Cursor) (q : Place), c.takeTraitValue = (some v.read, c') ∧ c'.StandsAt q (symbol :: rest) := by
  have hgaps : Gaps s.chars (symbol :: rest) := s.gaps (List.cons_ne_nil _ _)
  have hmore : HeaderAtlas.breaks (s.chars ++ symbol :: rest) = true := s.breaks (oneToken_entryEnd hsymbol rest).2
  cases v with
  | quoted q =>
    obtain ⟨hfaces, -, hnext⟩ := h.token (q.oneToken _) rfl
    have hminus : c.sees '-' = false := hfaces.sees '-'
    have hhead : (c.pass '-').takeValueHead = (some (String.ofList (restoreQuotes q.body)), c.advance) := by
      rw [pass, hminus, if_neg Bool.false_ne_true, takeValueHead, hfaces.cons.2.1]
      dsimp only
      rw [String.toList_ofList]
    refine ⟨c.advance, _, ?_, hnext.gap hgaps⟩
    rw [takeTraitValue_of_head hhead (StandsAt.sees_entryEnd hsymbol (hnext.gap hgaps)).1, hminus]
    rfl
  | integer v =>
    rw [Value.chars] at h
    rw [Value.read]
    cases hv : v.toInt with
    | ofNat n =>
      rw [hv, toList_toString_ofNat] at h
      obtain ⟨hminus, hvalue, hnext⟩ := takeValueHead_digits hmore h
      have hhead : (c.pass '-').takeValueHead = (some (String.ofList (Nat.toDigits 10 n)), c.advance) := by
        rw [pass, hminus, if_neg Bool.false_ne_true, hvalue]
      refine ⟨c.advance, _, ?_, hnext.gap hgaps⟩
      rw [takeTraitValue_of_head hhead (StandsAt.sees_entryEnd hsymbol (hnext.gap hgaps)).1, hminus, ← toList_toString_ofNat,
        String.ofList_toList]
      rfl
    | negSucc n =>
      rw [hv, toList_toString_negSucc] at h
      obtain ⟨hfaces, hdigits⟩ := h.mark (oneToken_mark rfl rfl)
      have hminus : c.sees '-' = true := hfaces.sees '-'
      obtain ⟨-, hvalue, hnext⟩ := takeValueHead_digits hmore hdigits
      have hhead : (c.pass '-').takeValueHead = (some (String.ofList (Nat.toDigits 10 (n + 1))), c.advance.advance) := by
        rw [pass, hminus, if_pos rfl, hvalue]
      have htext : "-" ++ String.ofList (Nat.toDigits 10 (n + 1)) = toString (Int.negSucc n) := by
        rewrite [← Nat.toList_repr, String.ofList_toList]
        rfl
      refine ⟨c.advance.advance, _, ?_, hnext.gap hgaps⟩
      rw [takeTraitValue_of_head hhead (StandsAt.sees_entryEnd hsymbol (hnext.gap hgaps)).1, hminus, if_pos rfl, htext]

/-- An entry is read up to the mark that ends it. -/
theorem takeTraitEntries_entry (e : Entry) (hsymbol : symbol = ',' ∨ symbol = ')') (h : c.StandsAt p (e.chars ++ symbol :: rest)) :
    ∃ (c' : Cursor) (q : Place), c'.StandsAt q (symbol :: rest) ∧
      c.takeTraitEntries = (e.trait :: c'.takeTraitEntries.1, c'.takeTraitEntries.2) := by
  obtain ⟨lead, key, assigned, trail⟩ := e
  obtain ⟨hone, hbreaks⟩ := oneToken_entryEnd hsymbol rest
  simp only [Entry.chars, List.append_assoc] at h
  have hkey := h.gap (lead.gaps (List.append_ne_nil_of_right_ne_nil _ (by simp)))
  cases assigned with
  | none =>
    obtain ⟨q, hnext, hread⟩ := takeTraitEntries_key key trail hone hbreaks hkey
    refine ⟨c.advance, q, hnext, ?_⟩
    rw [hread, takeAssigned, (hnext.sees_entryEnd hsymbol).2]
    rfl
  | some a =>
    simp only [Option.map_some, Option.getD_some, Assignment.chars, List.append_assoc, List.cons_append] at hkey
    have hequals : ∀ more, OneToken (.mark '=') ['='] more := fun more => oneToken_mark rfl rfl
    obtain ⟨q, hnext, hread⟩ := takeTraitEntries_key key a.before (hequals _) rfl hkey
    obtain ⟨hfaces, hbehind⟩ := hnext.mark (hequals _)
    obtain ⟨c', q', hvalue, hend⟩ := takeTraitValue_value a.value trail hsymbol
      (hbehind.gap (a.behind.gaps (List.append_ne_nil_of_right_ne_nil _ (by simp))))
    refine ⟨c', q', hend, ?_⟩
    rw [hread, takeAssigned, hfaces.sees, beq_self_eq_true, if_pos rfl, hvalue]
    rfl

/-- The entries are read up to the parenthesis behind them. -/
theorem takeTraitEntries_entries (entries : List Entry) :
    ∀ (c : Cursor) (p : Place), c.StandsAt p ([','].intercalate (entries.map Entry.chars) ++ ')' :: rest) →
      c.takeTraitEntries.1 = entries.map Entry.trait := by
  have hclose : ∀ (c : Cursor) (p : Place), c.StandsAt p (')' :: rest) → c.takeTraitEntries.1 = [] := by
    intro c p h
    rw [takeTraitEntries_close (h.mark (oneToken_mark rfl rfl)).1]
  induction entries with
  | nil => exact hclose
  | cons e entries ih =>
    intro c p h
    cases entries with
    | nil =>
      rw [List.map_singleton, List.intercalate_singleton] at h
      obtain ⟨c', q, hnext, hread⟩ := takeTraitEntries_entry e (.inr rfl) h
      rw [hread, hclose c' q hnext]
      rfl
    | cons f entries =>
      rw [List.map_cons, List.map_cons, List.intercalate_cons_cons, List.append_assoc, List.append_assoc] at h
      obtain ⟨c', q, hnext, hread⟩ := takeTraitEntries_entry e (.inl rfl) h
      obtain ⟨hcomma, hothers⟩ := hnext.mark (oneToken_mark rfl rfl)
      rw [hread, takeTraitEntries_comma hcomma, ih _ _ hothers]
      rfl

/-- A list of entries is read as their traits, wherever it stands. -/
theorem takeTraits_entries {before : List Char} {entries : List Entry} (hsource : c.source = before ++ (chars entries ++ rest))
    (hunread : c.unread <:+ tokens c.source) (hstart : c.unread.head?.map Token.start = some before.length) :
    c.takeTraits.1 = entries.map Entry.trait := by
  have hstands := standsAt_of_suffix hsource hunread hstart
  rw [chars, List.cons_append, List.append_assoc, List.singleton_append] at hstands
  obtain ⟨hopen, hentries⟩ := hstands.mark (oneToken_mark rfl rfl)
  rw [takeTraits, hopen.sees, beq_self_eq_true, if_pos rfl, takeTraitEntries_entries entries _ _ hentries]

end Cursor

open Annotation

/-- An integer written behind its key in a trait list is what the key gives, whatever the default, unless an earlier entry answers
for the key. -/
theorem getInt_takeTraits {c : Cursor} {before rest : List Char} {earlier later : List Entry} {key : String}
    (hkey : isIdentifier key = true) (hshort : key ≠ "short") (hlong : key ≠ "long") (lead front behind trail : Spacing) (v : Int64)
    (hearlier : ∀ e ∈ earlier, ¬e.key.AnswersFor key)
    (hsource : c.source =
      before ++ (chars (earlier ++ ⟨lead, .word key hkey, some ⟨front, behind, .integer v⟩, trail⟩ :: later) ++ rest))
    (hunread : c.unread <:+ tokens c.source) (hstart : c.unread.head?.map Token.start = some before.length) (default : Int64) :
    c.takeTraits.1.getInt key default = v := by
  have hname : soleName key = key := by rw [soleName, if_neg hshort, if_neg hlong]
  have htrait : Entry.trait ⟨lead, .word key hkey, some ⟨front, behind, .integer v⟩, trail⟩ = ⟨key, some (toString v.toInt)⟩ :=
    congrArg (Trait.mk · (some (toString v.toInt))) hname
  rw [Cursor.takeTraits_entries hsource hunread hstart, List.map_append, List.map_cons, htrait]
  refine Traits.getInt_of_first (fun t ht hanswers => ?_) (Trait.readInt?_toString v) default
  obtain ⟨e, he, rfl⟩ := List.mem_map.mp ht
  exact hearlier e he (Key.answersFor_of_read hanswers)

/-- The least integer, behind an entry that holds what looks like the key, a comment that does, and an entry named for a type. -/
theorem getInt_takeTraits_of_least :
    let c := (Cursor.ofText "REFLECTED(a = 'v=1)', // v = 2,\n long, v=-9223372036854775808 , v) long x").advance
    c.unread.head?.map Token.start = some 9 ∧ c.takeTraits.1.getInt "v" 7 = Int64.minValue := by
  intro c
  let remark : Spacing := ⟨[' '] ++ ('/' :: '/' :: (" v = 2,".toList ++ ['\n']) ++ ([' '] ++ [])), fun rest =>
    .cons (.blank _ rfl) (.cons (.line _ (by decide)) (.cons (.blank _ rfl) (.nil rest)))⟩
  let text : Quotation := ⟨'\'', "v=1)".toList, .inr rfl, fun c hc => by
    have hplain : "v=1)".toList.all (fun c => c != '\'' && c != '\\') = true := by decide
    simpa using List.all_eq_true.mp hplain c hc⟩
  let first : Entry := ⟨.none, .word "a" (by decide), some ⟨.blank, .blank, .quoted text⟩, .none⟩
  let second : Entry := ⟨remark, .word "long" (by decide), none, .none⟩
  let last : Entry := ⟨.blank, .word "v" (by decide), none, .none⟩
  have hstart : c.unread.head?.map Token.start = some 9 := by decide +kernel
  have hsource : c.source = "REFLECTED".toList ++ (chars ([first, second] ++
      ⟨.blank, .word "v" (by decide), some ⟨.none, .none, .integer Int64.minValue⟩, .blank⟩ :: [last]) ++ " long x".toList) := by
    decide +kernel
  refine ⟨hstart, getInt_takeTraits _ (by decide) (by decide) _ _ _ _ _ ?_ hsource (List.tail_suffix _) hstart 7⟩
  simp [first, second, Key.AnswersFor]

/-- The word `short` answers for the type it names, so an entry with that name behind it is not found. -/
theorem getInt_takeTraits_behind_short :
    let short : Entry := ⟨.none, .word "short" (by decide), none, .none⟩
    let width : Entry := ⟨.blank, .word "int16_t" (by decide), some ⟨.blank, .blank, .integer 5⟩, .none⟩
    short.key.chars ≠ width.key.chars ∧
      (Cursor.ofText (String.ofList (chars [short, width]))).takeTraits.1.getInt "int16_t" 7 ≠ 5 := by
  decide +kernel

end HeaderAtlas
