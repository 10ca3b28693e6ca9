import HeaderAtlas.Proofs.Member.Grammar

/-!
# Reading fields

A field is read as its grammar means it. The use of a type is read up to the token that ends it (`takeType_shows`). It is what a
member begins with, field or method (`takeMember_of_use`). Behind the name of a field stands a `;`, a length in brackets or a value,
and then the field is in the record of its type (`takeMember_field`).
-/

namespace HeaderAtlas

/-- A token that ends the use of a type: it is nothing that may stand behind a name and belong to it. -/
def Token.Kind.EndsType (kind : Token.Kind) : Prop :=
  kind ∉ [.mark ':', .mark '<', .mark '*', .mark '&', .mark '(', .word "const"]

/-- What ends a type is none of the tokens that go on with it. -/
theorem Token.Kind.EndsType.ne {kind other : Token.Kind} (h : kind.EndsType)
    (hother : other ∈ [.mark ':', .mark '<', .mark '*', .mark '&', .mark '(', .word "const"]) : kind ≠ other := by
  rintro rfl
  exact h hother

instance (kind : Token.Kind) : Decidable kind.EndsType := inferInstanceAs (Decidable (kind ∉ _))

/-- Any word but `const` ends a type. -/
theorem endsType_word {name : String} (h : name ≠ "const") : (Token.Kind.word name).EndsType := by
  simp only [Token.Kind.EndsType, List.mem_cons, reduceCtorEq, Token.Kind.word.injEq, List.not_mem_nil, or_false, false_or]
  exact h

/-- An ordinary name is not empty. -/
theorem Ordinary.ne_empty {options : ScanOptions} {name : String} (h : Ordinary options name) : name ≠ "" := by
  rintro rfl
  exact absurd h.identifier (by decide)

/-- An ordinary name is not `const`. -/
theorem Ordinary.ne_const {options : ScanOptions} {name : String} (h : Ordinary options name) : name ≠ "const" := by
  rintro rfl
  exact h.not_reserved (by decide)

/-- An ordinary name is not `operator`. -/
theorem Ordinary.ne_operator {options : ScanOptions} {name : String} (h : Ordinary options name) : name ≠ "operator" := by
  rintro rfl
  exact h.not_reserved (by decide)

/-- The first item behind the name of a type. A `const` of the pointer is not among them, for it stands behind stars. -/
theorem TypeUse.backItems_first {options : ScanOptions} (u : TypeUse options) (kind : Token.Kind) (items : List Item) :
    ∃ next items', u.backItems ++ .token kind :: items = .token next :: items' ∧
      (next = .mark '*' ∨ next = .mark '&' ∨ next = kind) := by
  obtain ⟨name, isConst, stars, isConstPointer, isReference, _, hpositive⟩ := u
  cases stars with
  | succ n => exact ⟨_, _, rfl, Or.inl rfl⟩
  | zero =>
    obtain rfl : isConstPointer = false := by
      cases isConstPointer with
      | true => exact absurd (hpositive rfl) (Nat.lt_irrefl 0)
      | false => rfl
    cases isReference with
    | true => exact ⟨_, _, rfl, Or.inr (Or.inl rfl)⟩
    | false => exact ⟨_, _, rfl, Or.inr (Or.inr rfl)⟩

/-- The first item of the use of a type. -/
theorem TypeUse.items_first {options : ScanOptions} (u : TypeUse options) (items : List Item) :
    ∃ first items', u.items ++ items = .word first :: items' ∧ (first = "const" ∨ first = u.name) := by
  unfold TypeUse.items TypeUse.frontItems
  cases u.isConst with
  | true => exact ⟨_, _, rfl, Or.inl rfl⟩
  | false => exact ⟨_, _, rfl, Or.inr rfl⟩

/-- Every marker is listed. -/
theorem mem_markerWords (m : Marker) : m.word ∈ markerWords := by
  cases m <;> decide

namespace Cursor

variable {c : Cursor} {items : List Item} {rest : List Token} {kind : Token.Kind}

/-! ## Uses of types -/

/-- A word that is not listed qualifies nothing. -/
theorem qualify?_of_not_mem {name : String} (h : name ∉ qualifierWords) (m : Modifiers) : m.qualify? name = none := by
  unfold Modifiers.qualify?
  split <;> simp_all [qualifierWords]

/-- A word that qualifies nothing ends the words in front of a type. -/
theorem takeQualifiers_of_word {name : String} (h : c.peek.kind = .word name) (hname : name ∉ qualifierWords) (m : Modifiers) :
    takeQualifiers m c = (m, c) := by
  have hword := word?_of_kind h
  rw [takeQualifiers]
  split
  · rfl
  · rename_i word hword'
    obtain rfl : name = word := Option.some.inj (hword.symm.trans hword')
    rw [qualify?_of_not_mem hname]

/-- A `const` in front is read and kept. -/
theorem takeQualifiers_const (h : c.peek.kind = .word "const") (m : Modifiers) :
    takeQualifiers m c = takeQualifiers { m with qualifiers := { m.qualifiers with isConst := true } } c.advance := by
  have hword := word?_of_kind h
  rw [takeQualifiers]
  split
  · rename_i hword'
    rw [hword] at hword'
    cases hword'
  · rename_i word hword'
    obtain rfl : "const" = word := Option.some.inj (hword.symm.trans hword')
    rfl

/-- Stars are read up to what is no star. -/
theorem takeStars_shows (hkind : kind ≠ .mark '*') :
    ∀ (n : Nat) {c : Cursor}, c.Shows (List.replicate n (.mark '*') ++ .token kind :: items) rest →
      ∃ ts, c.takeStars = (n, c.before ts) ∧ (c.before ts).Shows (.token kind :: items) rest := by
  intro n
  induction n with
  | zero =>
    intro c h
    have hsees : c.sees '*' = false := by
      rw [sees_of_kind h.token.2.1]
      exact beq_false_of_ne hkind
    refine ⟨c.unread, ?_, h⟩
    rw [takeStars, dif_neg (Bool.eq_false_iff.mp hsees)]
    rfl
  | succ n ih =>
    intro c h
    obtain ⟨-, hstar, hnext⟩ := h.token
    obtain ⟨ts, hstars, hshows⟩ := ih hnext
    have hsees : c.sees '*' = true := sees_of_kind hstar '*'
    refine ⟨ts, ?_, hshows⟩
    rw [takeStars, dif_pos hsees, hstars]
    rfl

/-- In front of a word that neither names a kind of type nor is `virtual`, the head of a type is its qualifiers and its name. -/
theorem takeTypeHead_of_word {first name : String} {m : Modifiers} {c' : Cursor} (h : c.peek.kind = .word first)
    (hkey : first ∉ ["class", "struct", "typename"]) (hvirtual : first ≠ "virtual") (hq : c.takeQualifiers {} = (m, c'))
    (hname : c'.typeWord? = some name) : c.takeTypeHead = (⟨m, false, some name⟩, c'.advance) := by
  have hkeyed : c.seesWordOf ["class", "struct", "typename"] = false := by
    rw [Reader.seesWordOf_of_kind h, ← Bool.not_eq_true, List.contains_iff_mem]
    exact hkey
  have hword : c.seesWord "virtual" = false := by
    rw [seesWord_of_kind h]
    simp [hvirtual]
  have htilde : c.sees '~' = false := sees_of_kind h '~'
  rw [takeTypeHead, hkeyed]
  simp only [Bool.false_eq_true, if_false, hword, passWord, htilde, pass, hq, hname]

/-- A word that may name a type does. -/
theorem typeWord?_of_kind {name : String} (h : c.peek.kind = .word name) (hname : name ∉ nonTypeWords) :
    c.typeWord? = some name := by
  rw [typeWord?, word?_of_kind h, Option.filter_some, if_pos]
  simp [hname]

/-- The words in front of a type and its name. -/
theorem takeTypeHead_shows {options : ScanOptions} (u : TypeUse options)
    (h : c.Shows (u.frontItems ++ .word u.name :: items) rest) :
    ∃ ts, c.takeTypeHead = (⟨{ qualifiers := { isConst := u.isConst } }, false, some u.name⟩, c.before ts) ∧
      (c.before ts).Shows items rest := by
  have hreserved := u.ordinary.not_reserved
  simp only [reservedWords, List.mem_append, not_or] at hreserved
  obtain ⟨⟨⟨-, hqualifier⟩, hkey⟩, htype⟩ := hreserved
  have hvirtual : u.name ≠ "virtual" := fun h => hqualifier (h ▸ by decide)
  unfold TypeUse.frontItems at h
  cases hconst : u.isConst with
  | true =>
    rw [hconst] at h
    obtain ⟨-, hfirst, hname⟩ := Shows.token h
    obtain ⟨-, hword, hitems⟩ := Shows.token hname
    have hq := (takeQualifiers_const hfirst {}).trans (takeQualifiers_of_word hword hqualifier _)
    have hhead := takeTypeHead_of_word hfirst (by decide) (by decide) hq (typeWord?_of_kind hword htype)
    exact ⟨_, hhead, hitems⟩
  | false =>
    rw [hconst] at h
    obtain ⟨-, hword, hitems⟩ := Shows.token h
    have hq := takeQualifiers_of_word hword hqualifier {}
    exact ⟨_, takeTypeHead_of_word hword hkey hvirtual hq (typeWord?_of_kind hword htype), hitems⟩

/-- What stands behind the name of a type, if it does not begin with `const`. -/
theorem takeTypeTail_of_stars {isConst isConstPointer isReference : Bool} {stars : Nat} {c' : Cursor}
    (hconst : c.seesWord "const" = false) (hstars : c.takeStars = (stars, c'))
    (hpointer : (decide (0 < stars) && c'.seesWord "const") = isConstPointer)
    (hreference : (if isConstPointer then c'.advance else c').sees '&' = isReference) :
    c.takeTypeTail { qualifiers := { isConst } } =
      ({ qualifiers := { isConst }, shape := { pointerDepth := stars, isReference, isConstPointer } },
        if isReference then (if isConstPointer then c'.advance else c').advance.pass '&'
        else if isConstPointer then c'.advance else c') := by
  rw [takeTypeTail]
  simp only [hconst, passWord, Bool.false_eq_true, if_false, hstars, Nat.zero_add, hpointer, hreference, Bool.or_false,
    Bool.false_or]

/-- A reference or none, in front of what is no reference. -/
theorem reference_shows {isReference : Bool} (hkind : kind ≠ .mark '&')
    (h : c.Shows ((if isReference then [.mark '&'] else []) ++ .token kind :: items) rest) :
    c.sees '&' = isReference ∧ ∃ ts, (if isReference then c.advance.pass '&' else c) = c.before ts ∧
      (c.before ts).Shows (.token kind :: items) rest := by
  have hend : ∀ {c : Cursor}, c.Shows (.token kind :: items) rest → c.sees '&' = false := by
    intro c h
    rw [sees_of_kind h.token.2.1]
    exact beq_false_of_ne hkind
  cases isReference with
  | true =>
    obtain ⟨-, hmark, hshows⟩ := Shows.token h
    refine ⟨sees_of_kind hmark _, c.advance.unread, ?_, hshows⟩
    rw [if_pos rfl, pass, hend hshows]
    rfl
  | false => exact ⟨hend h, c.unread, rfl, h⟩

/-- What stands behind the name of a type. -/
theorem takeTypeTail_shows {options : ScanOptions} (u : TypeUse options) (hkind : kind.EndsType)
    (h : c.Shows (u.backItems ++ .token kind :: items) rest) :
    ∃ ts, c.takeTypeTail { qualifiers := { isConst := u.isConst } } = (u.modifiers, c.before ts) ∧
      (c.before ts).Shows (.token kind :: items) rest := by
  have hfirst : c.seesWord "const" = false := by
    obtain ⟨next, items', hitems, hnext⟩ := u.backItems_first kind items
    rw [hitems] at h
    rw [seesWord_of_kind h.token.2.1, beq_eq_false_iff_ne]
    rcases hnext with rfl | rfl | rfl
    · decide
    · decide
    · exact hkind.ne (by decide)
  obtain ⟨name, isConst, stars, isConstPointer, isReference, _, hpositive⟩ := u
  simp only [TypeUse.backItems, List.append_assoc, TypeUse.modifiers] at h ⊢
  cases isConstPointer with
  | true =>
    obtain ⟨ts, hstars, hword⟩ := takeStars_shows (by decide) stars h
    obtain ⟨-, hword', hreference⟩ := Shows.token hword
    obtain ⟨hsees, ts', hcursor, hend⟩ := reference_shows (hkind.ne (by decide)) hreference
    have hpointer : (decide (0 < stars) && (c.before ts).seesWord "const") = true := by
      rw [seesWord_of_kind hword', decide_eq_true (hpositive rfl)]
      rfl
    exact ⟨ts', by rw [takeTypeTail_of_stars hfirst hstars hpointer hsees, if_pos rfl, hcursor]; rfl, hend⟩
  | false =>
    -- the token behind the stars is no star and no `const`
    obtain ⟨next, items', hitems, hnextStar, hnextConst⟩ : ∃ next items',
        (if isReference then [Item.mark '&'] else []) ++ .token kind :: items = .token next :: items' ∧
          next ≠ .mark '*' ∧ next ≠ .word "const" := by
      cases isReference with
      | true => exact ⟨_, _, rfl, by decide, by decide⟩
      | false => exact ⟨_, _, rfl, hkind.ne (by decide), hkind.ne (by decide)⟩
    simp only [Bool.false_eq_true, if_false, List.nil_append] at h
    rw [hitems] at h
    obtain ⟨ts, hstars, hnext⟩ := takeStars_shows hnextStar stars h
    have hpointer : (decide (0 < stars) && (c.before ts).seesWord "const") = false := by
      rw [seesWord_of_kind hnext.token.2.1, beq_false_of_ne hnextConst, Bool.and_false]
    rw [← hitems] at hnext
    obtain ⟨hsees, ts', hcursor, hend⟩ := reference_shows (hkind.ne (by decide)) hnext
    exact ⟨ts', by rw [takeTypeTail_of_stars hfirst hstars hpointer hsees]; exact congrArg _ hcursor, hend⟩

/-- A name has no further parts where no `:` follows. -/
theorem takeParts_of_kind (h : c.peek.kind = kind) (hkind : kind ≠ .mark ':') : c.takeParts = ([], c) := by
  have hsees : c.sees ':' = false := by
    rw [sees_of_kind h]
    exact beq_false_of_ne hkind
  rw [takeParts, atScope, hsees]
  rfl

end Cursor

/-- The use of a type as it is read. -/
def TypeUse.expr {options : ScanOptions} (u : TypeUse options) (c : Catalog) : TypeExpr where
  type := c.lookup u.name
  name := u.name
  modifiers := u.modifiers

namespace Reader

variable {options : ScanOptions} {r : Reader} {items : List Item} {rest : List Token} {kind : Token.Kind}

/-- The use of a type is read up to the token that ends it, and nothing is recorded. -/
theorem takeType_shows (u : TypeUse options) (context : Option TypeId) (hkind : kind.EndsType)
    (h : r.cursor.Shows (u.items ++ .token kind :: items) rest) :
    ∃ ts, r.takeType context = (u.expr r.catalog, r.moveTo (r.cursor.before ts)) ∧
      (r.cursor.before ts).Shows (.token kind :: items) rest := by
  simp only [TypeUse.items, List.append_assoc, List.cons_append] at h
  obtain ⟨ts, hhead, hback⟩ := Cursor.takeTypeHead_shows u h
  obtain ⟨ts', htail, hend⟩ := Cursor.takeTypeTail_shows u hkind hback
  obtain ⟨next, items', hitems, hnext⟩ := u.backItems_first kind items
  rw [hitems] at hback
  have hpeek := hback.token.2.1
  have hne : next ≠ .mark ':' ∧ next ≠ .mark '<' ∧ next ≠ .mark '(' := by
    rcases hnext with rfl | rfl | rfl
    · decide
    · decide
    · exact ⟨hkind.ne (by decide), hkind.ne (by decide), hkind.ne (by decide)⟩
  have hspecial : r.atSpecial context u.name (r.cursor.before ts) = false := by
    rw [atSpecial, Cursor.sees_of_kind hpeek, beq_false_of_ne hne.2.2, Bool.and_false]
  have hangle : (r.cursor.before ts).sees '<' = false := by
    rw [Cursor.sees_of_kind hpeek]
    exact beq_false_of_ne hne.2.1
  have hparts := Cursor.takeParts_of_kind hpeek hne.1
  refine ⟨ts', ?_, hend⟩
  rw [takeType]
  dsimp only
  split
  · rename_i hnone
    rw [hhead] at hnone
    cases hnone
  · rename_i word hword
    rw [hhead] at hword ⊢
    obtain rfl : u.name = word := Option.some.inj hword
    simp only [hspecial, hparts, hangle, Bool.false_eq_true, if_false]
    rw [TypeHead.named]
    simp only [List.foldl_nil, Bool.false_eq_true, if_false, htail]
    rfl

/-! ## The head of a member -/

/-- The head of a member without decorations. -/
def plainHead (e : TypeExpr) (name : String) (traits : Traits) : MemberHead :=
  { type := e, name, traits, bitSource := none, apiWord := none, convention := none }

/-- A member of which the annotation is known and the type is declared goes on with its name. -/
theorem takeMember_of_type {scope : Scope} {traits : Option Traits} {c : Cursor} {e : TypeExpr} {r' : Reader}
    (hhidden : r.cursor.seesMarker .hidden = false) (hannotated : takeMemberTraits r.cursor = (traits, c))
    (hbits : c.seesMarker .bitFlags = false) (hapi : c.seesWordOf options.apiWords = false)
    (htype : (r.moveTo c).takeType scope.enclosing = (e, r')) (he : e.type.isSome = true) :
    r.takeMember options scope =
      r'.takeNamedMember options scope c.peek.location traits.isSome (plainHead e "" (traits.getD [])) := by
  have hnone : e.type.isNone = false := by
    rw [← Option.not_isSome, he]
    rfl
  have hempty : e.isEmpty = false := by rw [TypeExpr.isEmpty, hnone, Bool.and_false]
  simp only [moveTo] at htype
  rw [takeMember, hhidden, if_neg Bool.false_ne_true]
  simp only [hannotated, moveTo, hbits, Bool.false_eq_true, if_false, Cursor.takeApiWord, hapi, htype, hempty, hnone,
    Bool.false_and, Bool.or_self]
  rfl

/-- A word in front is no convention, and so none is read. -/
theorem takeConvention_of_word {c : Cursor} {name : String} (h : c.peek.kind = .word name) (hname : name ∉ options.conventions) :
    c.takeConvention options none = (none, c) := by
  have hword := Cursor.word?_of_kind h
  rw [Cursor.takeConvention]
  split
  · rfl
  · rename_i word hword'
    obtain rfl : name = word := Option.some.inj (hword.symm.trans hword')
    rw [if_neg]
    rw [List.contains_iff_mem]
    exact hname

/-- A member that is neither constructor nor destructor goes on behind its name. -/
theorem takeNamedMember_of_name {scope : Scope} {location : Location} {isAnnotated : Bool} {head : MemberHead} {first name : String}
    {c' : Cursor} (hplain : head.type.modifiers.decorations = {}) (hconvention : head.convention = none)
    (hfirst : r.cursor.peek.kind = .word first) (hword : first ∉ options.conventions)
    (hname : r.cursor.takeMemberName = (some name, c')) :
    r.takeNamedMember options scope location isAnnotated head =
      (r.moveTo c').takeMemberBody scope isAnnotated { head with name } := by
  rw [takeNamedMember]
  simp only [hplain, Bool.or_self, Bool.false_eq_true, if_false, takeConvention_of_word hfirst hword, hname, hconvention]

/-- A word names a member, unless it is `operator`. -/
theorem takeMemberName_of_word {c : Cursor} {name : String} (h : c.peek.kind = .word name) (hname : name ≠ "operator") :
    c.takeMemberName = (some name, c.advance) := by
  rw [Cursor.takeMemberName, Cursor.takeWord_of_kind h]
  simp [hname]

/-- The use of a type begins neither with a marker nor with a decoration. -/
theorem not_seen_of_use (u : TypeUse options) (hconst : "const" ∉ options.apiWords) {c : Cursor}
    (h : c.Shows (u.items ++ items) rest) :
    (∀ m : Marker, c.seesMarker m = false) ∧ c.seesWordOf options.apiWords = false := by
  obtain ⟨first, items', hitems, hfirst⟩ := u.items_first items
  rw [hitems] at h
  have hpeek := h.token.2.1
  have hreserved : first ∉ markerWords ∧ first ∉ options.apiWords := by
    rcases hfirst with rfl | rfl
    · exact ⟨by decide, hconst⟩
    · have hreserved := u.ordinary.not_reserved
      simp only [reservedWords, List.mem_append, not_or] at hreserved
      exact ⟨hreserved.1.1.1, u.ordinary.not_api⟩
  constructor
  · intro m
    rw [Cursor.seesMarker, Cursor.seesWord_of_kind hpeek, beq_eq_false_iff_ne]
    intro heq
    obtain rfl := Token.Kind.word.inj heq
    exact hreserved.1 (mem_markerWords m)
  · rw [seesWordOf_of_kind hpeek, ← Bool.not_eq_true, List.contains_iff_mem]
    exact hreserved.2

/-- A member in which the use of a declared type follows the annotation goes on with its name. -/
theorem takeMember_of_use (u : TypeUse options) {scope : Scope} {id : TypeId} {traits : Option Traits} {c : Cursor}
    (hconst : "const" ∉ options.apiWords) (hid : r.catalog.lookup u.name = some id) (hkind : kind.EndsType)
    (hhidden : r.cursor.seesMarker .hidden = false) (hannotated : takeMemberTraits r.cursor = (traits, c))
    (h : c.Shows (u.items ++ .token kind :: items) rest) :
    ∃ ts location, r.takeMember options scope =
        (r.moveTo (c.before ts)).takeNamedMember options scope location traits.isSome
          (plainHead (u.expr r.catalog) "" (traits.getD [])) ∧
      c.Onward (c.before ts) ∧ (c.before ts).Shows (.token kind :: items) rest := by
  obtain ⟨ts, htype, hnext⟩ := takeType_shows (r := r.moveTo c) u scope.enclosing hkind h
  obtain ⟨hmarker, hapi⟩ := not_seen_of_use u hconst h
  have hdeclared : (u.expr r.catalog).type.isSome = true := by
    rw [TypeUse.expr, hid]
    rfl
  have honward := onward_takeType scope.enclosing (r.moveTo c)
  rw [htype] at honward
  have hmember := takeMember_of_type hhidden hannotated (hmarker _) hapi htype hdeclared
  exact ⟨ts, _, hmember, honward, hnext⟩

/-- Without a marker in front there is no annotation. -/
theorem takeMemberTraits_none {c : Cursor} (h : ∀ m : Marker, c.seesMarker m = false) : takeMemberTraits c = (none, c) := by
  rw [takeMemberTraits, h, h, h]
  rfl

/-! ## Fields -/

/-- A `;` is the rest of a statement. -/
theorem skipStatement_of_semicolon {c : Cursor} (h : c.peek.kind = .mark ';') : c.skipStatement = c.advance := by
  obtain ⟨source, unread, finish⟩ := c
  cases unread with
  | nil => cases h
  | cons t ts =>
    have ht : t.kind = .mark ';' := h
    rw [Cursor.skipStatement, Cursor.afterStatement, isMark_of_kind ht]
    rfl

/-- A declared type is used as it is. -/
theorem use_of_some {e : TypeExpr} {id : TypeId} (h : e.type = some id) (r : Reader) (name : String) :
    r.use e name = (e.property id name, r) := by
  rw [use, h]

/-- What a field adds to the type around it. -/
def addField {options : ScanOptions} (f : FieldDeclaration options) (id : TypeId) (d : TypeDef) : TypeDef :=
  { d with properties := d.properties ++ [f.property id] }

/-- The property that a member head declares, if its type has this handle. -/
def headProperty (scope : Scope) (head : MemberHead) (id : TypeId) : Property :=
  { head.type.property id head.name with
    modifiers := { head.type.modifiers with visibility := scope.visibility }
    traits := head.traits
    bitSource := head.bitSource }

/-- One field without another behind it. -/
theorem takeFields_single {scope : Scope} {head : MemberHead} {id : TypeId} {value : Option String} {c' : Cursor}
    (hid : head.type.type = some id) (hvalue : r.cursor.takeInitial = (value, c')) (hend : c'.peek.kind = .mark ';') :
    r.takeFields scope head =
      (((r.moveTo c').addProperty scope { headProperty scope head id with defaultText := value })).skipStatement := by
  have hcomma : c'.sees ',' = false := Cursor.sees_of_kind hend _
  have hfields : r.cursor.takeDeclarators head.name head.type.modifiers.shape =
      ([⟨head.name, head.type.modifiers.shape, value⟩], c') := by
    rw [Cursor.takeDeclarators]
    simp only [hvalue, hcomma, Bool.false_eq_true, dif_neg, not_false_eq_true]
  rw [takeFields, hfields]
  dsimp only
  rw [List.foldl_cons, List.foldl_nil, addDeclarator]
  dsimp only
  rw [memberProperty, use_of_some (by exact hid)]
  rfl

/-- A length up to the largest that a number can say. -/
theorem lengthOf_ofNat {n : Nat} (h : n < Nat.pow 2 63) : lengthOf (.ofNat n) = n := by
  rw [lengthOf, Int64.toInt_ofNat_of_lt h]
  rfl

/-- The length of an array ends at its `]`. -/
theorem moveTo_afterArrayLength {c : Cursor} (h : c.peek.kind = .mark ']') :
    { c with unread := Cursor.afterArrayLength c.unread } = c.advance := by
  obtain ⟨source, unread, finish⟩ := c
  cases unread with
  | nil => cases h
  | cons t ts =>
    have ht : t.kind = .mark ']' := h
    rw [Cursor.afterArrayLength, isMark_of_kind ht, isMark_of_kind ht]
    rfl

/-- An array with a number for its length. -/
theorem takeArray_of_length {scope : Scope} {head : MemberHead} {id : TypeId} {length : Int64}
    (hid : head.type.type = some id)
    (h : r.cursor.Shows (.mark '[' :: .token (.int length) :: .mark ']' :: .mark ';' :: items) rest) :
    r.takeArray scope head =
      ((r.moveTo r.cursor.advance.advance.advance).addProperty scope
        { headProperty scope head id with arrayLength := some (lengthOf length) }).skipStatement := by
  obtain ⟨-, -, hlength⟩ := h.token
  obtain ⟨-, hint, hclose⟩ := hlength.token
  obtain ⟨-, hbracket, hsemicolon⟩ := hclose.token
  obtain ⟨-, hend, -⟩ := hsemicolon.token
  have htake : r.advance.takeLength head.name = (lengthOf length, r.advance.advance) := by
    rw [takeLength, show r.advance.cursor.peek.kind = .int length from hint]
  have hafter := moveTo_afterArrayLength hbracket
  have hvalue : r.cursor.advance.advance.advance.sees '=' = false := Cursor.sees_of_kind hend _
  rw [takeArray, htake]
  dsimp only
  rw [show r.advance.advance.cursor = r.cursor.advance.advance from rfl, hafter, memberProperty, use_of_some hid]
  dsimp only
  rw [show (r.advance.advance.moveTo r.cursor.advance.advance.advance).cursor = r.cursor.advance.advance.advance from rfl,
    hvalue]
  rfl

/-- A field of which the head has been read is recorded, and reading goes on behind its `;`. -/
theorem takeMemberBody_field (f : FieldDeclaration options) {owner id : TypeId} {depth : Nat} (hc : r.cursor.Lined)
    (hid : r.catalog.lookup f.type.name = some id) (h : r.cursor.Shows (f.ending.items ++ items) rest) :
    ∃ r' ts, r.takeMemberBody ⟨some owner, .publicAccess, depth⟩ false (plainHead (f.type.expr r.catalog) f.name []) = r' ∧
      r'.catalog = r.catalog.edit owner (addField f id) ∧ r'.cursor = r.cursor.before ts ∧
      (r.cursor.before ts).Shows items rest := by
  suffices hread : ∃ ts, (r.cursor.before ts).Shows (.mark ';' :: items) rest ∧
      r.takeMemberBody ⟨some owner, .publicAccess, depth⟩ false (plainHead (f.type.expr r.catalog) f.name []) =
        ((r.moveTo (r.cursor.before ts)).addProperty ⟨some owner, .publicAccess, depth⟩ (f.property id)).skipStatement by
    obtain ⟨ts, hsemicolon, hread⟩ := hread
    obtain ⟨-, hkind, hitems⟩ := hsemicolon.token
    exact ⟨_, _, hread, rfl, skipStatement_of_semicolon hkind, hitems⟩
  unfold FieldDeclaration.property takeMemberBody
  cases hending : f.ending with
  | plain =>
    rw [hending] at h
    obtain ⟨-, hkind, -⟩ := Cursor.Shows.token h
    have hinitial : r.cursor.takeInitial = (none, r.cursor) := by
      rw [Cursor.takeInitial, Cursor.sees_of_kind hkind, Cursor.sees_of_kind hkind]
      rfl
    refine ⟨r.cursor.unread, h, ?_⟩
    rw [Cursor.sees_of_kind hkind, Cursor.sees_of_kind hkind]
    exact takeFields_single (by exact hid) hinitial hkind
  | array length hlength =>
    rw [hending] at h
    obtain ⟨-, hkind, hnumber⟩ := Cursor.Shows.token h
    obtain ⟨-, -, hclose⟩ := hnumber.token
    obtain ⟨-, -, hsemicolon⟩ := hclose.token
    refine ⟨_, hsemicolon, ?_⟩
    rw [Cursor.sees_of_kind hkind, Cursor.sees_of_kind hkind]
    refine (takeArray_of_length (by exact hid) h).trans ?_
    rw [lengthOf_ofNat hlength]
    rfl
  | value text hvalue =>
    rw [hending] at h
    obtain ⟨-, hkind, htext⟩ := Cursor.Shows.token h
    obtain ⟨ts, hcapture, hsemicolon⟩ := Cursor.Shows.value [',', ';'] (hc.onward (.of_suffix (List.tail_suffix _)))
      htext (by simp [Cursor.isOpener]) (by decide)
    have hinitial : r.cursor.takeInitial = (some text, r.cursor.before ts) := by
      rw [Cursor.takeInitial, Cursor.sees_of_kind hkind]
      exact hcapture
    refine ⟨ts, hsemicolon, ?_⟩
    rw [Cursor.sees_of_kind hkind, Cursor.sees_of_kind hkind]
    exact takeFields_single (by exact hid) hinitial hsemicolon.token.2.1

/-- A field in the body of a type is recorded as the last property of the type, and reading goes on behind it. -/
theorem takeMember_field (f : FieldDeclaration options) (owner : TypeId) (depth : Nat) {id : TypeId} (hc : r.cursor.Lined)
    (hconst : "const" ∉ options.apiWords) (hid : r.catalog.lookup f.type.name = some id)
    (h : r.cursor.Shows (f.items ++ items) rest) :
    ∃ r' ts, r.takeMember options ⟨some owner, .publicAccess, depth⟩ = r' ∧
      r'.catalog = r.catalog.edit owner (addField f id) ∧ r'.cursor = r.cursor.before ts ∧
      (r.cursor.before ts).Shows items rest := by
  rw [FieldDeclaration.items, List.append_assoc, List.cons_append] at h
  obtain ⟨hmarker, -⟩ := not_seen_of_use f.type hconst h
  obtain ⟨ts, location, hmember, honward, hname⟩ :=
    takeMember_of_use f.type hconst hid (endsType_word f.ordinary.ne_const) (hmarker _) (takeMemberTraits_none hmarker) h
  obtain ⟨-, hword, hending⟩ := hname.token
  have hlined := hc.onward (honward.trans (.of_suffix (List.tail_suffix _)))
  obtain ⟨r', ts', hread, hcatalog, hcursor, hitems⟩ :=
    takeMemberBody_field (r := r.moveTo (r.cursor.before ts).advance) f hlined hid hending
  refine ⟨r', ts', ?_, hcatalog, hcursor, hitems⟩
  rw [hmember, takeNamedMember_of_name rfl rfl hword f.ordinary.not_convention (takeMemberName_of_word hword f.ordinary.ne_operator)]
  exact hread

end Reader

end HeaderAtlas
