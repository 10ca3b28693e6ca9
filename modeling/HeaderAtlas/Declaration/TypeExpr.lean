import HeaderAtlas.Declaration.Name
import HeaderAtlas.Declaration.Reader

/-!
# Type expressions

The use of a type as it is written, such as `const std::vector<Foo*>&`: words in front, a name with further parts behind `::`,
template arguments, pointers and references. In the body of a type, the type's own name with a parenthesis behind it is no use of
the type but a constructor, or with `~` in front a destructor.
-/

namespace HeaderAtlas

/-- The use of a type, read. -/
structure TypeExpr where
  /-- The type, if the name is declared. -/
  type : Option TypeId := none
  /-- The name as it is written, with its parts and a `~` in front. -/
  name : String := ""
  modifiers : Modifiers := {}
  templateArgs : List TemplateArg := []

namespace TypeExpr

/-- No name was read. -/
def isEmpty (e : TypeExpr) : Bool := e.name == "" && e.type.isNone

/-- The use of a type under a name. -/
def property (e : TypeExpr) (type : TypeId) (name : String) : Property :=
  { name, type, modifiers := e.modifiers, templateArgs := e.templateArgs }

end TypeExpr

/-- Words that begin a statement and never name a type. -/
def nonTypeWords : List String :=
  ["typedef", "using", "friend", "template", "namespace", "return", "operator", "enum", "union", "public", "private",
   "protected", "static_assert"]

/-- The modifiers with a word in front of a type taken in; none if it is no such word. -/
def Modifiers.qualify? (m : Modifiers) : String → Option Modifiers
  | "static" => some { m with qualifiers := { m.qualifiers with isStatic := true } }
  | "const" => some { m with qualifiers := { m.qualifiers with isConst := true } }
  | "constexpr" => some { m with qualifiers := { m.qualifiers with isConstexpr := true } }
  | "mutable" => some { m with qualifiers := { m.qualifiers with isMutable := true } }
  | "volatile" => some { m with qualifiers := { m.qualifiers with isVolatile := true } }
  | "transient" => some { m with qualifiers := { m.qualifiers with isTransient := true } }
  | "virtual" => some { m with decorations := { m.decorations with isVirtual := true } }
  | "inline" | "explicit" | "extern" => some m
  | _ => none

/-- What stands in front of the further parts of a type's name. -/
structure TypeHead where
  modifiers : Modifiers
  /-- There is a `~` in front of the name. -/
  isDestructor : Bool
  word : Option String
  deriving DecidableEq, Repr

/-- What stands at a place among template arguments. -/
inductive ArgItem where
  | close
  | minus
  | int (value : Int64)
  | word
  | other (kind : Token.Kind)
  deriving DecidableEq, Repr

/-- What a token is among template arguments. -/
def Token.Kind.argItem : Token.Kind → ArgItem
  | .mark symbol => if symbol = '>' then .close else if symbol = '-' then .minus else .other (.mark symbol)
  | .int value => .int value
  | .word _ => .word
  | kind => .other kind

/-- The integer a token is. -/
def Token.Kind.int? : Token.Kind → Option Int64
  | .int value => some value
  | _ => none

namespace Cursor

/-- The words in front of a type, read. -/
def takeQualifiers (m : Modifiers) (c : Cursor) : Modifiers × Cursor :=
  match _h : c.peek.word? with
  | none => (m, c)
  | some word =>
    match m.qualify? word with
    | some m => takeQualifiers m c.advance
    | none => (m, c)
termination_by c.remaining
decreasing_by exact remaining_advance_lt (not_atEnd_of_word _h)

theorem remaining_takeQualifiers_le (m : Modifiers) (c : Cursor) : (takeQualifiers m c).2.remaining ≤ c.remaining := by
  fun_induction takeQualifiers m c with
  | case1 => exact Nat.le_refl _
  | case2 _ c _ _ _ _ ih => exact Nat.le_trans ih c.remaining_advance_le
  | case3 => exact Nat.le_refl _

/-- The word in front of the cursor, if it may name a type. -/
def typeWord? (c : Cursor) : Option String := c.peek.word?.filter fun word => !nonTypeWords.contains word

/-- The head of a type expression, read. -/
def takeTypeHead (c : Cursor) : TypeHead × Cursor :=
  let keyed := if c.seesWordOf ["class", "struct", "typename"] then c.advance else c
  let isVirtual := keyed.seesWord "virtual"
  let marked := keyed.passWord "virtual"
  let isDestructor := marked.sees '~'
  let q := (marked.pass '~').takeQualifiers { decorations := { isVirtual } }
  match q.2.typeWord? with
  | some word => (⟨q.1, isDestructor, some word⟩, q.2.advance)
  | none => (⟨q.1, isDestructor, none⟩, q.2)

/-- The head of a type expression with a name has at least one token. -/
theorem remaining_takeTypeHead_lt {c : Cursor} {word : String} (h : c.takeTypeHead.1.word = some word) :
    c.takeTypeHead.2.remaining < c.remaining := by
  have hk : (if c.seesWordOf ["class", "struct", "typename"] then c.advance else c).remaining ≤ c.remaining := by
    split
    · exact c.remaining_advance_le
    · exact Nat.le_refl _
  revert h
  rw [takeTypeHead]
  generalize (if c.seesWordOf ["class", "struct", "typename"] then c.advance else c) = keyed at hk
  have h₁ := keyed.remaining_passWord_le "virtual"
  have h₂ := (keyed.passWord "virtual").remaining_pass_le '~'
  have h₃ := remaining_takeQualifiers_le { decorations := { isVirtual := keyed.seesWord "virtual" } }
    ((keyed.passWord "virtual").pass '~')
  split
  · rename_i hw
    intro _
    obtain ⟨hw, -⟩ := Option.filter_eq_some_iff.mp hw
    have h₄ := remaining_advance_lt (not_atEnd_of_word hw)
    dsimp only
    omega
  · intro h
    cases h

/-- The stars in front of the cursor, read and counted. -/
def takeStars (c : Cursor) : Nat × Cursor :=
  if _h : c.sees '*' = true then
    let rest := takeStars c.advance
    (rest.1 + 1, rest.2)
  else (0, c)
termination_by c.remaining
decreasing_by exact remaining_advance_lt (not_atEnd_of_sees _h)

theorem remaining_takeStars_le (c : Cursor) : c.takeStars.2.remaining ≤ c.remaining := by
  fun_induction takeStars c with
  | case1 c _ _ ih => exact Nat.le_trans ih c.remaining_advance_le
  | case2 => exact Nat.le_refl _

/-- What stands behind the name of a type and its arguments, read: `const`, stars, `const` for the pointer, `&` or `&&`. -/
def takeTypeTail (m : Modifiers) (c : Cursor) : Modifiers × Cursor :=
  let isConst := c.seesWord "const"
  let stars := (c.passWord "const").takeStars
  let depth := m.shape.pointerDepth + stars.1
  let isConstPointer := 0 < depth && stars.2.seesWord "const"
  let pointed := if isConstPointer then stars.2.advance else stars.2
  let isReference := pointed.sees '&'
  let referred := if isReference then pointed.advance.pass '&' else pointed
  ({ m with
     qualifiers := { m.qualifiers with isConst := m.qualifiers.isConst || isConst }
     shape := { pointerDepth := depth
                isReference := m.shape.isReference || isReference
                isConstPointer := m.shape.isConstPointer || isConstPointer } }, referred)

end Cursor

namespace Reader

/-- The use of a type under a name; an undeclared type gets its placeholder. -/
def use (r : Reader) (e : TypeExpr) (name : String) : Property × Reader :=
  match e.type with
  | some id => (e.property id name, r)
  | none =>
    let p := r.placeholderFor e.name
    (e.property p.1 name, p.2)

/-- The type of what returns nothing. -/
def voidType (r : Reader) : TypeId × Reader := r.refer "void"

/-- A constructor or destructor: it is named for its type and returns nothing. -/
def special (r : Reader) (head : TypeHead) (word : String) : TypeExpr × Reader :=
  let void := r.voidType
  let d := head.modifiers.decorations
  let decorations :=
    if head.isDestructor then { d with isDestructor := true } else { d with isConstructor := true }
  ({ type := some void.1
     name := if head.isDestructor then "~" ++ word else word
     modifiers := { head.modifiers with decorations } }, void.2)

end Reader

/-- A name with one more part, and what is declared under the longer name or else under the part alone. -/
def addPart (c : Catalog) (named : String × Option TypeId) (part : String) : String × Option TypeId :=
  let name := named.1 ++ "::" ++ part
  (name, match c.lookup name with
    | some id => some id
    | none => c.lookup part)

/-- A type expression of which the name has been read. -/
def TypeHead.named (head : TypeHead) (c : Catalog) (word : String) (parts : List String) : TypeExpr :=
  let first := if head.isDestructor then "~" ++ word else word
  let named := parts.foldl (addPart c) (first, c.lookup word)
  { type := named.2, name := named.1, modifiers := head.modifiers }

namespace Reader

/-- The reader stands behind the type's own name in its body, and a parenthesis follows. -/
def atSpecial (r : Reader) (context : Option TypeId) (word : String) (behind : Cursor) : Bool :=
  context.isSome && r.catalog.lookup word == context && behind.sees '('

mutual

/-- A type expression, read. The context is the type in whose body it stands. -/
def takeType (context : Option TypeId) (r : Reader) : TypeExpr × Reader :=
  let head := r.cursor.takeTypeHead
  match _h : head.1.word with
  | none => ({ modifiers := head.1.modifiers }, r.moveTo head.2)
  | some word =>
    if r.atSpecial context word head.2 then (r.moveTo head.2).special head.1 word
    else
      let parts := head.2.takeParts
      let e := head.1.named r.catalog word parts.1
      if parts.2.sees '<' then
        let args := takeTemplateArgs (r.moveTo parts.2.advance)
        let tail := args.2.cursor.takeTypeTail e.modifiers
        ({ e with modifiers := tail.1, templateArgs := args.1 }, args.2.moveTo tail.2)
      else
        let tail := parts.2.takeTypeTail e.modifiers
        ({ e with modifiers := tail.1 }, r.moveTo tail.2)
termination_by 2 * r.remaining
decreasing_by
  have h₁ := Cursor.remaining_takeTypeHead_lt _h
  have h₂ := r.cursor.takeTypeHead.2.remaining_takeParts_le
  have h₃ := r.cursor.takeTypeHead.2.takeParts.2.remaining_advance_le
  exact stage_lt_of_lt (Nat.lt_of_le_of_lt h₃ (Nat.lt_of_le_of_lt h₂ h₁)) 2 1 0 (by decide)

/-- Template arguments behind `<`, read with the `>` that closes them. The negative of a number wraps around, as it does where overflow
is not checked: that of the least number is the number itself. -/
def takeTemplateArgs (r : Reader) : List TemplateArg × Reader :=
  if _h : r.cursor.atEnd = true then ([], r)
  else
    match r.cursor.peek.kind.argItem with
    | .close => ([], r.advance)
    | .int value =>
      let rest := takeTemplateArgs r.advance
      (.int value :: rest.1, rest.2)
    | .minus =>
      match r.advance.cursor.peek.kind.int? with
      | some value =>
        let rest := takeTemplateArgs (r.resume r.advance.advance)
        (.int (-value) :: rest.1, rest.2)
      | none => takeTemplateArgs r.advance
    | .word =>
      let inner := takeType none r
      if inner.1.isEmpty then takeTemplateArgs (r.resume inner.2)
      else
        let p := inner.2.use inner.1 ""
        let rest := takeTemplateArgs (r.resume p.2)
        (.type p.1 :: rest.1, rest.2)
    | .other kind => takeTemplateArgs (r.advance.noted (.ignoredTemplateArg kind))
termination_by 2 * r.remaining + 1
decreasing_by
  · exact stage_lt_of_lt (remaining_advance_lt (Bool.eq_false_iff.mpr _h)) 2 1 1 (by decide)
  · exact stage_lt_of_lt (remaining_resume_lt _ (Bool.eq_false_iff.mpr _h)) 2 1 1 (by decide)
  · exact stage_lt_of_lt (remaining_advance_lt (Bool.eq_false_iff.mpr _h)) 2 1 1 (by decide)
  · exact Nat.lt_succ_self _
  · exact stage_lt_of_lt (remaining_resume_lt _ (Bool.eq_false_iff.mpr _h)) 2 1 1 (by decide)
  · exact stage_lt_of_lt (remaining_resume_lt _ (Bool.eq_false_iff.mpr _h)) 2 1 1 (by decide)
  · exact stage_lt_of_lt (remaining_advance_lt (Bool.eq_false_iff.mpr _h)) 2 1 1 (by decide)

end

end Reader

end HeaderAtlas
