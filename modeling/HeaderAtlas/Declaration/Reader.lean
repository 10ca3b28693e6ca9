import HeaderAtlas.Cursor.Progress
import HeaderAtlas.Recorder

/-!
# Reading into a catalog

A reader is a recorder with a cursor over the header it reads. Every step of reading is a function from readers to readers, and
never fails: what is not understood is passed over.
-/

namespace HeaderAtlas

/-- Which members are read, and which words are decorations. -/
structure ScanOptions where
  /-- Also read members that are not public. -/
  includePrivate : Bool := false
  /-- Words in front of a declaration that say how it is exported. -/
  apiWords : List String := ["DLL_EXPORT"]
  /-- Words between a return type and a name that say how it is called. -/
  conventions : List String := ["__cdecl", "__stdcall", "__fastcall", "__thiscall", "__vectorcall"]
  deriving DecidableEq, Repr

/-- The words that mark what is to be read. -/
inductive Marker where
  | reflected
  | property
  | command
  | global
  | fake
  | endFake
  | virtualProperty
  | bitFlags
  | hidden
  deriving DecidableEq, Repr

/-- The word of a marker. -/
def Marker.word : Marker → String
  | reflected => "REFLECTED"
  | property => "PROPERTY"
  | command => "METHOD_CMD"
  | global => "REFLECT_GLOBAL"
  | fake => "REFLECT_FAKE"
  | endFake => "END_FAKE"
  | virtualProperty => "VIRTUAL_PROPERTY"
  | bitFlags => "BITFIELD_FLAGS"
  | hidden => "NO_REFLECT"

/-- A marker stands in front of the cursor. -/
def Cursor.seesMarker (c : Cursor) (m : Marker) : Bool := c.seesWord m.word

/-- Where a declaration stands. -/
structure Scope where
  /-- The type around it; none at top level. -/
  enclosing : Option TypeId
  visibility : Visibility
  depth : Nat
  deriving DecidableEq, Repr

/-- The place of declarations that no type is around. -/
def Scope.top : Scope := ⟨none, .publicAccess, 0⟩

/-- A recorder, and a cursor over the header that is read into it. -/
structure Reader extends Recorder where
  cursor : Cursor

namespace Reader

/-- The reader with its cursor at another place. -/
def moveTo (r : Reader) (c : Cursor) : Reader := { r with cursor := c }

/-- The reader one token on. -/
def advance (r : Reader) : Reader := r.moveTo r.cursor.advance

/-- The reader behind a mark, if it stands in front. -/
def pass (r : Reader) (symbol : Char) : Reader := r.moveTo (r.cursor.pass symbol)

/-- The reader behind the statement in front of it. -/
def skipStatement (r : Reader) : Reader := r.moveTo r.cursor.skipStatement

/-- How many tokens are still to be read. -/
def remaining (r : Reader) : Nat := r.cursor.remaining

/-- An event noted. -/
def noted (r : Reader) (e : Event) : Reader := { r with toRecorder := r.toRecorder.note e }

/-- A type declared. -/
def declare (r : Reader) (d : TypeDef) : TypeId × Reader :=
  let s := r.toRecorder.register d
  (s.1, { r with toRecorder := s.2 })

/-- The placeholder of a name. -/
def placeholderFor (r : Reader) (name : String) : TypeId × Reader :=
  let s := r.toRecorder.placeholder name
  (s.1, { r with toRecorder := s.2 })

/-- The declared type of a name, or else its placeholder. -/
def refer (r : Reader) (name : String) : TypeId × Reader :=
  let s := r.toRecorder.reference name
  (s.1, { r with toRecorder := s.2 })

/-- A type changed. -/
def edit (r : Reader) (id : TypeId) (f : TypeDef → TypeDef) : Reader :=
  { r with toRecorder := r.toRecorder.change fun c => c.edit id f }

/-- Where reading goes on after a step that was begun off the end: where the step ended, or one token behind its beginning if it
has read none. -/
def resume (start after : Reader) : Reader :=
  if after.remaining < start.remaining then after else after.moveTo start.cursor.advance

/-- Where reading goes on after a step that may have read no token. -/
def keep (start after : Reader) : Reader :=
  if after.remaining ≤ start.remaining then after else after.moveTo start.cursor

theorem remaining_advance_lt {r : Reader} (h : r.cursor.atEnd = false) : r.advance.remaining < r.remaining :=
  Cursor.remaining_advance_lt h

/-- Reading that goes on after a step begun off the end has fewer tokens left. -/
theorem remaining_resume_lt {start : Reader} (after : Reader) (h : start.cursor.atEnd = false) :
    (start.resume after).remaining < start.remaining := by
  rw [resume]
  split
  · assumption
  · exact Cursor.remaining_advance_lt h

theorem remaining_keep_le (start after : Reader) : (start.keep after).remaining ≤ start.remaining := by
  rw [keep]
  split
  · assumption
  · exact Nat.le_refl _

/-- With fewer tokens left reading is nearer to its end, at whatever stage of `k` it is. -/
theorem stage_lt_of_lt {a b : Nat} (h : a < b) (k m n : Nat) (hm : m < k) : k * a + m < k * b + n := by
  have hk : k * (a + 1) ≤ k * b := Nat.mul_le_mul_left k h
  rw [Nat.mul_succ] at hk
  omega

/-- Reading that goes on after a step that may have read no token is nearer to its end, if it is at a lower stage. -/
theorem stage_keep_lt (start after : Reader) (k m n : Nat) (h : m < n) :
    k * (start.keep after).remaining + m < k * start.remaining + n :=
  Nat.add_lt_add_of_le_of_lt (Nat.mul_le_mul_left k (remaining_keep_le start after)) h

end Reader

end HeaderAtlas
