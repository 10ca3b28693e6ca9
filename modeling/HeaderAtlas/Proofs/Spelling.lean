import HeaderAtlas.Proofs.Declaration.Piece
import HeaderAtlas.Proofs.Resolution

/-!
# Names that are written alike

Two mentions of one name mean the same type in the end, whether they stand before or behind its declaration, but for one case. A
qualified name that is not declared when it is read as a type is bound there and then to its last part, if that is declared; the
bases of a type, and settlement, look for the whole name first. If the whole name is declared later on, the mention stays with
the part, and any other that was bound to the whole name means another type (`same_of_same_name_iff`).
-/

namespace HeaderAtlas

/-- The name stands in a header that the session has read. -/
def Mentioned (o : Origin) (calls : List Call) (m : Mention) : Prop :=
  ∃ before options source after, calls = before ++ .scan options source :: after ∧
    Reader.Writes options .header { session o before with cursor := Cursor.ofText source } m

/-- A name stays bound until the session ends. -/
theorem Mentioned.bound {o : Origin} {calls : List Call} {m : Mention} (h : Mentioned o calls m) :
    (session o calls).catalog.Bound m := by
  obtain ⟨before, options, source, after, rfl, hwrites⟩ := h
  have hinv := session_inv o before
  have hscan : ((session o before).scan options source).catalog.Bound m := hwrites.bound (Cursor.plain_ofText source) hinv
  have hinv' : ((session o before).scan options source).catalog.Inv := hinv.grows ((session o before).scan_grows options source)
  rw [session_append]
  rcases hscan with ⟨hpart, part, hlast, hd⟩ | ⟨hpart, hd | hp⟩
  · exact Or.inl ⟨hpart, part, hlast, Recorder.perform_declared hinv' hd after⟩
  · exact Or.inr ⟨hpart, Or.inl (Recorder.perform_declared hinv' hd after)⟩
  · exact Or.inr ⟨hpart, Or.inr (Recorder.perform_placeholders hinv' hp after)⟩

section settled

variable {o : Origin} {calls : List Call} {m : Mention}

/-- A mention that was bound to the last part of its name comes to mean the type of that part. -/
theorem Mentioned.lookup_of_byPart (hm : Mentioned o calls m) (hpart : m.ByPart) :
    ∃ part, IsLastPart m.name part ∧
      (session o calls).catalog.settle.2.lookup part = some ((session o calls).catalog.settle.2.canonical m.handle) := by
  have hc := session_inv o calls
  rcases hm.bound with ⟨-, part, hlast, hd⟩ | ⟨hnot, -⟩
  · exact ⟨part, hlast, hc.lookup_settle_of_declared hd⟩
  · exact absurd hpart hnot

/-- If the whole name is declared, the mentions that come to mean its type are those not bound to the last part. -/
theorem Mentioned.canonical_eq_iff (h : Call.settle ∉ calls) (hm : Mentioned o calls m) {id : TypeId}
    (hl : (session o calls).catalog.settle.2.lookup m.name = some id) :
    (session o calls).catalog.settle.2.canonical m.handle = id ↔ ¬m.ByPart := by
  have hc := session_inv o calls
  constructor
  · rintro rfl hpart
    obtain ⟨part, hlast, hl'⟩ := hm.lookup_of_byPart hpart
    exact hlast.ne ((hc.settle.lookup_declared hl').2.1.symm.trans (hc.settle.lookup_declared hl).2.1)
  · intro hpart
    rcases hm.bound with ⟨hpart', -⟩ | ⟨-, hd | hp⟩
    · exact absurd hpart' hpart
    · exact Option.some.inj ((hc.lookup_settle_of_declared hd).symm.trans hl)
    · rw [← hc.placeholders_settle] at hp
      exact canonical_placeholder_of_not_settled o h hp hl

/-- If the whole name is not declared, a mention comes to mean the type of the last part, or stays the placeholder of the name. -/
theorem Mentioned.canonical_of_lookup_none (h : Call.settle ∉ calls) (hm : Mentioned o calls m)
    (hl : (session o calls).catalog.settle.2.lookup m.name = none) :
    (session o calls).catalog.lookupWritten m.name = some ((session o calls).catalog.settle.2.canonical m.handle) ∨
      (session o calls).catalog.lookupWritten m.name = none ∧
        (session o calls).catalog.placeholders.get? m.name = some m.handle := by
  have hc := session_inv o calls
  by_cases hpart : m.ByPart
  · obtain ⟨part, hlast, hl'⟩ := hm.lookup_of_byPart hpart
    rw [hc.lookup_settle] at hl hl'
    rw [Catalog.lookupWritten_of_isLastPart _ hlast, hl, hl']
    exact Or.inl rfl
  · rcases hm.bound with ⟨hpart', -⟩ | ⟨-, hd | hp⟩
    · exact absurd hpart' hpart
    · rw [hc.lookup_settle_of_declared hd] at hl
      cases hl
    · cases hw : (session o calls).catalog.lookupWritten m.name with
      | none => exact Or.inr ⟨rfl, hp⟩
      | some found =>
        have hp' := hp
        rw [← hc.placeholders_settle] at hp'
        rw [canonical_placeholder_of_lookupWritten o h hp' hw]
        exact Or.inl rfl

end settled

/-! ## A header that names a type before and after it is declared -/

namespace Reader

/-- The handle that a field gets, if the member in front of the reader is one. -/
def fieldHandle? (options : ScanOptions) (scope : Scope) (r : Reader) : Option TypeId :=
  match r.memberBody? options scope with
  | none => none
  | some (head, r) =>
    if r.cursor.sees '(' || r.cursor.sees '[' then none
    else
      let fields := r.cursor.takeDeclarators head.name head.type.modifiers.shape
      fields.1.head?.map fun d =>
        ((r.moveTo fields.2).memberProperty scope
          { head with
            type := { head.type with modifiers := { head.type.modifiers with shape := d.shape } }
            name := d.name }).1.type

theorem writes_of_fieldHandle {options : ScanOptions} {scope : Scope} {r : Reader} {name : String} {handle : TypeId}
    (hname : (r.beforeMemberType options).typeName? scope.enclosing = some name)
    (hfield : r.fieldHandle? options scope = some handle) :
    Writes options (.member scope) r ⟨name, false, (r.beforeMemberType options).catalog, handle⟩ := by
  unfold fieldHandle? at hfield
  split at hfield
  · cases hfield
  · rename_i head r' hbody
    split at hfield
    · cases hfield
    · rename_i hopen
      rw [Bool.or_eq_true, not_or] at hopen
      dsimp only at hfield
      obtain ⟨d, hd, rfl⟩ := Option.map_eq_some_iff.mp hfield
      obtain ⟨ds, hds⟩ := List.head?_eq_some_iff.mp hd
      exact .here (.member hname hbody
        (.field (Bool.eq_false_iff.mpr hopen.1) (Bool.eq_false_iff.mpr hopen.2) rfl (hds.trans (List.nil_append _).symm)))

/-- The reader behind the marker of a type and its traits. -/
def behindMarker (r : Reader) : Reader := r.moveTo r.cursor.advance.takeTraits.2

/-- The reader stands in front of a struct that begins with a field, in which this name gets this handle. -/
def FacesField (options : ScanOptions) (r : Reader) (owner : TypeId) (name : String) (handle : TypeId) : Prop :=
  let start := r.behindMarker
  let body := (takeTypeHeader options false start).2
  let scope : Scope := ⟨some owner, .publicAccess, 1⟩
  (r.cursor.atEnd = false ∧ r.cursor.seesMarker .reflected = true) ∧
    (start.cursor.seesWordOf ["struct", "class"] = true ∧ start.cursor.seesWord "class" = false) ∧
    (takeTypeHeader options false start).1 = .follows owner ∧
    (body.cursor.atEnd = false ∧ bodyItem body.cursor = .member) ∧
    (body.beforeMemberType options).typeName? (some owner) = some name ∧ body.fieldHandle? options scope = some handle

theorem FacesField.writes {options : ScanOptions} {r : Reader} {owner : TypeId} {name : String} {handle : TypeId}
    (h : r.FacesField options owner name handle) :
    ∃ seen, Writes options .header r ⟨name, false, seen, handle⟩ := by
  obtain ⟨⟨hend, hmarker⟩, ⟨hword, hclass⟩, hhead, ⟨hend', hitem⟩, hname, hfield⟩ := h
  have hbody : Part options (.reflected 0 r.cursor.advance.takeTraits.1) r.behindMarker (.body owner 1 .publicAccess)
      (takeTypeHeader options false r.behindMarker).2 := by
    rw [← hclass] at hhead ⊢
    have hpart : Part options (.reflected 0 r.cursor.advance.takeTraits.1) r.behindMarker _ _ := .reflected_body hword hhead
    rwa [if_neg (Bool.eq_false_iff.mp hclass)] at hpart
  exact ⟨_, .part (.header_reflected hend hmarker) (.part hbody
    (.part (.body_member hend' hitem (Or.inl rfl)) (writes_of_fieldHandle hname hfield)))⟩

end Reader

/-- A header that reads `ns::Node` as a field type twice: while only `Node` is declared, and after `ns::Node` is. -/
def splitHeader : String :=
  "REFLECTED() struct Node {};\nREFLECTED() struct A { ns::Node x; };\nREFLECT_FAKE(name=\"ns::Node\") END_FAKE\n" ++
    "REFLECTED() struct B { ns::Node x; };\n"

/-- The reader in front of the header. -/
def splitStart : Reader := { session .builtin [] with cursor := Cursor.ofText splitHeader }

/-- What reading the header comes to: the first field gets the handle of `Node`, the second that of `ns::Node`. -/
theorem splitHeader_fields :
    (splitStart.cursor.atEnd = false ∧ (splitStart.headerTurn {}).cursor.atEnd = false ∧
      ((splitStart.headerTurn {}).headerTurn {}).cursor.atEnd = false) ∧
    (splitStart.headerTurn {}).FacesField {} ⟨47⟩ "ns::Node" ⟨46⟩ ∧
    (((splitStart.headerTurn {}).headerTurn {}).headerTurn {}).FacesField {} ⟨49⟩ "ns::Node" ⟨48⟩ ∧
    (session .builtin [.scan {} splitHeader]).settle.2.catalog.same ⟨46⟩ ⟨48⟩ = false := by
  unfold Reader.FacesField
  decide +kernel

/-- The two mentions of `ns::Node`. -/
theorem splitHeader_mentions :
    ∃ a b, Mentioned .builtin [.scan {} splitHeader] a ∧ Mentioned .builtin [.scan {} splitHeader] b ∧
      (a.name = "ns::Node" ∧ a.handle = ⟨46⟩) ∧ b.name = "ns::Node" ∧ b.handle = ⟨48⟩ := by
  obtain ⟨⟨h₀, h₁, h₂⟩, hfirst, hsecond, -⟩ := splitHeader_fields
  obtain ⟨seen, hfirst⟩ := hfirst.writes
  obtain ⟨seen', hsecond⟩ := hsecond.writes
  refine ⟨⟨_, false, seen, ⟨46⟩⟩, ⟨_, false, seen', ⟨48⟩⟩, ⟨[], {}, splitHeader, [], rfl, ?_⟩, ⟨[], {}, splitHeader, [], rfl, ?_⟩,
    ⟨rfl, rfl⟩, rfl, rfl⟩
  · exact .part (.header_turn h₀) hfirst
  · exact .part (.header_turn h₀) (.part (.header_turn h₁) (.part (.header_turn h₂) hsecond))

/-! ## One name, one type -/

/-- Two mentions of one name stand for the same type after the settlement that follows the reading, exactly if the whole name is
declared nowhere, or both of them or neither were bound to its last part when they were read. -/
theorem same_of_same_name_iff (o : Origin) {calls : List Call} (h : Call.settle ∉ calls) {a b : Mention}
    (ha : Mentioned o calls a) (hb : Mentioned o calls b) (hname : a.name = b.name) :
    let c := (session o calls).settle.2.catalog
    c.same a.handle b.handle = true ↔ c.lookup a.name = none ∨ (a.ByPart ↔ b.ByPart) := by
  rw [Recorder.catalog_settle]
  intro c
  rw [Catalog.same, beq_iff_eq]
  cases hl : c.lookup a.name with
  | none =>
    refine iff_of_true ?_ (Or.inl rfl)
    have hb' := hb.canonical_of_lookup_none h (hname ▸ hl)
    rw [← hname] at hb'
    rcases ha.canonical_of_lookup_none h hl with hw | ⟨hw, hp⟩
    · rcases hb' with hw' | ⟨hw', -⟩
      · exact Option.some.inj (hw.symm.trans hw')
      · cases hw.symm.trans hw'
    · rcases hb' with hw' | ⟨-, hp'⟩
      · cases hw.symm.trans hw'
      · rw [Option.some.inj (hp.symm.trans hp')]
  | some id =>
    have hai := ha.canonical_eq_iff h hl
    have hbi := hb.canonical_eq_iff h (hname ▸ hl)
    simp only [reduceCtorEq, false_or]
    by_cases hpa : a.ByPart
    · by_cases hpb : b.ByPart
      · obtain ⟨part, hlast, hla⟩ := ha.lookup_of_byPart hpa
        obtain ⟨part', hlast', hlb⟩ := hb.lookup_of_byPart hpb
        obtain rfl := hlast.unique (hname ▸ hlast')
        exact iff_of_true (Option.some.inj (hla.symm.trans hlb)) (iff_of_true hpa hpb)
      · refine iff_of_false (fun he => ?_) (fun hiff => hpb (hiff.mp hpa))
        exact hai.mp (he.trans (hbi.mpr hpb)) hpa
    · by_cases hpb : b.ByPart
      · refine iff_of_false (fun he => ?_) (fun hiff => hpa (hiff.mpr hpb))
        exact hbi.mp (he.symm.trans (hai.mpr hpa)) hpb
      · exact iff_of_true ((hai.mpr hpa).trans (hbi.mpr hpb).symm) (iff_of_false hpa hpb)

/-- The two fields are told apart by how they were bound. -/
theorem same_of_same_name_iff_at_split :
    ∃ a b, (Call.settle ∉ [Call.scan {} splitHeader] ∧ Mentioned .builtin [.scan {} splitHeader] a ∧
        Mentioned .builtin [.scan {} splitHeader] b ∧ a.name = b.name) ∧
      ((session .builtin [.scan {} splitHeader]).settle.2.catalog.same a.handle b.handle = true ↔
        (session .builtin [.scan {} splitHeader]).settle.2.catalog.lookup a.name = none ∨ (a.ByPart ↔ b.ByPart)) := by
  obtain ⟨a, b, ha, hb, ⟨hname, -⟩, hname', -⟩ := splitHeader_mentions
  have hsettle : Call.settle ∉ [Call.scan {} splitHeader] := by simp
  have hsame := hname.trans hname'.symm
  exact ⟨a, b, ⟨hsettle, ha, hb, hsame⟩, same_of_same_name_iff .builtin hsettle ha hb hsame⟩

/-- Two fields of one written type may be of different types when all is settled. -/
theorem same_name_two_types :
    ∃ a b, Mentioned .builtin [.scan {} splitHeader] a ∧ Mentioned .builtin [.scan {} splitHeader] b ∧ a.name = b.name ∧
      (session .builtin [.scan {} splitHeader]).settle.2.catalog.same a.handle b.handle = false := by
  obtain ⟨a, b, ha, hb, ⟨hname, hhandle⟩, hname', hhandle'⟩ := splitHeader_mentions
  refine ⟨a, b, ha, hb, hname.trans hname'.symm, ?_⟩
  rw [hhandle, hhandle']
  exact splitHeader_fields.2.2.2

end HeaderAtlas
