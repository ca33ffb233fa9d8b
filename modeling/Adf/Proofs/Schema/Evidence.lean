import Adf.Proofs.Schema.Visits

/-!
# The evidence for an issue

The path of an issue leads to a value of the document, and that value shows the problem. `Shows` says for
each problem what there is to be seen. A member that is reported as missing is missing, with one exception:
a heading and media also miss their attributes if these are there but are no object (`Lacks`).
-/

namespace Adf.Schema

/-! ## What there is to be seen -/

/-- The object at the end of the path has no such member. A heading and media, which need an attribute, also
lack attributes that are there but are no object. -/
inductive Lacks (v : Json) (path : Path) (members : Members) : String → Prop
  | absent {name : String} (h : members.lookup name = none) : Lacks v path members name
  | unreadable {parent : String} {allowed : List NodeType} {type : NodeType} {attrs : Json}
      (visited : Visited v path parent allowed (.obj members)) (needs : type ∈ [.heading, .media])
      (typed : members.lookup "type" = some (.str type.name))
      (found : members.lookup "attrs" = some attrs) (h : ∀ a, attrs ≠ .obj a) :
      Lacks v path members "attrs"

/-- The value, which lies in `v` at the end of the path, shows the problem. -/
def Shows (v : Json) (path : Path) (value : Json) : Problem → Prop
  | .invalidJson _ => False
  | .typeMismatch expected got =>
    got = value.typeName ∧ expected ≠ got ∧ (expected = "integer" → ¬IsInteger (fun _ => True) value)
  | .missingProperty name => ∃ members, value = .obj members ∧ Lacks v path members name
  | .notAllowedValue s allowed => value = .str s ∧ s ∉ allowed
  | .numberOutOfRange x minimum maximum =>
    ∃ (z : Int) (least most : Option Int), IsInteger (· = z) value ∧ x = .ofInt z ∧
      minimum = least.map .ofInt ∧ maximum = most.map .ofInt ∧ ((∃ l ∈ least, z < l) ∨ ∃ m ∈ most, m < z)
  | .stringTooShort length least => value = .str "" ∧ length = 0 ∧ length < least
  | .patternMismatch s pattern => value = .str s ∧ pattern = colorPattern ∧ ¬IsColor value
  | .badArrayLength length least most =>
    ∃ items, value = .arr items ∧ length = items.length ∧
      ((∃ l ∈ least, length < l) ∨ ∃ m ∈ most, m < length)
  | .unknownNode name => value = .str name ∧ ∀ type : NodeType, type.name ≠ name
  | .nodeNotAllowed nodeType parent =>
    value.get? "type" = some (.str nodeType) ∧
      ∃ holder i, path = (Path.key holder "content").index i ∧ Encloses v holder parent ∧
        ∀ type ∈ placesIn parent i, type.name ≠ nodeType
  | .unknownMark name => value = .str name ∧ ∀ type : MarkType, type.name ≠ name
  | .marksNotAllowed nodeType =>
    value ≠ .arr [] ∧
      ∃ holder node, path = Path.key holder "marks" ∧ holder.find? v = some node ∧
        node.get? "type" = some (.str nodeType) ∧
          (nodeType = "text" →
            ∃ block i, holder = (Path.key block "content").index i ∧ Encloses v block "codeBlock")
  | .incompatibleMarks mark other =>
    mark = "code" ∧ value.get? "type" = some (.str other) ∧ other ∉ ["code", "link"] ∧
      ∃ list i marks beside, path = Path.index list i ∧ list.find? v = some (.arr marks) ∧
        beside ∈ marks ∧ beside.get? "type" = some (.str mark)

/-- The path of the issue leads to a value, and the value shows the problem. -/
def Shown (v : Json) (issue : Issue) : Prop :=
  ∃ value, issue.path.find? v = some value ∧ Shows v issue.path value issue.problem

/-! ## Single values -/

/-- Whatever the check finds in a value of `v` is shown by it. -/
def ShownBy (v : Json) (check : Path → Json → List Issue) : Prop :=
  ∀ {path : Path} {value : Json}, path.find? v = some value → ∀ issue ∈ check path value, Shown v issue

variable {v : Json} {path : Path} {value : Json}

theorem shown_mismatch (h : path.find? v = some value) {expected : String}
    (hexpected : expected ≠ value.typeName) (hinteger : expected ≠ "integer") :
    Shown v (mismatch path expected value) :=
  ⟨value, h, rfl, hexpected, fun heq => absurd heq hinteger⟩

theorem shown_missing {members : Members} (h : path.find? v = some (.obj members)) {name : String}
    (hlacks : Lacks v path members name) : Shown v (missing path name) :=
  ⟨.obj members, h, members, rfl, hlacks⟩

theorem shownBy_stringIssues : ShownBy v stringIssues := by
  intro path value h issue hissue
  cases value with
  | str s => contradiction
  | _ =>
    obtain rfl := List.mem_singleton.mp hissue
    exact shown_mismatch h (by simp [Json.typeName]) (by decide)

theorem shownBy_booleanIssues : ShownBy v booleanIssues := by
  intro path value h issue hissue
  cases value with
  | bool b => contradiction
  | _ =>
    obtain rfl := List.mem_singleton.mp hissue
    exact shown_mismatch h (by simp [Json.typeName]) (by decide)

theorem shownBy_choiceIssues (allowed : List String) : ShownBy v (choiceIssues allowed) := by
  intro path value h issue hissue
  cases value with
  | str s =>
    rw [choiceIssues] at hissue
    split at hissue
    · contradiction
    · rename_i hs
      obtain rfl := List.mem_singleton.mp hissue
      exact ⟨.str s, h, rfl, hs⟩
  | _ =>
    obtain rfl := List.mem_singleton.mp hissue
    exact shown_mismatch h (by simp [Json.typeName]) (by decide)

theorem shownBy_colorIssues : ShownBy v colorIssues := by
  intro path value h issue hissue
  cases value with
  | str s =>
    have hcolor : ¬IsColor (.str s) := by
      rw [← colorIssues_eq_nil_iff]
      exact List.ne_nil_of_mem hissue
    rw [colorIssues] at hissue
    split at hissue
    · contradiction
    · obtain rfl := List.mem_singleton.mp hissue
      exact ⟨.str s, h, rfl, rfl, hcolor⟩
  | _ =>
    obtain rfl := List.mem_singleton.mp hissue
    exact shown_mismatch h (by simp [Json.typeName]) (by decide)

theorem shownBy_integerIssues (least most : Option Int) : ShownBy v (integerIssues least most) := by
  intro path value h issue hissue
  rw [integerIssues] at hissue
  cases hvalue : integer? value with
  | none =>
    rw [hvalue] at hissue
    obtain rfl := List.mem_singleton.mp hissue
    refine ⟨value, h, rfl, ?_, fun _ => ?_⟩
    · cases value <;> simp [Json.typeName]
    · rintro ⟨z, rfl, hz, -⟩
      rw [integer?_eq_some_iff.mpr ⟨rfl, hz⟩] at hvalue
      contradiction
  | some z =>
    obtain ⟨rfl, hz⟩ := integer?_eq_some_iff.mp hvalue
    rw [hvalue] at hissue
    dsimp only at hissue
    split at hissue
    · rename_i houtside
      obtain rfl := List.mem_singleton.mp hissue
      refine ⟨_, h, z, least, most, ⟨z, rfl, hz, rfl⟩, rfl, rfl, rfl, ?_⟩
      simpa [Option.any_eq_true] using houtside
    · contradiction

/-! ## Attributes -/

section

variable {members : Members} {name : String} {check : Path → Json → List Issue}

theorem find?_member (h : path.find? v = some (.obj members)) (hvalue : members.lookup name = some value) :
    (path.key name).find? v = some value :=
  (Path.find?_key h name).trans hvalue

theorem attrs?_eq_some_iff {attrs : Members} :
    attrs? members = some attrs ↔ members.lookup "attrs" = some (.obj attrs) := by
  rw [attrs?]
  cases members.lookup "attrs" with
  | none => simp
  | some value => cases value <;> simp

theorem shown_attrsIssues (h : path.find? v = some (.obj members)) :
    ∀ issue ∈ attrsIssues path members, Shown v issue := by
  intro issue hissue
  rw [attrsIssues] at hissue
  cases hattrs : members.lookup "attrs" with
  | none =>
    rw [hattrs] at hissue
    contradiction
  | some attrs =>
    rw [hattrs] at hissue
    cases attrs with
    | obj attrs => contradiction
    | _ =>
      obtain rfl := List.mem_singleton.mp hissue
      exact shown_mismatch (find?_member h hattrs) (by simp [Json.typeName]) (by decide)

theorem shown_optional (h : path.find? v = some (.obj members)) (hcheck : ShownBy v check) :
    ∀ issue ∈ optional (attrs? members) name path check, Shown v issue := by
  intro issue hissue
  rw [optional] at hissue
  cases hvalue : (attrs? members).bind (List.lookup name) with
  | none =>
    rw [hvalue] at hissue
    contradiction
  | some value =>
    rw [hvalue] at hissue
    obtain ⟨attrs, hattrs, hname⟩ := Option.bind_eq_some_iff.mp hvalue
    have hfound := find?_member h (attrs?_eq_some_iff.mp hattrs)
    exact hcheck (find?_member hfound hname) issue hissue

/-- What is said of an attribute that must be there. Where there are no attributes at all, the value must
lack them. -/
theorem shown_required (h : path.find? v = some (.obj members)) (hcheck : ShownBy v check)
    (hnone : attrs? members = none → Lacks v path members "attrs") :
    ∀ issue ∈ required (attrs? members) name path check, Shown v issue := by
  intro issue hissue
  unfold required at hissue
  cases hattrs : attrs? members with
  | none =>
    rw [hattrs] at hissue
    obtain rfl := List.mem_singleton.mp hissue
    exact shown_missing h (hnone hattrs)
  | some attrs =>
    have hfound := find?_member h (attrs?_eq_some_iff.mp hattrs)
    rw [hattrs] at hissue
    dsimp only at hissue
    cases hname : attrs.lookup name with
    | none =>
      rw [hname] at hissue
      obtain rfl := List.mem_singleton.mp hissue
      exact shown_missing hfound (.absent hname)
    | some value =>
      rw [hname] at hissue
      exact hcheck (find?_member hfound hname) issue hissue

theorem lacks_attrs_of_needs {parent : String} {allowed : List NodeType} {type : NodeType}
    (hvisited : Visited v path parent allowed (.obj members)) (needs : type ∈ [.heading, .media])
    (typed : members.lookup "type" = some (.str type.name)) (h : attrs? members = none) :
    Lacks v path members "attrs" := by
  cases hattrs : members.lookup "attrs" with
  | none => exact .absent hattrs
  | some attrs =>
    refine .unreadable hvisited needs typed hattrs fun a ha => ?_
    subst ha
    rw [attrs?_eq_some_iff.mpr hattrs] at h
    contradiction

theorem shown_mediaIssues (h : path.find? v = some (.obj members))
    (hnone : attrs? members = none → Lacks v path members "attrs") :
    ∀ issue ∈ mediaIssues (attrs? members) path, Shown v issue := by
  intro issue hissue
  rw [mediaIssues, List.mem_append] at hissue
  rcases hissue with htype | hrest
  · exact shown_required h (shownBy_choiceIssues mediaTypes) hnone issue htype
  · cases hvalue : (attrs? members).bind (List.lookup "type") with
    | none =>
      rw [hvalue] at hrest
      contradiction
    | some type =>
      rw [hvalue] at hrest
      rcases List.mem_append.mp hrest with hkeys | halt
      · obtain ⟨name, -, hname⟩ := List.mem_flatMap.mp hkeys
        exact shown_required h shownBy_stringIssues hnone issue hname
      · exact shown_optional h shownBy_stringIssues issue halt

theorem shown_nodeAttrIssues {parent : String} {allowed : List NodeType} {type : NodeType}
    (hvisited : Visited v path parent allowed (.obj members))
    (typed : members.lookup "type" = some (.str type.name)) :
    ∀ issue ∈ nodeAttrIssues type (attrs? members) path, Shown v issue := by
  have h := hvisited.find?_eq
  have hnone (needs : type ∈ [.heading, .media]) : attrs? members = none → Lacks v path members "attrs" :=
    lacks_attrs_of_needs hvisited needs typed
  intro issue hissue
  cases type with
  | heading => exact shown_required h (shownBy_integerIssues _ _) (hnone (by simp)) issue hissue
  | media => exact shown_mediaIssues h (hnone (by simp)) issue hissue
  | codeBlock => exact shown_optional h shownBy_stringIssues issue hissue
  | orderedList => exact shown_optional h (shownBy_integerIssues _ _) issue hissue
  | mediaSingle => exact shown_optional h (shownBy_choiceIssues _) issue hissue
  | table =>
    rcases List.mem_append.mp hissue with hnumbered | hlayout
    · exact shown_optional h shownBy_booleanIssues issue hnumbered
    · exact shown_optional h (shownBy_choiceIssues _) issue hlayout
  | _ => contradiction

/-- The attributes of a mark are looked at only if they are an object or not there. -/
theorem shown_markAttrIssues (h : path.find? v = some (.obj members))
    (hattrs : attrsIssues path members = []) (type : MarkType) :
    ∀ issue ∈ markAttrIssues type (attrs? members) path, Shown v issue := by
  have hnone (h : attrs? members = none) : Lacks v path members "attrs" := by
    have hattrs := attrsIssues_eq_nil_iff.mp hattrs
    cases hvalue : members.lookup "attrs" with
    | none => exact .absent hvalue
    | some value =>
      rw [hvalue] at hattrs
      cases hattrs with
      | object attrs =>
        rw [attrs?_eq_some_iff.mpr hvalue] at h
        contradiction
  intro issue hissue
  cases type with
  | link =>
    rcases List.mem_append.mp hissue with hhref | htitle
    · exact shown_required h shownBy_stringIssues hnone issue hhref
    · exact shown_optional h shownBy_stringIssues issue htitle
  | subsup => exact shown_required h (shownBy_choiceIssues _) hnone issue hissue
  | textColor => exact shown_required h shownBy_colorIssues hnone issue hissue
  | _ => contradiction

end

/-! ## Marks -/

theorem shownBy_markIssues : ShownBy v markIssues := by
  intro path mark h issue hissue
  cases mark with
  | obj members =>
    rw [markIssues] at hissue
    cases htype : members.lookup "type" with
    | none =>
      rw [htype] at hissue
      obtain rfl := List.mem_singleton.mp hissue
      exact shown_missing h (.absent htype)
    | some value =>
      rw [htype] at hissue
      cases value with
      | str name =>
        dsimp only at hissue
        cases hfind : knownMark? name with
        | none =>
          rw [hfind] at hissue
          obtain rfl := List.mem_singleton.mp hissue
          refine ⟨.str name, find?_member h htype, rfl, fun type hname => ?_⟩
          rw [knownMark?_eq_some_iff.mpr hname] at hfind
          contradiction
        | some type =>
          rw [hfind] at hissue
          dsimp only at hissue
          split at hissue
          · rename_i hattrs
            exact shown_markAttrIssues h hattrs type issue hissue
          · exact shown_attrsIssues h issue hissue
      | _ =>
        obtain rfl := List.mem_singleton.mp hissue
        exact shown_mismatch (find?_member h htype) (by simp [Json.typeName]) (by decide)
  | _ =>
    obtain rfl := List.mem_singleton.mp hissue
    exact shown_mismatch h (by simp [Json.typeName]) (by decide)

theorem name_not_mem_of_not_besideCode {type : MarkType} (h : type ∉ besideCode) :
    type.name ∉ ["code", "link"] := by
  cases type with
  | code | link => exact absurd (by decide) h
  | _ => decide

theorem shown_exclusionIssues {marks : List Json} (h : path.find? v = some (.arr marks)) :
    ∀ issue ∈ exclusionIssues path marks, Shown v issue := by
  intro issue hissue
  rw [exclusionIssues] at hissue
  split at hissue
  · rename_i hcode
    obtain ⟨⟨mark, i⟩, hmark, hissue⟩ := List.mem_flatMap.mp hissue
    have hfound : (path.index i).find? v = some mark :=
      (Path.find?_index h i).trans (List.mem_zipIdx_iff_getElem?.mp hmark)
    dsimp only at hissue
    cases htype : markType? mark with
    | none =>
      rw [htype] at hissue
      contradiction
    | some type =>
      rw [htype] at hissue
      dsimp only at hissue
      split at hissue
      · contradiction
      · rename_i hbeside
        obtain rfl := List.mem_singleton.mp hissue
        obtain ⟨beside, hmem, htyped⟩ := List.any_eq_true.mp hcode
        exact ⟨mark, hfound, rfl, markType?_eq_some_iff.mp htype, name_not_mem_of_not_besideCode hbeside,
          path, i, marks, beside, rfl, h, hmem, markType?_eq_some_iff.mp (of_decide_eq_true htyped)⟩
  · contradiction

theorem shownBy_markListIssues : ShownBy v markListIssues := by
  intro path value h issue hissue
  cases value with
  | arr marks =>
    rw [markListIssues, List.mem_append] at hissue
    rcases hissue with hmarks | hexclusion
    · obtain ⟨⟨mark, i⟩, hmark, hissue⟩ := List.mem_flatMap.mp hmarks
      have hfound : (path.index i).find? v = some mark :=
        (Path.find?_index h i).trans (List.mem_zipIdx_iff_getElem?.mp hmark)
      exact shownBy_markIssues hfound issue hissue
    · exact shown_exclusionIssues h issue hexclusion
  | _ =>
    obtain rfl := List.mem_singleton.mp hissue
    exact shown_mismatch h (by simp [Json.typeName]) (by decide)

/-! ## Nodes -/

section

variable {members : Members}

theorem shownBy_shapeIssues (rule : ContentRule) : ShownBy v (shapeIssues rule) := by
  intro path content h issue hissue
  have hlength {least : Nat} {most : Option Nat} {items : List Json}
      (h : path.find? v = some (.arr items)) (hissue : issue ∈ lengthIssues least most path items.length) :
      Shown v issue := by
    rw [lengthIssues] at hissue
    split at hissue
    · rename_i houtside
      obtain rfl := List.mem_singleton.mp hissue
      refine ⟨_, h, items, rfl, rfl, ?_⟩
      rcases Bool.or_eq_true_iff.mp houtside with hfew | hmany
      · have hfew := of_decide_eq_true hfew
        have hleast : least ≠ 0 := by omega
        exact Or.inl ⟨least, by simp [hleast], hfew⟩
      · obtain ⟨m, hm, hmany⟩ := (Option.any_eq_true _ _).mp hmany
        exact Or.inr ⟨m, hm, of_decide_eq_true hmany⟩
    · contradiction
  cases content with
  | arr items =>
    cases rule with
    | ignored => contradiction
    | empty => exact hlength h hissue
    | children places least most => exact hlength h hissue
  | _ =>
    cases rule with
    | ignored => contradiction
    | _ =>
      obtain rfl := List.mem_singleton.mp hissue
      exact shown_mismatch h (by simp [Json.typeName]) (by decide)

theorem shown_absenceIssues (h : path.find? v = some (.obj members))
    (absent : members.lookup "content" = none) (rule : ContentRule) :
    ∀ issue ∈ absenceIssues rule path, Shown v issue := by
  intro issue hissue
  rw [absenceIssues.eq_def] at hissue
  split at hissue
  · obtain rfl := List.mem_singleton.mp hissue
    exact shown_missing h (.absent absent)
  · contradiction

/-- A node of another type than text, or a text in a code block, that has marks. -/
theorem shown_marksNotAllowed (h : path.find? v = some (.obj members)) {type : NodeType}
    (typed : members.lookup "type" = some (.str type.name)) (hmarks : ¬unmarked members)
    (htext : type.name = "text" →
      ∃ block i, path = (Path.key block "content").index i ∧ Encloses v block "codeBlock") :
    Shown v ⟨.marksNotAllowed type.name, path.key "marks"⟩ := by
  cases hvalue : members.lookup "marks" with
  | none => exact absurd (by rw [unmarked, hvalue]) hmarks
  | some marks =>
    have hnonempty : marks ≠ .arr [] := by
      rintro rfl
      exact hmarks (by rw [unmarked, hvalue])
    exact ⟨marks, find?_member h hvalue, hnonempty, path, .obj members, rfl, h, typed, htext⟩

theorem shown_textIssues {parent : String} (h : path.find? v = some (.obj members))
    (typed : members.lookup "type" = some (.str NodeType.text.name))
    (hplace : ∃ block i, path = (Path.key block "content").index i ∧ Encloses v block parent) :
    ∀ issue ∈ textIssues path parent members, Shown v issue := by
  intro issue hissue
  rw [textIssues, List.mem_append] at hissue
  rcases hissue with htext | hmarks
  · cases hvalue : members.lookup "text" with
    | none =>
      rw [hvalue] at htext
      obtain rfl := List.mem_singleton.mp htext
      exact shown_missing h (.absent hvalue)
    | some text =>
      rw [hvalue] at htext
      cases text with
      | str s =>
        dsimp only at htext
        split at htext
        · rename_i hempty
          obtain rfl := String.isEmpty_iff.mp hempty
          obtain rfl := List.mem_singleton.mp htext
          exact ⟨.str "", find?_member h hvalue, rfl, rfl, Nat.zero_lt_one⟩
        · contradiction
      | _ =>
        obtain rfl := List.mem_singleton.mp htext
        exact shown_mismatch (find?_member h hvalue) (by simp [Json.typeName]) (by decide)
  · cases hvalue : members.lookup "marks" with
    | none =>
      rw [hvalue] at hmarks
      contradiction
    | some marks =>
      rw [hvalue] at hmarks
      dsimp only at hmarks
      split at hmarks
      · rename_i hcode
        obtain ⟨rfl, hmarked⟩ := hcode
        obtain rfl := List.mem_singleton.mp hmarks
        exact shown_marksNotAllowed h typed hmarked fun _ => hplace
      · exact shownBy_markListIssues (find?_member h hvalue) issue hmarks

theorem shown_markPlaceIssues (h : path.find? v = some (.obj members)) {type : NodeType}
    (typed : members.lookup "type" = some (.str type.name)) (htype : type ≠ .text) :
    ∀ issue ∈ markPlaceIssues type path members, Shown v issue := by
  intro issue hissue
  rw [markPlaceIssues] at hissue
  split at hissue
  · contradiction
  · rename_i hmarks
    obtain rfl := List.mem_singleton.mp hissue
    exact shown_marksNotAllowed h typed hmarks fun hname => absurd (NodeType.name_inj.mp hname) htype

end

/-! ## Documents -/

theorem shown_of_reports {parent : String} {allowed : List NodeType} {node : Json} {issue : Issue}
    (hvisited : Visited v path parent allowed node) (h : Reports path parent allowed node issue) :
    Shown v issue := by
  have hfound := hvisited.find?_eq
  obtain ⟨holder, i, hpath, hencloses, hallowed⟩ := hvisited.enclosed
  cases h with
  | shape hshape =>
    refine shown_mismatch hfound ?_ (by decide)
    cases node with
    | obj members => exact absurd rfl (hshape members)
    | _ => simp [Json.typeName]
  | untyped h => exact shown_missing hfound (.absent h)
  | @typeShape members value found h =>
    refine shown_mismatch (find?_member hfound found) ?_ (by decide)
    cases value with
    | str s => exact absurd rfl (h s)
    | _ => simp [Json.typeName]
  | unknown found h => exact ⟨_, find?_member hfound found, rfl, h⟩
  | place typed h =>
    -- what was allowed at the place is what its parent allows there
    refine ⟨_, hfound, typed, holder, i, hpath, hencloses, fun other hother hname => ?_⟩
    rw [NodeType.name_inj.mp hname, ← hallowed] at hother
    contradiction
  | attrs typed h => exact shown_attrsIssues hfound issue h
  | attributes typed h => exact shown_nodeAttrIssues hvisited typed issue h
  | noContent typed absent h => exact shown_absenceIssues hfound absent _ issue h
  | content typed found h => exact shownBy_shapeIssues _ (find?_member hfound found) issue h
  | text typed h => exact shown_textIssues hfound typed ⟨holder, i, hpath, hencloses⟩ issue h
  | marks typed htype h => exact shown_markPlaceIssues hfound typed htype issue h

theorem shown_of_reportsDocument {issue : Issue} (h : ReportsDocument v issue) : Shown v issue := by
  have hfound := Path.find?_root v
  cases h with
  | shape hshape =>
    refine shown_mismatch hfound ?_ (by decide)
    cases v with
    | obj members => exact absurd rfl (hshape members)
    | _ => simp [Json.typeName]
  | absent h => exact shown_missing hfound (.absent h)
  | version found h => exact shownBy_integerIssues _ _ (find?_member hfound found) issue h
  | type found h => exact shownBy_choiceIssues _ (find?_member hfound found) issue h
  | content found h => exact shownBy_shapeIssues _ (find?_member hfound found) issue h

theorem shown_of_mem_validate {issue : Issue} (h : issue ∈ validate v) : Shown v issue := by
  rcases reports_of_mem_validate h with hdocument | ⟨path, parent, allowed, node, hvisited, hreports⟩
  · exact shown_of_reportsDocument hdocument
  · exact shown_of_reports hvisited hreports

/-- **Every issue has its evidence.** The path of an issue leads to a value of the document, and that value
shows the problem. -/
theorem exists_evidence (v : Json) :
    ∀ issue ∈ validate v, ∃ value, issue.path.find? v = some value ∧ Shows v issue.path value issue.problem :=
  fun _ h => shown_of_mem_validate h

/-- The second of two marks of a text may not stand beside the first, which marks code. -/
def strongCode : Json :=
  docOf [.obj [("type", .str "paragraph"), ("content", .arr [
    .obj [("type", .str "text"), ("text", .str "x"), ("marks", .arr [
      .obj [("type", .str "code")], .obj [("type", .str "strong")]])]])]]

theorem exists_evidence_strongCode :
    let path := ((((Path.root.key "content").index 0).key "content").index 0).key "marks" |>.index 1
    (⟨.incompatibleMarks "code" "strong", path⟩ : Issue) ∈ validate strongCode ∧
      ∃ value, path.find? strongCode = some value ∧
        Shows strongCode path value (.incompatibleMarks "code" "strong") := by
  intro path
  have hissue : (⟨.incompatibleMarks "code" "strong", path⟩ : Issue) ∈ validate strongCode := by
    have hissues : validate strongCode = [⟨.incompatibleMarks "code" "strong", path⟩] := rfl
    rw [hissues]
    exact List.mem_singleton_self _
  exact ⟨hissue, exists_evidence strongCode _ hissue⟩

/-! ## Members that are missing -/

theorem mem_validate_of_attrs {parent : String} {allowed : List NodeType} {type : NodeType} {members : Members}
    {attrs : Json} (hvisited : Visited v path parent allowed (.obj members))
    (typed : members.lookup "type" = some (.str type.name)) (found : members.lookup "attrs" = some attrs)
    (h : ∀ a, attrs ≠ .obj a) : mismatch (path.key "attrs") "object" attrs ∈ validate v := by
  refine mem_validate_of_visited hvisited (mem_nodeIssues_of_attrs typed ?_)
  rw [attrsIssues, found]
  cases attrs with
  | obj a => exact absurd rfl (h a)
  | _ => exact List.mem_singleton_self _

/-- **A member that is reported as missing is not there**, in the object at the path of the issue, except for
the attributes of a heading or of media. These are also missing if they are there but are no object, and then
they are reported a second time, for their type. -/
theorem lookup_of_missing_mem_validate (v : Json) :
    ∀ issue ∈ validate v, ∀ name, issue.problem = .missingProperty name →
      ∃ members, issue.path.find? v = some (.obj members) ∧
        (members.lookup name = none ∨
          name = "attrs" ∧
            (∃ type ∈ [NodeType.heading, .media], members.lookup "type" = some (.str type.name)) ∧
              ∃ attrs, members.lookup "attrs" = some attrs ∧ (∀ a, attrs ≠ .obj a) ∧
                mismatch (issue.path.key "attrs") "object" attrs ∈ validate v) := by
  intro issue hissue name hproblem
  obtain ⟨value, hvalue, hshows⟩ := shown_of_mem_validate hissue
  rw [hproblem] at hshows
  obtain ⟨members, rfl, hlacks⟩ := hshows
  refine ⟨members, hvalue, ?_⟩
  cases hlacks with
  | absent h => exact Or.inl h
  | @unreadable _ _ type attrs visited needs typed found h =>
    exact Or.inr ⟨rfl, ⟨type, needs, typed⟩, attrs, found, h, mem_validate_of_attrs visited typed found h⟩

/-- A heading whose attributes are a number. -/
def numberedHeading : Json :=
  docOf [.obj [("type", .str "heading"), ("attrs", .nat 5)]]

theorem missing_mem_validate_numberedHeading :
    missing ((Path.root.key "content").index 0) "attrs" ∈ validate numberedHeading := by
  have hissues : validate numberedHeading =
      [mismatch (((Path.root.key "content").index 0).key "attrs") "object" (.nat 5),
        missing ((Path.root.key "content").index 0) "attrs"] := rfl
  rw [hissues]
  exact List.mem_cons_of_mem _ (List.mem_singleton_self _)

theorem lookup_of_missing_numberedHeading :
    let issue := missing ((Path.root.key "content").index 0) "attrs"
    issue ∈ validate numberedHeading ∧
      ∃ members, issue.path.find? numberedHeading = some (.obj members) ∧
        (members.lookup "attrs" = none ∨
          "attrs" = "attrs" ∧
            (∃ type ∈ [NodeType.heading, .media], members.lookup "type" = some (.str type.name)) ∧
              ∃ attrs, members.lookup "attrs" = some attrs ∧ (∀ a, attrs ≠ .obj a) ∧
                mismatch (issue.path.key "attrs") "object" attrs ∈ validate numberedHeading) := by
  intro issue
  have hissue := missing_mem_validate_numberedHeading
  exact ⟨hissue, lookup_of_missing_mem_validate numberedHeading issue hissue "attrs" rfl⟩

/-- The heading has the attributes that are reported as missing. -/
theorem not_forall_missing_absent :
    ¬∀ v : Json, ∀ issue ∈ validate v, ∀ name, issue.problem = .missingProperty name →
      ∃ members, issue.path.find? v = some (.obj members) ∧ members.lookup name = none := by
  intro h
  obtain ⟨members, hfound, hnone⟩ :=
    h numberedHeading _ missing_mem_validate_numberedHeading "attrs" rfl
  have hmembers : [("type", .str "heading"), ("attrs", .nat 5)] = members :=
    Json.obj.inj (Option.some.inj hfound)
  subst hmembers
  contradiction

end Adf.Schema
