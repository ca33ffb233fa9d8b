import Adf.Proofs.Json.Extension
import Adf.Proofs.Schema.Subjects

/-!
# Members that the checks ignore

The checks look members up by their names and never count or list them. So a value is checked like what is
left of it without the members of other names (`nodeIssues_known`), and objects may have more of these, at
any depth, whether what stands around them is in order or not (`validate_of_extends`).
-/

namespace Adf.Schema

/-! ## What is looked at -/

def isChecked (name : String) : Bool := name ∈ checkedNames

/-- The value without the members that the checks do not look at. -/
def known (v : Json) : Json := v.restrict isChecked

def knownMembers (members : Members) : Members := Json.restrictMembers isChecked members

@[simp] theorem known_obj (members : Members) : known (.obj members) = .obj (knownMembers members) := rfl

@[simp] theorem known_arr (items : List Json) : known (.arr items) = .arr (items.map known) :=
  congrArg Json.arr (Json.restrictItems_eq_map isChecked items)

@[simp] theorem known_str (s : String) : known (.str s) = .str s := rfl

theorem lookup_known {name : String} (h : name ∈ checkedNames) (members : Members) :
    (knownMembers members).lookup name = (members.lookup name).map known :=
  Json.lookup_restrictMembers (decide_eq_true h) members

theorem get?_known {name : String} (h : name ∈ checkedNames) (v : Json) :
    (known v).get? name = (v.get? name).map known :=
  Json.get?_restrict (decide_eq_true h) v

/-- The check does not look at members of other names. -/
def Blind (check : Path → Json → List Issue) : Prop := ∀ path v, check path (known v) = check path v

/-! ## Values and attributes -/

@[simp] theorem mismatch_known (path : Path) (expected : String) (v : Json) :
    mismatch path expected (known v) = mismatch path expected v := by
  rw [mismatch, known, Json.typeName_restrict, mismatch]

theorem blind_stringIssues : Blind stringIssues := by
  intro path v
  cases v <;> rfl

theorem blind_booleanIssues : Blind booleanIssues := by
  intro path v
  cases v <;> rfl

theorem blind_integerIssues (least most : Option Int) : Blind (integerIssues least most) := by
  intro path v
  cases v <;> rfl

theorem blind_choiceIssues (allowed : List String) : Blind (choiceIssues allowed) := by
  intro path v
  cases v <;> rfl

theorem blind_colorIssues : Blind colorIssues := by
  intro path v
  cases v <;> rfl

section

variable {name : String} {check : Path → Json → List Issue} (path : Path) (members : Members)
  (attrs : Option Members)

theorem attrs?_known : attrs? (knownMembers members) = (attrs? members).map knownMembers := by
  rw [attrs?, attrs?, lookup_known (by decide)]
  cases members.lookup "attrs" with
  | none => rfl
  | some value => cases value <;> rfl

theorem attrsIssues_known : attrsIssues path (knownMembers members) = attrsIssues path members := by
  rw [attrsIssues, attrsIssues, lookup_known (by decide)]
  cases members.lookup "attrs" with
  | none => rfl
  | some value => cases value <;> rfl

theorem bind_lookup_known (h : name ∈ checkedNames) :
    (attrs.map knownMembers).bind (List.lookup name) = (attrs.bind (List.lookup name)).map known := by
  cases attrs with
  | none => rfl
  | some members => exact lookup_known h members

theorem optional_known (h : name ∈ checkedNames) (hcheck : Blind check) :
    optional (attrs.map knownMembers) name path check = optional attrs name path check := by
  rw [optional, optional, bind_lookup_known attrs h]
  cases attrs.bind (List.lookup name) with
  | none => rfl
  | some value => exact hcheck _ value

theorem required_known (h : name ∈ checkedNames) (hcheck : Blind check) :
    required (attrs.map knownMembers) name path check = required attrs name path check := by
  cases attrs with
  | none => rfl
  | some members =>
    rw [Option.map_some, required, required, lookup_known h]
    cases members.lookup name with
    | none => rfl
    | some value => exact hcheck _ value

theorem mediaKeys_subset_checkedNames (type : Json) : mediaKeys type ⊆ checkedNames := by
  unfold mediaKeys
  split <;> decide

theorem mediaIssues_known : mediaIssues (attrs.map knownMembers) path = mediaIssues attrs path := by
  have hkeys (type : Json) : mediaKeys (known type) = mediaKeys type := by cases type <;> rfl
  rw [mediaIssues, mediaIssues, required_known path attrs (by decide) (blind_choiceIssues _),
    bind_lookup_known attrs (by decide)]
  cases attrs.bind (List.lookup "type") with
  | none => rfl
  | some type =>
    have heach : ∀ name ∈ mediaKeys type,
        required (attrs.map knownMembers) name path stringIssues = required attrs name path stringIssues :=
      fun name hname => required_known path attrs (mediaKeys_subset_checkedNames type hname) blind_stringIssues
    rw [Option.map_some]
    dsimp only
    rw [hkeys, List.flatMap_congr heach, optional_known path attrs (by decide) blind_stringIssues]

theorem nodeAttrIssues_known (type : NodeType) :
    nodeAttrIssues type (attrs.map knownMembers) path = nodeAttrIssues type attrs path := by
  cases type with
  | heading => exact required_known path attrs (by decide) (blind_integerIssues _ _)
  | codeBlock => exact optional_known path attrs (by decide) blind_stringIssues
  | orderedList => exact optional_known path attrs (by decide) (blind_integerIssues _ _)
  | table =>
    exact congrArg₂ (· ++ ·) (optional_known path attrs (by decide) blind_booleanIssues)
      (optional_known path attrs (by decide) (blind_choiceIssues _))
  | mediaSingle => exact optional_known path attrs (by decide) (blind_choiceIssues _)
  | media => exact mediaIssues_known path attrs
  | _ => rfl

theorem markAttrIssues_known (type : MarkType) :
    markAttrIssues type (attrs.map knownMembers) path = markAttrIssues type attrs path := by
  cases type with
  | link =>
    exact congrArg₂ (· ++ ·) (required_known path attrs (by decide) blind_stringIssues)
      (optional_known path attrs (by decide) blind_stringIssues)
  | subsup => exact required_known path attrs (by decide) (blind_choiceIssues _)
  | textColor => exact required_known path attrs (by decide) blind_colorIssues
  | _ => rfl

end

/-! ## Marks and texts -/

theorem markType?_known (mark : Json) : markType? (known mark) = markType? mark := by
  rw [markType?, markType?, get?_known (by decide)]
  cases mark.get? "type" with
  | none => rfl
  | some type => cases type <;> rfl

theorem blind_markIssues : Blind markIssues := by
  intro path mark
  cases mark with
  | obj members =>
    rw [known_obj, markIssues, markIssues, lookup_known (by decide), attrsIssues_known, attrs?_known]
    cases members.lookup "type" with
    | none => rfl
    | some type =>
      cases type with
      | str name => simp only [Option.map_some, known_str, markAttrIssues_known]
      | _ => rfl
  | _ => rfl

theorem exclusionIssues_known (path : Path) (marks : List Json) :
    exclusionIssues path (marks.map known) = exclusionIssues path marks := by
  simp only [exclusionIssues, List.any_map, Function.comp_def, List.zipIdx_map, List.flatMap_map, Prod.map_fst,
    Prod.map_snd, markType?_known, id_eq]

theorem blind_markListIssues : Blind markListIssues := by
  intro path v
  cases v with
  | arr marks =>
    rw [known_arr, markListIssues, markListIssues, exclusionIssues_known, List.zipIdx_map, List.flatMap_map]
    simp only [Prod.map_fst, Prod.map_snd, id_eq, blind_markIssues _ _]
  | _ => rfl

theorem unmarked_known (members : Members) : unmarked (knownMembers members) = unmarked members := by
  rw [unmarked, unmarked, lookup_known (by decide)]
  cases members.lookup "marks" with
  | none => rfl
  | some marks =>
    cases marks with
    | arr items => cases items <;> rfl
    | _ => rfl

theorem textIssues_known (path : Path) (parent : String) (members : Members) :
    textIssues path parent (knownMembers members) = textIssues path parent members := by
  rw [textIssues, textIssues, lookup_known (by decide), lookup_known (by decide), unmarked_known]
  congr 1
  · cases members.lookup "text" with
    | none => rfl
    | some text => cases text <;> rfl
  · cases members.lookup "marks" with
    | none => rfl
    | some marks => simp only [Option.map_some, blind_markListIssues _ _]

theorem markPlaceIssues_known (type : NodeType) (path : Path) (members : Members) :
    markPlaceIssues type path (knownMembers members) = markPlaceIssues type path members := by
  rw [markPlaceIssues, unmarked_known, markPlaceIssues]

/-! ## Nodes and documents -/

mutual

theorem nodeIssues_known (path : Path) (parent : String) (allowed : List NodeType) :
    ∀ v : Json, nodeIssues path parent allowed (known v) = nodeIssues path parent allowed v
  | .obj members => by
    rw [known_obj, nodeIssues, nodeIssues, lookup_known (by decide), attrsIssues_known, attrs?_known]
    cases members.lookup "type" with
    | none => rfl
    | some type =>
      cases type with
      | str name =>
        have hcontent (type : NodeType) := contentIssues_known path type.name (contentRule type) members
        simp only [Option.map_some, known_str, nodeAttrIssues_known, hcontent, textIssues_known,
          markPlaceIssues_known]
      | _ => rfl
  | .null | .bool _ | .num _ | .str _ | .arr _ => rfl

theorem contentIssues_known (path : Path) (parent : String) (rule : ContentRule) :
    ∀ members : Members,
      contentIssues path parent rule (knownMembers members) = contentIssues path parent rule members
  | [] => rfl
  | (name, value) :: rest => by
    have hrest := contentIssues_known path parent rule rest
    rw [knownMembers, Json.restrictMembers, contentIssues]
    by_cases hname : name = "content"
    · subst hname
      rw [if_pos (by decide), contentIssues, if_pos rfl, if_pos rfl]
      exact childrenIssues_known (path.key "content") parent rule value
    · rw [if_neg hname, ← hrest]
      split
      · rw [contentIssues, if_neg hname, knownMembers]
      · rfl

theorem childrenIssues_known (path : Path) (parent : String) (rule : ContentRule) :
    ∀ v : Json, childrenIssues path parent rule (known v) = childrenIssues path parent rule v
  | .arr items => by
    have hitems (allowed : Nat → List NodeType) := itemIssues_known path parent allowed 0 items
    rw [known_arr]
    cases rule <;> simp only [childrenIssues, List.length_map, hitems]
  | .null | .bool _ | .num _ | .str _ | .obj _ => by cases rule <;> rfl

theorem itemIssues_known (path : Path) (parent : String) (allowed : Nat → List NodeType) (i : Nat) :
    ∀ items : List Json, itemIssues path parent allowed i (items.map known) =
      itemIssues path parent allowed i items
  | [] => rfl
  | item :: rest => by
    rw [List.map_cons, itemIssues, itemIssues, nodeIssues_known _ parent _ item,
      itemIssues_known path parent allowed (i + 1) rest]

end

/-- A document is checked like what is left of it without the members that the checks do not look at. -/
theorem validate_known (v : Json) : validate (known v) = validate v := by
  cases v with
  | obj members =>
    rw [known_obj, validate, validate, documentIssues, documentIssues, lookup_known (by decide),
      lookup_known (by decide), lookup_known (by decide)]
    congr 1
    · congr 1
      · cases members.lookup "version" with
        | none => rfl
        | some version => exact blind_integerIssues _ _ _ version
      · cases members.lookup "type" with
        | none => rfl
        | some type => exact blind_choiceIssues _ _ type
    · cases members.lookup "content" with
      | none => rfl
      | some content => exact childrenIssues_known _ _ _ content
  | _ => rfl

/-- A document that would have other issues without the members of any one name that the checks look at. -/
def populated : Json :=
  docOf [
    .obj [("type", .str "rule")],
    .obj [("type", .str "heading"), ("attrs", .obj [("level", .nat 1)])],
    .obj [("type", .str "codeBlock"), ("attrs", .obj [("language", .null)])],
    .obj [("type", .str "orderedList"), ("attrs", .obj [("order", .null)])],
    .obj [("type", .str "table"), ("attrs", .obj [("isNumberColumnEnabled", .null), ("layout", .null)])],
    .obj [("type", .str "mediaSingle"), ("content", .arr [.obj [("type", .str "media"),
      ("attrs", .obj [("type", .str "external"), ("url", .str "u"), ("alt", .null)])]])],
    .obj [("type", .str "mediaSingle"), ("content", .arr [.obj [("type", .str "media"),
      ("attrs", .obj [("type", .str "file"), ("id", .str "i"), ("collection", .str "c")])]])],
    .obj [("type", .str "paragraph"), ("content", .arr [.obj [("type", .str "text"), ("text", .str "t"),
      ("marks", .arr [
        .obj [("type", .str "link"), ("attrs", .obj [("href", .str "h"), ("title", .null)])],
        .obj [("type", .str "textColor"), ("attrs", .obj [("color", .str "#00ff00")])]])]])]]

/-- **Members of other names are ignored everywhere.** Whatever members a value is given, in any of its objects
and however deep, as long as none of them has a name that the checks look at, the same issues are found in the
same order. Those names are exactly the names that must not be used: there are values in which a member of
such a name makes a difference. -/
theorem validate_of_extends :
    (∀ v v' : Json, v.Extends (· ∉ checkedNames) v' → validate v' = validate v) ∧
    ∀ name ∈ checkedNames, ∃ v v' : Json, v.Extends (· = name) v' ∧ validate v' ≠ validate v := by
  refine ⟨fun v v' h => ?_, fun name hname => ?_⟩
  · have hknown : known v' = known v := h.restrict_eq fun name hname => decide_eq_false hname
    rw [← validate_known v', hknown, validate_known]
  · have hcount : ∀ name ∈ checkedNames,
        (validate populated).length ≠ (validate (populated.restrict fun other => other ≠ name)).length := by
      decide
    refine ⟨populated.restrict fun other => other ≠ name, populated, ?_, ?_⟩
    · exact Json.restrict_extends (fun other hother => by simpa using hother) populated
    · exact fun h => hcount name hname (congrArg List.length h)

/-- A quote that holds what it must not hold, with members of other names wherever there is an object. -/
def annotated : Json :=
  .obj [("$schema", .str "s"), ("version", .nat 1), ("type", .str "doc"),
    ("content", .arr [.obj [("localId", .null), ("type", .str "blockquote"),
      ("attrs", .obj [("panelType", .bool true)]),
      ("content", .arr [
        .obj [("type", .str "panel"), ("marks", .obj [("Type", .str "code")])],
        .obj [("type", .str "paragraph"), ("content", .arr [.obj [("type", .str "text"), ("text", .str "a"),
          ("marks", .arr [.obj [("type", .str "link"), ("attrs", .obj [("target", .obj [("href", .str "h")])]),
            ("rel", .str "r")]])]])]])]])]

/-- The same without those members. -/
def unannotated : Json :=
  .obj [("version", .nat 1), ("type", .str "doc"),
    ("content", .arr [.obj [("type", .str "blockquote"), ("attrs", .obj []),
      ("content", .arr [
        .obj [("type", .str "panel"), ("marks", .obj [])],
        .obj [("type", .str "paragraph"), ("content", .arr [.obj [("type", .str "text"), ("text", .str "a"),
          ("marks", .arr [.obj [("type", .str "link"), ("attrs", .obj [])]])]])]])]])]

theorem validate_annotated :
    unannotated.Extends (· ∉ checkedNames) annotated ∧ validate annotated = validate unannotated ∧
      (validate annotated).map Issue.text =
        ["[ADF-2-1] Validation error at content.0.content.0.type: Unknown node type 'panel'",
          "[ADF-1-10] Validation error at content.0.content.1.content.0.marks.0.attrs: " ++
            "Missing required property 'href'"] := by
  have hextends : unannotated.Extends (· ∉ checkedNames) annotated := by
    have hknown : known annotated = unannotated := rfl
    rw [← hknown]
    exact Json.restrict_extends (fun name hname => of_decide_eq_false hname) annotated
  exact ⟨hextends, validate_of_extends.1 _ _ hextends, by decide⟩

end Adf.Schema
