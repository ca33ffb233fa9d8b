import Adf.Node.Json
import Adf.Proofs.Json.Sorted
import Adf.Proofs.Node.WellFormed
import Adf.Proofs.Schema.Words
import Adf.Schema.Check

/-!
# Written nodes and their attributes

What the checks find in a mark or node that has been written: its type, its attributes, and the rest of its
members. The attributes of a container are checked with no issue exactly if they are in their bounds.
-/

namespace Adf

/-! ## Members of what is written -/

/-- What is written of a mark, and what may be left out. -/
def Mark.fields (m : Mark) : List (String × Json) :=
  [("type", .str m.type.name), ("attrs", .obj m.attrs)]

/-- What is written of a node, and what may be left out. -/
def Node.fields (node : Node) : List (String × Json) :=
  [("type", .str node.type.name), ("attrs", .obj node.attrs),
    ("content", .arr (listToJson node.content)), ("marks", .arr (node.marks.map Mark.toJson)),
    ("text", .str (node.text?.getD ""))]

theorem MarkType.member_name (type : MarkType) :
    Json.member "type" (.str type.name) = [("type", .str type.name)] := by
  cases type <;> rfl

theorem NodeType.member_name (type : NodeType) :
    Json.member "type" (.str type.name) = [("type", .str type.name)] := by
  cases type <;> rfl

theorem Mark.toJson_eq (m : Mark) : m.toJson = .obj (Json.membersOf m.fields) := by
  rw [toJson, Json.membersOf, fields, List.flatMap_cons, MarkType.member_name, List.flatMap_cons,
    List.flatMap_nil, List.append_nil]
  rfl

theorem Node.toJson_eq (node : Node) : node.toJson = .obj (Json.membersOf node.fields) := by
  rw [Json.membersOf, fields, List.flatMap_cons, NodeType.member_name]
  cases node with
  | leaf l =>
    cases l with
    | text s marks =>
      have hmembers : toJson (.leaf (.text s marks)) = .obj (("type", .str NodeType.text.name) ::
          (Json.member "marks" (.arr (marks.map Mark.toJson)) ++ Json.member "text" (.str s))) := rfl
      rw [hmembers]
      simp [type, Leaf.type, attrs, Leaf.attrs, content, listToJson, Node.marks, text?,
        show Json.member "attrs" (.obj []) = [] from rfl, show Json.member "content" (.arr []) = [] from rfl]
    | _ => rfl
  | container c content =>
    simp [toJson, type, attrs, Node.content, Node.marks, text?,
      show Json.member "marks" (.arr []) = [] from rfl, show Json.member "text" (.str "") = [] from rfl]

theorem Mark.sorted_toJson (m : Mark) : m.toJson.sorted = .obj (Json.written m.fields) := by
  rw [toJson_eq, Json.sorted_obj_membersOf]

theorem Node.sorted_toJson (node : Node) : node.toJson.sorted = .obj (Json.written node.fields) := by
  rw [toJson_eq, Json.sorted_obj_membersOf]

/-- The members of a written mark. -/
abbrev Mark.members (m : Mark) : List (String × Json) := Json.written m.fields

/-- The members of a written node. -/
abbrev Node.members (node : Node) : List (String × Json) := Json.written node.fields

theorem Mark.lookup_members (m : Mark) (k : String) :
    m.members.lookup k = ((m.fields.lookup k).bind Json.present?).map Json.sorted :=
  Json.lookup_written k (by simp [fields])

theorem Node.lookup_members (node : Node) (k : String) :
    node.members.lookup k = ((node.fields.lookup k).bind Json.present?).map Json.sorted :=
  Json.lookup_written k (by simp [fields])

theorem Mark.lookup_type (m : Mark) : m.members.lookup "type" = some (.str m.type.name) := by
  rw [lookup_members]
  cases m <;> rfl

theorem Node.lookup_type (node : Node) : node.members.lookup "type" = some (.str node.type.name) := by
  have hname : Json.present? (.str node.type.name) = some (.str node.type.name) := by
    cases node.type <;> rfl
  calc node.members.lookup "type"
      = (Json.present? (.str node.type.name)).map Json.sorted := node.lookup_members "type"
    _ = some (.str node.type.name) := by rw [hname]; rfl

/-! ## Attributes -/

/-- What is read back of the attributes of media. -/
theorem Media.lookup_attrs (m : Media) :
    (m.attrs.reverse.lookup "type").map Json.sorted = some (.str m.type.name) ∧
      (m.attrs.reverse.lookup "id").map Json.sorted = m.id.map Json.str ∧
      (m.attrs.reverse.lookup "collection").map Json.sorted = m.collection.map Json.str ∧
      (m.attrs.reverse.lookup "url").map Json.sorted = m.url.map Json.str ∧
      (m.attrs.reverse.lookup "alt").map Json.sorted = m.alt.map Json.str := by
  obtain ⟨type, _ | id, _ | collection, _ | url, _ | alt⟩ := m <;> exact ⟨rfl, rfl, rfl, rfl, rfl⟩

namespace Schema

theorem sorted_present?_obj (members : Members) :
    (Json.present? (.obj members)).map Json.sorted =
      if members = [] then none else some (.obj (Json.sortedMembers [] members)) := by
  cases members with
  | nil => rfl
  | cons member rest => simp [Json.present?, Json.sorted]

theorem attrsIssues_written (path : Path) {members attrs : Members}
    (h : members.lookup "attrs" = (Json.present? (.obj attrs)).map Json.sorted) :
    attrsIssues path members = [] := by
  rw [attrsIssues, h, sorted_present?_obj]
  by_cases hattrs : attrs = []
  · rw [if_pos hattrs]
  · rw [if_neg hattrs]

/-- An attribute is found where it was written. -/
theorem bind_lookup_attrs? (members : Members) (name : String) :
    (attrs? members).bind (List.lookup name) = (members.lookup "attrs").bind (Json.get? name) := by
  rw [attrs?]
  cases members.lookup "attrs" with
  | none => rfl
  | some attrs => cases attrs <;> rfl

theorem lookup_attrs? {members attrs : Members}
    (h : members.lookup "attrs" = (Json.present? (.obj attrs)).map Json.sorted) (name : String) :
    (attrs? members).bind (List.lookup name) = (attrs.reverse.lookup name).map Json.sorted := by
  rw [bind_lookup_attrs?, h, Json.get?_present?]

theorem optional_eq_nil_iff {attrs : Option Members} {name : String} {path : Path}
    {check : Path → Json → List Issue} :
    optional attrs name path check = [] ↔
      ∀ value, attrs.bind (List.lookup name) = some value → check ((path.key "attrs").key name) value = [] := by
  rw [optional]
  cases attrs.bind (List.lookup name) with
  | none => simp
  | some value => simp

theorem required_eq_nil_iff {attrs : Option Members} {name : String} {path : Path}
    {check : Path → Json → List Issue} :
    required attrs name path check = [] ↔
      ∃ value, attrs.bind (List.lookup name) = some value ∧ check ((path.key "attrs").key name) value = [] := by
  cases attrs with
  | none => simp [required]
  | some members =>
    rw [required, Option.bind_some]
    cases members.lookup name with
    | none => simp
    | some value => simp

theorem choiceIssues_eq_nil_iff {allowed : List String} {path : Path} {s : String} :
    choiceIssues allowed path (.str s) = [] ↔ s ∈ allowed := by
  rw [choiceIssues]
  by_cases h : s ∈ allowed <;> simp [h]

theorem integer?_nat (n : Nat) : integer? (.nat n) = if n < 0x8000000000000000 then some (n : Int) else none := by
  have hbounds : (-0x8000000000000000 ≤ (n : Int) ∧ (n : Int) < 0x8000000000000000) ↔ n < 0x8000000000000000 := by
    omega
  simp only [integer?, Json.nat, Number.toInt64?, hbounds]

theorem integerIssues_nat_eq_nil_iff {least most : Option Int} {path : Path} {n : Nat} :
    integerIssues least most path (.nat n) = [] ↔
      n < 0x8000000000000000 ∧ (∀ l ∈ least, l ≤ n) ∧ ∀ m ∈ most, n ≤ m := by
  rw [integerIssues, integer?_nat]
  by_cases h : n < 0x8000000000000000
  · rw [if_pos h, and_iff_right h]
    cases least <;> cases most <;> simp
  · rw [if_neg h]
    exact iff_of_false (List.cons_ne_nil _ _) fun hall => h hall.1

theorem stringIssues_map_eq_nil {value? : Option String} {path : Path} {value : Json}
    (h : value?.map Json.str = some value) : stringIssues path value = [] := by
  obtain ⟨s, -, rfl⟩ := Option.map_eq_some_iff.mp h
  rfl

/-- A text that must be there, and may be anything. -/
theorem required_stringIssues {attrs : Option Members} {name : String} {value? : Option String}
    (h : attrs.bind (List.lookup name) = value?.map Json.str) (path : Path) :
    required attrs name path stringIssues = [] ↔ value?.isSome := by
  rw [required_eq_nil_iff, h]
  constructor
  · rintro ⟨value, hvalue, -⟩
    obtain ⟨s, hs, -⟩ := Option.map_eq_some_iff.mp hvalue
    exact Option.isSome_iff_exists.mpr ⟨s, hs⟩
  · intro hsome
    obtain ⟨s, hs⟩ := Option.isSome_iff_exists.mp hsome
    exact ⟨.str s, by rw [hs]; rfl, rfl⟩

/-- A text that need not be there is never wrong. -/
theorem optional_stringIssues {attrs : Option Members} {name : String} {value? : Option String}
    (h : attrs.bind (List.lookup name) = value?.map Json.str) (path : Path) :
    optional attrs name path stringIssues = [] := by
  rw [optional_eq_nil_iff, h]
  exact fun value hvalue => stringIssues_map_eq_nil hvalue

/-! ## Attributes of nodes and marks -/

theorem nodeAttrIssues_container (c : Container) (path : Path) {members : Members}
    (h : members.lookup "attrs" = (Json.present? (.obj c.attrs)).map Json.sorted) :
    nodeAttrIssues c.type (attrs? members) path = [] ↔ c.wellFormed := by
  have hattr := lookup_attrs? h
  cases c with
  | heading level =>
    have hlevel : (attrs? members).bind (List.lookup "level") = some (.nat level.toNat) := hattr "level"
    have hbound : level.toNat < 256 := UInt8.toNat_lt level
    show required (attrs? members) "level" path (integerIssues (some 1) (some 6)) = [] ↔ _
    rw [required_eq_nil_iff, hlevel]
    simp [integerIssues_nat_eq_nil_iff, Container.wellFormed, UInt8.le_iff_toNat_le]
    omega
  | codeBlock language =>
    have hlanguage : (attrs? members).bind (List.lookup "language") = language.map Json.str := by
      rw [hattr]
      cases language <;> rfl
    show optional (attrs? members) "language" path stringIssues = [] ↔ _
    rw [optional_stringIssues hlanguage]
    exact iff_of_true rfl rfl
  | orderedList order =>
    have horder : (attrs? members).bind (List.lookup "order") =
        if order = 1 then none else some (.nat order.toNat) := by
      rw [hattr, Container.attrs]
      by_cases h1 : order = 1
      · rw [if_pos h1, if_pos h1]
        rfl
      · rw [if_neg h1, if_neg h1]
        rfl
    show optional (attrs? members) "order" path (integerIssues (some 0) none) = [] ↔ _
    rw [optional_eq_nil_iff, horder]
    by_cases h1 : order = 1
    · subst h1
      simp [Container.wellFormed]
    · simp [h1, integerIssues_nat_eq_nil_iff, Container.wellFormed]
  | table numbered layout =>
    have hnumbered : (attrs? members).bind (List.lookup "isNumberColumnEnabled") =
        some (.bool numbered) := hattr "isNumberColumnEnabled"
    have hlayout : (attrs? members).bind (List.lookup "layout") = some (.str layout.name) :=
      hattr "layout"
    have hknown : layout.name ∈ tableLayouts := by cases layout <;> decide
    show optional (attrs? members) "isNumberColumnEnabled" path booleanIssues ++
      optional (attrs? members) "layout" path (choiceIssues tableLayouts) = [] ↔ _
    rw [List.append_eq_nil_iff, optional_eq_nil_iff, optional_eq_nil_iff, hnumbered, hlayout]
    simp [booleanIssues, choiceIssues_eq_nil_iff, hknown, Container.wellFormed]
  | mediaSingle layout =>
    have hlayout : (attrs? members).bind (List.lookup "layout") = some (.str layout.name) :=
      hattr "layout"
    have hknown : layout.name ∈ mediaLayouts := by cases layout <;> decide
    show optional (attrs? members) "layout" path (choiceIssues mediaLayouts) = [] ↔ _
    rw [optional_eq_nil_iff, hlayout]
    simp [choiceIssues_eq_nil_iff, hknown, Container.wellFormed]
  | _ => simp [nodeAttrIssues, Container.type, Container.wellFormed]

theorem mediaIssues_written (m : Media) (path : Path) {members : Members}
    (h : members.lookup "attrs" = (Json.present? (.obj m.attrs)).map Json.sorted) :
    mediaIssues (attrs? members) path = [] ↔ m.wellFormed := by
  have hattr := lookup_attrs? h
  obtain ⟨htype, hid, hcollection, hurl, halt⟩ := m.lookup_attrs
  rw [← hattr] at htype hid hcollection hurl halt
  have hknown : required (attrs? members) "type" path (choiceIssues mediaTypes) = [] := by
    rw [required_eq_nil_iff, htype]
    refine ⟨_, rfl, choiceIssues_eq_nil_iff.mpr ?_⟩
    cases m.type <;> decide
  rw [mediaIssues, htype, hknown, List.nil_append]
  show _ ++ optional (attrs? members) "alt" path stringIssues = [] ↔ _
  rw [optional_stringIssues halt, List.append_nil, Media.wellFormed]
  cases m.type with
  | external =>
    show _ ++ [] = [] ↔ _
    rw [List.append_nil, required_stringIssues hurl]
  | file | link =>
    show _ ++ (_ ++ []) = [] ↔ _
    rw [List.append_nil, List.append_eq_nil_iff, required_stringIssues hid,
      required_stringIssues hcollection, Bool.and_eq_true]

theorem markAttrIssues_written (m : Mark) (path : Path) {members : Members}
    (h : members.lookup "attrs" = (Json.present? (.obj m.attrs)).map Json.sorted) :
    markAttrIssues m.type (attrs? members) path = [] ↔ m.wellFormed := by
  have hattr := lookup_attrs? h
  cases m with
  | link href title =>
    have hhref : (attrs? members).bind (List.lookup "href") = (some href).map Json.str := by
      rw [hattr]
      cases title <;> rfl
    have htitle : (attrs? members).bind (List.lookup "title") = title.map Json.str := by
      rw [hattr]
      cases title <;> rfl
    show required (attrs? members) "href" path stringIssues ++
      optional (attrs? members) "title" path stringIssues = [] ↔ _
    rw [optional_stringIssues htitle, List.append_nil, required_stringIssues hhref]
    exact iff_of_true rfl rfl
  | subsup script =>
    have htype : (attrs? members).bind (List.lookup "type") = some (.str script.name) := hattr "type"
    show required (attrs? members) "type" path (choiceIssues scripts) = [] ↔ _
    rw [required_eq_nil_iff, htype]
    refine iff_of_true ⟨_, rfl, choiceIssues_eq_nil_iff.mpr ?_⟩ rfl
    cases script <;> decide
  | textColor color =>
    have hcolor : (attrs? members).bind (List.lookup "color") = some (.str color) := hattr "color"
    show required (attrs? members) "color" path colorIssues = [] ↔ isColor color
    rw [required_eq_nil_iff, hcolor]
    by_cases hc : isColor color <;> simp [colorIssues, hc]
  | _ => exact iff_of_true rfl rfl

end Schema

end Adf
