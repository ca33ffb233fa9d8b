import Adf.Proofs.Document.Text
import Adf.Proofs.Json.Unambiguous
import Adf.Proofs.Schema.Attributes
import Mathlib.Data.List.Forall2

/-!
# The shape of a written node

A node is written as an object whose members come in one order and none of which has nothing in it. Only
texts have marks and a text of their own, and the children are written in their order, each in this shape.
A mark has a type and attributes, and the attributes of marks and nodes come in one order, too. All of this
holds of any tree, whatever is in it, and can be told from its text (`text_writtenAs`).
-/

namespace Adf

/-! ## Orders -/

/-- The names of the attributes of such a node, in the order of the text. -/
def NodeType.attrNames : NodeType → List String
  | .heading => ["level"]
  | .codeBlock => ["language"]
  | .orderedList => ["order"]
  | .table => ["isNumberColumnEnabled", "layout"]
  | .mediaSingle => ["layout"]
  | .media => ["type", "id", "collection", "url", "alt"]
  | .paragraph | .blockquote | .rule | .bulletList | .listItem | .tableRow | .tableHeader | .tableCell
  | .caption | .text | .hardBreak => []

/-- The names of the attributes of such a mark, in the order of the text. -/
def MarkType.attrNames : MarkType → List String
  | .link => ["href", "title"]
  | .subsup => ["type"]
  | .textColor => ["color"]
  | .strong | .em | .code | .strike | .underline => []

namespace Json

/-- Null, or a list, object or text with nothing in it. -/
inductive Void : Json → Prop
  | null : Void .null
  | list : Void (.arr [])
  | object : Void (.obj [])
  | text : Void (.str "")

/-- The members come in the order of the names, and each has something in it. -/
structure Clean (names : List String) (members : List (String × Json)) : Prop where
  order : (members.map Prod.fst).Sublist names
  full : ∀ member ∈ members, ¬member.2.Void

end Json

/-! ## Shapes -/

/-- The shape of a written mark: an object with the type and, unless there are none, the attributes. -/
inductive Mark.WrittenAs (m : Mark) : Json → Prop
  | intro {members : List (String × Json)}
      (clean : Json.Clean ["type", "attrs"] members)
      (type : members.head? = some ("type", .str m.type.name))
      (attrs : members.lookup "attrs" = (Json.obj m.attrs).present?)
      (attrs_order : (m.attrs.map Prod.fst).Sublist m.type.attrNames) : WrittenAs m (.obj members)

/-- The shape of a written node. A text in an attribute may be empty; a member never is. -/
inductive Node.WrittenAs : Node → Json → Prop
  | intro {node : Node} {members : List (String × Json)} {children marks : List Json}
      (clean : Json.Clean ["type", "attrs", "content", "marks", "text"] members)
      (type : members.head? = some ("type", .str node.type.name))
      (attrs : members.lookup "attrs" = (Json.obj node.attrs).present?)
      (attrs_order : (node.attrs.map Prod.fst).Sublist node.type.attrNames)
      (content : members.lookup "content" = (Json.arr children).present?)
      (content_shape : List.Forall₂ WrittenAs node.content children)
      (marks_of_text : members.lookup "marks" = (Json.arr marks).present?)
      (marks_shape : List.Forall₂ Mark.WrittenAs node.marks marks)
      (text : members.lookup "text" = (Json.str (node.text?.getD "")).present?)
      (only_text : node.type ≠ .text → "marks" ∉ members.map Prod.fst ∧ "text" ∉ members.map Prod.fst) :
      WrittenAs node (.obj members)

/-! ## Members with something in them -/

namespace Json

theorem not_void_of_present? {v w : Json} (hv : v ≠ .null) (h : w ∈ v.present?) : ¬w.Void := by
  rintro ⟨⟩ <;> unfold present? at h <;> split at h <;> simp_all

theorem clean_membersOf {fields : List (String × Json)} (hnull : ∀ field ∈ fields, field.2 ≠ .null) :
    Clean (fields.map Prod.fst) (membersOf fields) where
  order := map_fst_membersOf_sublist fields
  full := by
    intro m hm
    obtain ⟨⟨name, value⟩, hfield, hm⟩ := List.mem_flatMap.mp hm
    rw [member_eq] at hm
    obtain ⟨v, hv, rfl⟩ := List.mem_map.mp hm
    exact not_void_of_present? (hnull _ hfield) (Option.mem_toList.mp hv)

theorem not_mem_of_lookup_eq_none {k : String} {members : List (String × Json)} (h : members.lookup k = none) :
    k ∉ members.map Prod.fst := by
  intro hk
  obtain ⟨member, hmember, rfl⟩ := List.mem_map.mp hk
  exact absurd (List.lookup_eq_none_iff.mp h member hmember) (by simp)

/-- A text that need not be there comes under its name if at all. -/
theorem map_fst_optional_sublist (name : String) (value : Option String) :
    (((value.map fun s => (name, Json.str s)).toList).map Prod.fst).Sublist [name] := by
  cases value with
  | none => exact List.nil_sublist _
  | some s => exact List.Sublist.refl _

end Json

open Json

/-! ## Marks -/

namespace Mark

theorem attrs_order (m : Mark) : (m.attrs.map Prod.fst).Sublist m.type.attrNames := by
  cases m with
  | link href title => exact (map_fst_optional_sublist "title" title).cons_cons "href"
  | _ => exact List.Sublist.refl _

theorem toJson_writtenAs (m : Mark) : m.WrittenAs m.toJson := by
  have hnodup : (m.fields.map Prod.fst).Nodup := by simp [fields]
  have hclean : Clean (m.fields.map Prod.fst) (membersOf m.fields) := clean_membersOf (by simp [fields])
  rw [toJson_eq]
  refine .intro hclean ?_ (lookup_membersOf "attrs" hnodup) m.attrs_order
  rw [membersOf, fields, List.flatMap_cons, MarkType.member_name]
  rfl

end Mark

/-! ## Nodes -/

namespace Node

theorem attrs_order (node : Node) : (node.attrs.map Prod.fst).Sublist node.type.attrNames := by
  have hoptional := map_fst_optional_sublist
  cases node with
  | leaf l =>
    cases l with
    | media m =>
      have hfirst := (hoptional "id" m.id).append (hoptional "collection" m.collection)
      have hrest := (hfirst.append (hoptional "url" m.url)).append (hoptional "alt" m.alt)
      rw [← List.map_append, ← List.map_append, ← List.map_append] at hrest
      exact hrest.cons_cons "type"
    | _ => exact List.Sublist.refl _
  | container c content =>
    cases c with
    | codeBlock language => exact hoptional "language" language
    | orderedList order =>
      show ((if order = 1 then [] else [("order", Json.nat order.toNat)]).map Prod.fst).Sublist ["order"]
      split
      · exact List.nil_sublist _
      · exact List.Sublist.refl _
    | _ => exact List.Sublist.refl _

theorem marks_and_text_of_type_ne {node : Node} (h : node.type ≠ .text) :
    node.marks = [] ∧ node.text? = none := by
  cases node with
  | leaf l =>
    cases l with
    | text s marks => exact absurd rfl h
    | _ => exact ⟨rfl, rfl⟩
  | container c content => exact ⟨rfl, rfl⟩

/-- A node has the shape if its children do. -/
theorem toJson_writtenAs_of_content {node : Node}
    (h : List.Forall₂ WrittenAs node.content (listToJson node.content)) : node.WrittenAs node.toJson := by
  have hnodup : (node.fields.map Prod.fst).Nodup := by simp [fields]
  have hlookup (k : String) : (membersOf node.fields).lookup k = (node.fields.lookup k).bind present? :=
    lookup_membersOf k hnodup
  have hmarks : List.Forall₂ Mark.WrittenAs node.marks (node.marks.map Mark.toJson) := by
    rw [List.forall₂_map_right_iff, List.forall₂_same]
    exact fun m _ => m.toJson_writtenAs
  have hclean : Clean (node.fields.map Prod.fst) (membersOf node.fields) := clean_membersOf (by simp [fields])
  rw [toJson_eq]
  refine .intro hclean ?_ (hlookup "attrs") node.attrs_order (hlookup "content") h (hlookup "marks") hmarks
    (hlookup "text") ?_
  · rw [membersOf, fields, List.flatMap_cons, NodeType.member_name]
    rfl
  · intro htype
    obtain ⟨hnone, htext⟩ := marks_and_text_of_type_ne htype
    refine ⟨not_mem_of_lookup_eq_none ((hlookup "marks").trans ?_),
      not_mem_of_lookup_eq_none ((hlookup "text").trans ?_)⟩
    · show present? (.arr (node.marks.map Mark.toJson)) = none
      rw [hnone]
      rfl
    · show present? (.str (node.text?.getD "")) = none
      rw [htext]
      rfl

mutual

theorem toJson_shape : ∀ node : Node, node.WrittenAs node.toJson
  | .leaf _ => toJson_writtenAs_of_content .nil
  | .container _ content => toJson_writtenAs_of_content (listToJson_shape content)

theorem listToJson_shape : ∀ nodes : List Node, List.Forall₂ WrittenAs nodes (listToJson nodes)
  | [] => .nil
  | node :: rest => .cons (toJson_shape node) (listToJson_shape rest)

end

/-- **Every node is written in shape.** What is written of a node has its shape, and no value but this one has
the same text, in whatever blanks it is set. -/
theorem text_writtenAs (node : Node) :
    node.WrittenAs node.toJson ∧ ∀ style : Json.Style, style.Blank → ∀ v : Json,
      v.text style = node.toJson.text style → v = node.toJson :=
  ⟨toJson_shape node, fun _ hstyle _ htext => text_inj hstyle node.unsigned_toJson htext⟩

/-- A list that starts at 3, of a picture with no caption, a code block in a language without a name and a text
with two marks. -/
def mixedList : Node :=
  .container (.orderedList 3) [.container .listItem
    [.container (.mediaSingle .wide) [.leaf (.media ⟨.file, some "7", some "", none, none⟩)],
      .container (.codeBlock (some "")) [], .container .paragraph [.leaf (.text "" []),
        .leaf (.text "here" [.link "/" (some "there"), .em])]]]

/-- What is written of the list. -/
def mixedListJson : Json :=
  let typed (type : String) (rest : List (String × Json)) : Json := .obj (("type", .str type) :: rest)
  let content (children : List Json) : String × Json := ("content", .arr children)
  let attrs (members : List (String × Json)) : String × Json := ("attrs", .obj members)
  let picture := typed "media" [attrs [("type", .str "file"), ("id", .str "7"), ("collection", .str "")]]
  let link := typed "link" [attrs [("href", .str "/"), ("title", .str "there")]]
  let marked := typed "text" [("marks", .arr [link, typed "em" []]), ("text", .str "here")]
  typed "orderedList" [attrs [("order", .nat 3)], content [typed "listItem" [content
    [typed "mediaSingle" [attrs [("layout", .str "wide")], content [picture]],
      typed "codeBlock" [attrs [("language", .str "")]],
      typed "paragraph" [content [typed "text" [], marked]]]]]]

theorem text_of_mixedList :
    Style.compact.Blank ∧ mixedListJson.text .compact = mixedList.toJson.text .compact ∧
      mixedListJson = mixedList.toJson ∧ mixedList.WrittenAs mixedListJson := by
  have htext : mixedListJson.text .compact = mixedList.toJson.text .compact := rfl
  obtain ⟨hshape, honly⟩ := text_writtenAs mixedList
  have hsame : mixedListJson = mixedList.toJson := honly .compact Style.blank_compact mixedListJson htext
  exact ⟨Style.blank_compact, htext, hsame, hsame ▸ hshape⟩

end Node

end Adf
