import Adf.Json.Basic
import Adf.Vocabulary

/-!
# The grammar of documents

Which JSON values are documents, said without the checks: by predicates on values and attributes, and by an
inductive grammar of nodes and their content. `IsNode parent allowed v` says that `v` is a node inside
`parent`, at a place for the types `allowed`; only the texts of a code block ask what the parent is. Members
that the grammar does not name may be anything.
-/

namespace Adf.Schema

/-! ## Single values -/

def IsString (v : Json) : Prop := ∃ s, v = .str s

def IsBoolean (v : Json) : Prop := ∃ b, v = .bool b

/-- A signed integer of 64 bits, written without a fraction and without an exponent. -/
def IsInteger (p : Int → Prop) (v : Json) : Prop :=
  ∃ z : Int, v = .num (.int z) ∧ (-0x8000000000000000 ≤ z ∧ z ≤ 0x7fffffffffffffff) ∧ p z

def IsOneOf (names : List String) (v : Json) : Prop := ∃ s ∈ names, v = .str s

/-- A hash and six hexadecimal digits. -/
def IsColor (v : Json) : Prop :=
  ∃ s digits, v = .str s ∧ s.toList = '#' :: digits ∧ digits.length = 6 ∧
    ∀ c ∈ digits, c ∈ "0123456789abcdefABCDEF".toList

/-- The value of a member that is not there, or an object. -/
inductive AbsentOrObject : Option Json → Prop
  | absent : AbsentOrObject none
  | object (members : List (String × Json)) : AbsentOrObject (some (.obj members))

/-- The value of a member that is not there, or a list with nothing in it. -/
inductive AbsentOrEmpty : Option Json → Prop
  | absent : AbsentOrEmpty none
  | empty : AbsentOrEmpty (some (.arr []))

/-! ## Attributes -/

/-- The attribute of that name, if the value has attributes and it is among them. -/
def attr? (name : String) (v : Json) : Option Json := (v.get? "attrs").bind (Json.get? name)

/-- The value has the attribute. -/
def Requires (name : String) (p : Json → Prop) (v : Json) : Prop := ∃ a, attr? name v = some a ∧ p a

/-- The value may have the attribute. -/
def Permits (name : String) (p : Json → Prop) (v : Json) : Prop := ∀ a, attr? name v = some a → p a

/-- Media that lie elsewhere have an address, other media an identifier in a collection. -/
def IsMedia (v : Json) : Prop :=
  (Requires "type" (IsOneOf ["external"]) v ∧ Requires "url" IsString v ∨
    Requires "type" (IsOneOf ["file", "link"]) v ∧ Requires "id" IsString v ∧
      Requires "collection" IsString v) ∧
    Permits "alt" IsString v

/-- The attributes of a node of the given type. -/
def HasAttributes (v : Json) : NodeType → Prop
  | .heading => Requires "level" (IsInteger fun z => 1 ≤ z ∧ z ≤ 6) v
  | .codeBlock => Permits "language" IsString v
  | .orderedList => Permits "order" (IsInteger fun z => 0 ≤ z) v
  | .table => Permits "isNumberColumnEnabled" IsBoolean v ∧
      Permits "layout"
        (IsOneOf ["default", "center", "wide", "full-width", "align-start", "align-end"]) v
  | .mediaSingle =>
      Permits "layout" (IsOneOf
        ["center", "wide", "full-width", "wrap-left", "wrap-right", "align-start", "align-end"]) v
  | .media => IsMedia v
  | .paragraph | .blockquote | .rule | .bulletList | .listItem | .tableRow | .tableHeader | .tableCell
  | .caption | .text | .hardBreak => True

/-! ## Marks -/

/-- The attributes of a mark of the given type. -/
def HasMarkAttributes (v : Json) : MarkType → Prop
  | .link => Requires "href" IsString v ∧ Permits "title" IsString v
  | .subsup => Requires "type" (IsOneOf ["sub", "sup"]) v
  | .textColor => Requires "color" IsColor v
  | .strong | .em | .code | .strike | .underline => True

structure IsMark (type : MarkType) (v : Json) : Prop where
  typed : v.get? "type" = some (.str type.name)
  attrs : AbsentOrObject (v.get? "attrs")
  attributes : HasMarkAttributes v type

/-- A list of marks. Beside `code` there may be nothing but links. -/
def IsMarkList (v : Json) : Prop :=
  ∃ marks, v = .arr marks ∧ (∀ m ∈ marks, ∃ type, IsMark type m) ∧
    ((∃ m ∈ marks, IsMark .code m) → ∀ m ∈ marks, IsMark .code m ∨ IsMark .link m)

/-! ## Nodes -/

/-- What makes a node a text: it has something in it, its marks are a list of marks if they are there, and
in a code block it is not marked. -/
structure IsText (parent : String) (v : Json) : Prop where
  text : ∃ s, v.get? "text" = some (.str s) ∧ s ≠ ""
  marks : ∀ marks, v.get? "marks" = some marks → IsMarkList marks
  unmarked : parent = "codeBlock" → AbsentOrEmpty (v.get? "marks")

mutual

inductive IsNode : (parent : String) → (allowed : List NodeType) → Json → Prop
  | node {parent : String} {allowed : List NodeType} {type : NodeType} {v : Json}
      (typed : v.get? "type" = some (.str type.name)) (placed : type ∈ allowed)
      (attrs : AbsentOrObject (v.get? "attrs")) (attributes : HasAttributes v type)
      (content : IsContent type (v.get? "content"))
      (text : type = .text → IsText parent v)
      (unmarked : type ≠ .text → AbsentOrEmpty (v.get? "marks")) : IsNode parent allowed v

/-- The content of a node of the given type, if it has any. -/
inductive IsContent : NodeType → Option Json → Prop
  | noInlines {type : NodeType} (h : type ∈ [.paragraph, .heading, .caption]) : IsContent type none
  | inlines {type : NodeType} (h : type ∈ [.paragraph, .heading, .caption]) {items : List Json}
      (each : ∀ item ∈ items, IsNode type.name [.text, .hardBreak] item) : IsContent type (some (.arr items))
  | noCode : IsContent .codeBlock none
  | code {items : List Json} (each : ∀ item ∈ items, IsNode "codeBlock" [.text] item) :
      IsContent .codeBlock (some (.arr items))
  | plainBlocks {type : NodeType} (h : type ∈ [.blockquote, .listItem]) {items : List Json}
      (nonempty : items ≠ [])
      (each : ∀ item ∈ items, IsNode type.name
        [.paragraph, .bulletList, .orderedList, .codeBlock, .mediaSingle] item) :
      IsContent type (some (.arr items))
  | cellBlocks {type : NodeType} (h : type ∈ [.tableHeader, .tableCell]) {items : List Json}
      (nonempty : items ≠ [])
      (each : ∀ item ∈ items, IsNode type.name
        [.paragraph, .heading, .blockquote, .bulletList, .orderedList, .codeBlock, .rule, .mediaSingle]
        item) :
      IsContent type (some (.arr items))
  | listItems {type : NodeType} (h : type ∈ [.bulletList, .orderedList]) {items : List Json}
      (nonempty : items ≠ []) (each : ∀ item ∈ items, IsNode type.name [.listItem] item) :
      IsContent type (some (.arr items))
  | rows {items : List Json} (nonempty : items ≠ [])
      (each : ∀ item ∈ items, IsNode "table" [.tableRow] item) : IsContent .table (some (.arr items))
  | cells {items : List Json} (nonempty : items ≠ [])
      (each : ∀ item ∈ items, IsNode "tableRow" [.tableCell, .tableHeader] item) :
      IsContent .tableRow (some (.arr items))
  | media {first : Json} (media : IsNode "mediaSingle" [.media] first) :
      IsContent .mediaSingle (some (.arr [first]))
  | mediaAndCaption {first second : Json} (media : IsNode "mediaSingle" [.media] first)
      (caption : IsNode "mediaSingle" [.caption] second) :
      IsContent .mediaSingle (some (.arr [first, second]))
  | nothing {type : NodeType} (h : type ∈ [.rule, .hardBreak]) {content : Option Json}
      (none : AbsentOrEmpty content) : IsContent type content
  | unread {type : NodeType} (h : type ∈ [.text, .media]) (content : Option Json) : IsContent type content

end

/-! ## Documents -/

structure IsDocument (v : Json) : Prop where
  version : ∃ version, v.get? "version" = some version ∧ IsInteger (· = 1) version
  typed : v.get? "type" = some (.str "doc")
  content : ∃ items, v.get? "content" = some (.arr items) ∧ ∀ item ∈ items, IsNode "doc"
    [.paragraph, .heading, .blockquote, .codeBlock, .rule, .bulletList, .orderedList, .table, .mediaSingle]
    item

end Adf.Schema
