import Adf.Node.Form

/-!
# Nodes as JSON

A node is written with its type, attributes, content, marks and text, in this order. A part that has nothing
in it is left out, and so is the number of an ordered list that starts at 1.
-/

namespace Adf

def Media.attrs (m : Media) : List (String × Json) :=
  let optional (name : String) (value : Option String) : List (String × Json) :=
    (value.map fun s => (name, Json.str s)).toList
  ("type", .str m.type.name) ::
    optional "id" m.id ++ optional "collection" m.collection ++ optional "url" m.url ++ optional "alt" m.alt

def Leaf.attrs : Leaf → List (String × Json)
  | .media m => m.attrs
  | .rule | .text _ _ | .hardBreak => []

def Container.attrs : Container → List (String × Json)
  | .heading level => [("level", .nat level.toNat)]
  | .codeBlock language => (language.map fun s => ("language", Json.str s)).toList
  | .orderedList order => if order = 1 then [] else [("order", .nat order.toNat)]
  | .table numbered layout => [("isNumberColumnEnabled", .bool numbered), ("layout", .str layout.name)]
  | .mediaSingle layout => [("layout", .str layout.name)]
  | .paragraph | .blockquote | .bulletList | .listItem | .tableRow | .tableHeader | .tableCell | .caption => []

/-- The attributes of a node of this form, in the order in which they are written. -/
def Form.attrs : Form → List (String × Json)
  | .heading level _ => [("level", .nat level.toNat)]
  | .codeBlock language _ =>
    match language with
    | some s => [("language", .str s)]
    | none => []
  | .orderedList order _ => if order ≠ 1 then [("order", .nat order.toNat)] else []
  | .table numbered layout _ => [("isNumberColumnEnabled", .bool numbered), ("layout", .str layout.name)]
  | .mediaSingle layout _ => [("layout", .str layout.name)]
  | .media m =>
    let optional := [("id", m.id), ("collection", m.collection), ("url", m.url), ("alt", m.alt)]
    ("type", .str m.type.name) :: optional.filterMap fun (name, value) => value.map fun s => (name, .str s)
  | _ => []

namespace Node

/-- The attributes, in the order in which they are written. -/
def attrs : Node → List (String × Json)
  | .leaf l => l.attrs
  | .container c _ => c.attrs

def leafJson (l : Leaf) : Json :=
  .obj (("type", .str l.type.name) :: Json.member "attrs" (.obj l.attrs) ++
    match l with
    | .text s marks => Json.member "marks" (.arr (marks.map Mark.toJson)) ++ Json.member "text" (.str s)
    | _ => [])

mutual

def toJson : Node → Json
  | .leaf l => leafJson l
  | .container c content =>
    .obj (("type", .str c.type.name) :: Json.member "attrs" (.obj c.attrs) ++
      Json.member "content" (.arr (listToJson content)))

def listToJson : List Node → List Json
  | [] => []
  | node :: rest => toJson node :: listToJson rest

end

end Node

end Adf
