import Adf.Json.Reader
import Adf.Schema.Problem
import Adf.Schema.Rules

/-!
# Checking a document

The checks walk a JSON value with the path to it and list every issue, in the order of the document. Of one
node first its place is checked, then its attributes, its content, and its text and marks. Members that no
rule names are not looked at.
-/

namespace Adf.Schema

abbrev Members := List (String × Json)

/-! ## Single values -/

def mismatch (path : Path) (expected : String) (got : Json) : Issue :=
  ⟨.typeMismatch expected got.typeName, path⟩

def missing (path : Path) (property : String) : Issue :=
  ⟨.missingProperty property, path⟩

def stringIssues (path : Path) : Json → List Issue
  | .str _ => []
  | value => [mismatch path "string" value]

def booleanIssues (path : Path) : Json → List Issue
  | .bool _ => []
  | value => [mismatch path "boolean" value]

def integer? : Json → Option Int
  | .num n => n.toInt64?
  | _ => none

/-- An integer between the bounds that are given. -/
def integerIssues (least most : Option Int) (path : Path) (value : Json) : List Issue :=
  match integer? value with
  | none => [mismatch path "integer" value]
  | some z =>
    if least.any (z < ·) || most.any (· < z) then
      [⟨.numberOutOfRange (.ofInt z) (least.map .ofInt) (most.map .ofInt), path⟩]
    else []

def choiceIssues (allowed : List String) (path : Path) : Json → List Issue
  | .str s => if s ∈ allowed then [] else [⟨.notAllowedValue s allowed, path⟩]
  | value => [mismatch path "string" value]

def colorIssues (path : Path) : Json → List Issue
  | .str s => if isColor s then [] else [⟨.patternMismatch s colorPattern, path⟩]
  | value => [mismatch path "string" value]

/-! ## Attributes -/

/-- The attributes of a node or mark, if it has an object of them. -/
def attrs? (members : Members) : Option Members :=
  match members.lookup "attrs" with
  | some (.obj attrs) => some attrs
  | _ => none

/-- The attributes must be an object, if they are there. -/
def attrsIssues (path : Path) (members : Members) : List Issue :=
  match members.lookup "attrs" with
  | none | some (.obj _) => []
  | some other => [mismatch (path.key "attrs") "object" other]

/-- Checks an attribute if it is there. -/
def optional (attrs : Option Members) (name : String) (path : Path)
    (check : Path → Json → List Issue) : List Issue :=
  match attrs.bind (List.lookup name) with
  | some value => check ((path.key "attrs").key name) value
  | none => []

/-- Checks an attribute that must be there. -/
def required (attrs : Option Members) (name : String) (path : Path)
    (check : Path → Json → List Issue) : List Issue :=
  match attrs with
  | none => [missing path "attrs"]
  | some members =>
    match members.lookup name with
    | some value => check ((path.key "attrs").key name) value
    | none => [missing (path.key "attrs") name]

/-- The attributes that media of the given type must have. -/
def mediaKeys : Json → List String
  | .str "external" => ["url"]
  | .str "file" | .str "link" => ["id", "collection"]
  | _ => []

/-- Media without a type are not checked further. -/
def mediaIssues (attrs : Option Members) (path : Path) : List Issue :=
  required attrs "type" path (choiceIssues mediaTypes) ++
    match attrs.bind (List.lookup "type") with
    | none => []
    | some type =>
      (mediaKeys type).flatMap (fun name => required attrs name path stringIssues) ++
        optional attrs "alt" path stringIssues

def nodeAttrIssues (type : NodeType) (attrs : Option Members) (path : Path) : List Issue :=
  match type with
  | .heading => required attrs "level" path (integerIssues (some 1) (some 6))
  | .codeBlock => optional attrs "language" path stringIssues
  | .orderedList => optional attrs "order" path (integerIssues (some 0) none)
  | .table =>
    optional attrs "isNumberColumnEnabled" path booleanIssues ++
      optional attrs "layout" path (choiceIssues tableLayouts)
  | .mediaSingle => optional attrs "layout" path (choiceIssues mediaLayouts)
  | .media => mediaIssues attrs path
  | _ => []

def markAttrIssues (type : MarkType) (attrs : Option Members) (path : Path) : List Issue :=
  match type with
  | .link => required attrs "href" path stringIssues ++ optional attrs "title" path stringIssues
  | .subsup => required attrs "type" path (choiceIssues scripts)
  | .textColor => required attrs "color" path colorIssues
  | _ => []

/-! ## Marks -/

/-- The type of a mark, if it is a known one. -/
def markType? (mark : Json) : Option MarkType :=
  match mark.get? "type" with
  | some (.str name) => knownMark? name
  | _ => none

/-- A mark whose attributes are no object is not checked further. -/
def markIssues (path : Path) : Json → List Issue
  | .obj members =>
    match members.lookup "type" with
    | none => [missing path "type"]
    | some (.str name) =>
      match knownMark? name with
      | none => [⟨.unknownMark name, path.key "type"⟩]
      | some type =>
        match attrsIssues path members with
        | [] => markAttrIssues type (attrs? members) path
        | issues => issues
    | some other => [mismatch (path.key "type") "string" other]
  | value => [mismatch path "object" value]

/-- Beside a `code` mark only some marks may stand. -/
def exclusionIssues (path : Path) (marks : List Json) : List Issue :=
  if marks.any (markType? · = some .code) then
    marks.zipIdx.flatMap fun (mark, i) =>
      match markType? mark with
      | some type =>
        if type ∈ besideCode then []
        else [⟨.incompatibleMarks "code" type.name, path.index i⟩]
      | none => []
  else []

def markListIssues (path : Path) : Json → List Issue
  | .arr marks =>
    marks.zipIdx.flatMap (fun (mark, i) => markIssues (path.index i) mark) ++ exclusionIssues path marks
  | value => [mismatch path "array" value]

/-- There are no marks, or an empty list of them. -/
def unmarked (members : Members) : Bool :=
  match members.lookup "marks" with
  | none | some (.arr []) => true
  | _ => false

/-! ## Texts -/

/-- A text must not be empty. Inside a code block it must not be marked. -/
def textIssues (path : Path) (parent : String) (members : Members) : List Issue :=
  (match members.lookup "text" with
    | some (.str s) => if s.isEmpty then [⟨.stringTooShort 0 1, path.key "text"⟩] else []
    | some other => [mismatch (path.key "text") "string" other]
    | none => [missing path "text"]) ++
  match members.lookup "marks" with
  | none => []
  | some marks =>
    if parent = "codeBlock" ∧ ¬unmarked members then
      [⟨.marksNotAllowed "text", path.key "marks"⟩]
    else markListIssues (path.key "marks") marks

/-- Only texts carry marks. -/
def markPlaceIssues (type : NodeType) (path : Path) (members : Members) : List Issue :=
  if unmarked members then [] else [⟨.marksNotAllowed type.name, path.key "marks"⟩]

/-! ## Nodes -/

def placeIssues (type : NodeType) (allowed : List NodeType) (parent : String) (path : Path) : List Issue :=
  if type ∈ allowed then [] else [⟨.nodeNotAllowed type.name parent, path⟩]

/-- The number of children, if it is outside its bounds. -/
def lengthIssues (least : Nat) (most : Option Nat) (path : Path) (length : Nat) : List Issue :=
  if length < least || most.any (· < length) then
    [⟨.badArrayLength length (if least = 0 then none else some least) most, path⟩]
  else []

/-- A list that must be there when it needs an element. -/
def absenceIssues (rule : ContentRule) (path : Path) : List Issue :=
  match rule with
  | .children _ (_ + 1) _ => [missing path "content"]
  | _ => []

mutual

/-- A node inside `parent`, which allows the given types at this place. -/
def nodeIssues (path : Path) (parent : String) (allowed : List NodeType) : Json → List Issue
  | .obj members =>
    match members.lookup "type" with
    | none => [missing path "type"]
    | some (.str name) =>
      match knownNode? name with
      | none => [⟨.unknownNode name, path.key "type"⟩]
      | some type =>
        placeIssues type allowed parent path ++ attrsIssues path members ++
          nodeAttrIssues type (attrs? members) path ++
          contentIssues path type.name (contentRule type) members ++
          if type = .text then textIssues path parent members else markPlaceIssues type path members
    | some other => [mismatch (path.key "type") "string" other]
  | value => [mismatch path "object" value]

/-- Finds the content among the members of a node and checks it. -/
def contentIssues (path : Path) (parent : String) (rule : ContentRule) : Members → List Issue
  | [] => absenceIssues rule path
  | (name, value) :: rest =>
    if name = "content" then childrenIssues (path.key "content") parent rule value
    else contentIssues path parent rule rest

def childrenIssues (path : Path) (parent : String) (rule : ContentRule) : Json → List Issue
  | .arr items =>
    match rule with
    | .ignored => []
    | .empty => lengthIssues 0 (some 0) path items.length
    | .children allowed least most =>
      lengthIssues least most path items.length ++ itemIssues path parent allowed 0 items
  | value =>
    match rule with
    | .ignored => []
    | _ => [mismatch path "array" value]

/-- The children from the `i`-th on. -/
def itemIssues (path : Path) (parent : String) (allowed : Nat → List NodeType) (i : Nat) :
    List Json → List Issue
  | [] => []
  | item :: rest =>
    nodeIssues (path.index i) parent (allowed i) item ++ itemIssues path parent allowed (i + 1) rest

end

/-! ## Documents -/

/-- The issues of a document that lies at `path`. -/
def documentIssues (path : Path) : Json → List Issue
  | .obj members =>
    (match members.lookup "version" with
      | some version => integerIssues (some 1) (some 1) (path.key "version") version
      | none => [missing path "version"]) ++
    (match members.lookup "type" with
      | some type => choiceIssues ["doc"] (path.key "type") type
      | none => [missing path "type"]) ++
    match members.lookup "content" with
    | some content => childrenIssues (path.key "content") "doc" (.any topLevel) content
    | none => [missing path "content"]
  | value => [mismatch path "object" value]

/-- Every issue of a document; an empty list means that it is valid. -/
def validate (document : Json) : List Issue := documentIssues .root document

/-- Reads a document from the bytes of its text and checks it. -/
def validateBytes (bytes : List UInt8) : List Issue :=
  match Json.read Json.depthLimit bytes with
  | .ok document => validate document
  | .error e => [⟨.invalidJson (e.messageIn Json.depthLimit bytes), .root⟩]

def validateText (text : String) : List Issue :=
  validateBytes text.toByteArray.toList

end Adf.Schema
