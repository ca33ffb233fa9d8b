import Adf.Json.Basic
import Adf.Schema.Problem

/-!
# Problems as JSON

A problem is written as an object of two members: `type` names the kind of problem and `data` holds its
fields. A field that is not there is written as null.

Reading is more lenient. The two members, and the fields, may come in any order, members of other names are
passed over, and a field that need not be there may be left out. A list may stand for an object if it has
all the values in order.
-/

namespace Adf

/-- A value that only names something: the name itself, or an object that maps it to null. -/
def Json.tag? : Json → Option String
  | .str name => some name
  | .obj [(name, .null)] => some name
  | _ => none

namespace Schema.Problem

def toJson (p : Problem) : Json :=
  let tagged (name : String) (data : List (String × Json)) : Json :=
    .obj [("type", .str name), ("data", .obj data)]
  let strings (texts : List String) : Json := .arr (texts.map .str)
  let orNull {α : Type} (value : Option α) (write : α → Json) : Json := value.elim .null write
  let float (x : Float) : Json := .num (.float x)
  match p with
  | invalidJson message => tagged "InvalidJson" [("message", .str message)]
  | typeMismatch expected got => tagged "TypeMismatch" [("expected", .str expected), ("got", .str got)]
  | missingProperty property => tagged "MissingRequiredProperty" [("property", .str property)]
  | notAllowedValue value allowed =>
    tagged "InvalidEnumValue" [("value", .str value), ("allowed", strings allowed)]
  | numberOutOfRange value minimum maximum =>
    tagged "NumberOutOfRange"
      [("value", float value), ("minimum", orNull minimum float), ("maximum", orNull maximum float)]
  | stringTooShort length least =>
    tagged "StringLengthInvalid" [("length", .nat length), ("min_length", .nat least)]
  | patternMismatch value pattern =>
    tagged "StringPatternMismatch" [("value", .str value), ("pattern", .str pattern)]
  | badArrayLength length least most =>
    tagged "ArrayLengthInvalid"
      [("length", .nat length), ("min_items", orNull least .nat), ("max_items", orNull most .nat)]
  | unknownNode nodeType => tagged "UnknownNodeType" [("node_type", .str nodeType)]
  | nodeNotAllowed nodeType parent =>
    tagged "NodeNotAllowed" [("node_type", .str nodeType), ("parent", .str parent)]
  | unknownMark markType => tagged "UnknownMarkType" [("mark_type", .str markType)]
  | marksNotAllowed nodeType => tagged "MarksNotAllowed" [("node_type", .str nodeType)]
  | incompatibleMarks mark other =>
    tagged "IncompatibleMarks" [("mark", .str mark), ("other", .str other)]

/-! ## Reading -/

/-- The values of the named fields, by name from an object or by position from a list. -/
def fields? (names : List String) : Json → Option (List (Option Json))
  | .obj members => some (names.map fun name => members.lookup name)
  | .arr items => if items.length = names.length then some (items.map some) else none
  | _ => none

def string? : Option Json → Option String
  | some (.str s) => some s
  | _ => none

def strings? : Option Json → Option (List String)
  | some (.arr items) => items.mapM fun item => string? (some item)
  | _ => none

/-- A length, below `2 ^ 64`. -/
def length? : Option Json → Option Nat
  | some (.num n) => n.toUInt64?.map UInt64.toNat
  | _ => none

def float? : Option Json → Option Float
  | some (.num n) => some n.toFloat
  | _ => none

/-- A field that may be null or left out. -/
def optional? {α : Type} (read : Option Json → Option α) : Option Json → Option (Option α)
  | none | some .null => some none
  | value => (read value).map some

def ofFields? (name : String) (data : Json) : Option Problem :=
  match name with
  | "InvalidJson" => do
    let [message] ← fields? ["message"] data | none
    return invalidJson (← string? message)
  | "TypeMismatch" => do
    let [expected, got] ← fields? ["expected", "got"] data | none
    return typeMismatch (← string? expected) (← string? got)
  | "MissingRequiredProperty" => do
    let [property] ← fields? ["property"] data | none
    return missingProperty (← string? property)
  | "InvalidEnumValue" => do
    let [value, allowed] ← fields? ["value", "allowed"] data | none
    return notAllowedValue (← string? value) (← strings? allowed)
  | "NumberOutOfRange" => do
    let [value, minimum, maximum] ← fields? ["value", "minimum", "maximum"] data | none
    return numberOutOfRange (← float? value) (← optional? float? minimum) (← optional? float? maximum)
  | "StringLengthInvalid" => do
    let [length, least] ← fields? ["length", "min_length"] data | none
    return stringTooShort (← length? length) (← length? least)
  | "StringPatternMismatch" => do
    let [value, pattern] ← fields? ["value", "pattern"] data | none
    return patternMismatch (← string? value) (← string? pattern)
  | "ArrayLengthInvalid" => do
    let [length, least, most] ← fields? ["length", "min_items", "max_items"] data | none
    return badArrayLength (← length? length) (← optional? length? least) (← optional? length? most)
  | "UnknownNodeType" => do
    let [nodeType] ← fields? ["node_type"] data | none
    return unknownNode (← string? nodeType)
  | "NodeNotAllowed" => do
    let [nodeType, parent] ← fields? ["node_type", "parent"] data | none
    return nodeNotAllowed (← string? nodeType) (← string? parent)
  | "UnknownMarkType" => do
    let [markType] ← fields? ["mark_type"] data | none
    return unknownMark (← string? markType)
  | "MarksNotAllowed" => do
    let [nodeType] ← fields? ["node_type"] data | none
    return marksNotAllowed (← string? nodeType)
  | "IncompatibleMarks" => do
    let [mark, other] ← fields? ["mark", "other"] data | none
    return incompatibleMarks (← string? mark) (← string? other)
  | _ => none

/-- Reads a problem from its JSON form. -/
def ofJson? (value : Json) : Option Problem := do
  let [some tag, some data] ← fields? ["type", "data"] value | none
  ofFields? (← tag.tag?) data

end Schema.Problem

end Adf
