/-!
# Names of finite vocabularies

A type whose values are written by name. Reading a name gives the first value of that name; a name of no
value is an `UnknownName`, which lists the names that would have been accepted.
-/

namespace Adf

class Named (α : Type) where
  values : List α
  name : α → String

namespace Named

variable {α : Type} [Named α]

def find? (text : String) : Option α :=
  values.find? fun value => name value = text

variable (α) in
def names : List String :=
  (values : List α).map name

/-- The names between quotes, as a choice. -/
def oneOf : List String → String
  | [a] => "`" ++ a ++ "`"
  | [a, b] => "`" ++ a ++ "` or `" ++ b ++ "`"
  | names => "one of " ++ ", ".intercalate (names.map fun name => "`" ++ name ++ "`")

variable (α) in
/-- What is wrong with a name that is no value of `α`. -/
def unknownVariant (text : String) : String :=
  "unknown variant `" ++ text ++ "`, expected " ++ oneOf (names α)

end Named

/-- A text that names no value of a vocabulary. -/
structure UnknownName where
  kind : String
  value : String
  expected : List String
deriving DecidableEq, Repr

namespace UnknownName

def message (e : UnknownName) : String :=
  "unknown " ++ e.kind ++ " '" ++ e.value ++ "' (expected one of: " ++ ", ".intercalate e.expected ++ ")"

end UnknownName

/-- Reads a name; `kind` is what the vocabulary is called in the error. -/
def Named.parse {α : Type} [Named α] (kind text : String) : Except UnknownName α :=
  match Named.find? text with
  | some value => .ok value
  | none => .error { kind, value := text, expected := Named.names α }

end Adf
