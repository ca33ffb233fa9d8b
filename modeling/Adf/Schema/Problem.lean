import Adf.Decimal
import Adf.Schema.Path

/-!
# What can be wrong with a document

A `Problem` says what is wrong, an `Issue` also where. Every problem has a code and a message.
-/

namespace Adf.Schema

inductive Problem where
  /-- The text is not JSON. -/
  | invalidJson (message : String)
  | typeMismatch (expected got : String)
  | missingProperty (property : String)
  | notAllowedValue (value : String) (allowed : List String)
  | numberOutOfRange (value : Float) (minimum maximum : Option Float)
  | stringTooShort (length least : Nat)
  | patternMismatch (value pattern : String)
  | badArrayLength (length : Nat) (least most : Option Nat)
  | unknownNode (nodeType : String)
  | nodeNotAllowed (nodeType parent : String)
  | unknownMark (markType : String)
  | marksNotAllowed (nodeType : String)
  /-- Two marks that exclude each other. -/
  | incompatibleMarks (mark other : String)
deriving Repr

namespace Problem

def code : Problem → String
  | invalidJson _ => "ADF-1-1"
  | missingProperty _ => "ADF-1-10"
  | typeMismatch _ _ => "ADF-1-11"
  | notAllowedValue _ _ => "ADF-1-12"
  | badArrayLength _ _ _ => "ADF-1-13"
  | patternMismatch _ _ => "ADF-1-14"
  | numberOutOfRange _ _ _ => "ADF-1-15"
  | stringTooShort _ _ => "ADF-1-20"
  | unknownNode _ => "ADF-2-1"
  | nodeNotAllowed _ _ => "ADF-2-2"
  | unknownMark _ => "ADF-2-3"
  | marksNotAllowed _ => "ADF-2-4"
  | incompatibleMarks _ _ => "ADF-2-5"

/-- How a number lies outside its bounds. With one bound the number is on its wrong side. -/
def rangeMessage (value : Float) : Option Float → Option Float → String
  | some least, some most =>
    s!"Number {Decimal.text value} is not between {Decimal.text least} and {Decimal.text most}"
  | some least, none => s!"Number {Decimal.text value} is less than minimum {Decimal.text least}"
  | none, some most => s!"Number {Decimal.text value} is greater than maximum {Decimal.text most}"
  | none, none => s!"Number {Decimal.text value} is out of range"

/-- How a length lies outside its bounds. The upper bound is named unless the length is below the lower. -/
def lengthMessage (length : Nat) (least most : Option Nat) : String :=
  match least.filter (length < ·), most with
  | some least, _ => s!"Array length {length} is less than minimum {least}"
  | none, some most => s!"Array length {length} is greater than maximum {most}"
  | none, none => s!"Array length {length} is invalid"

def message : Problem → String
  | invalidJson message => s!"Invalid JSON: {message}"
  | typeMismatch expected got => s!"Expected {expected}, got {got}"
  | missingProperty property => s!"Missing required property '{property}'"
  | notAllowedValue value allowed =>
    "Value must be one of: " ++ ", ".intercalate allowed ++ ", got '" ++ value ++ "'"
  | numberOutOfRange value minimum maximum => rangeMessage value minimum maximum
  | stringTooShort length least => s!"String length {length} is less than minimum {least}"
  | patternMismatch value pattern => s!"String '{value}' does not match pattern '{pattern}'"
  | badArrayLength length least most => lengthMessage length least most
  | unknownNode nodeType => s!"Unknown node type '{nodeType}'"
  | nodeNotAllowed nodeType parent => s!"Node '{nodeType}' is not allowed inside '{parent}'"
  | unknownMark markType => s!"Unknown mark type '{markType}'"
  | marksNotAllowed nodeType => s!"Node '{nodeType}' cannot carry marks"
  | incompatibleMarks mark other => s!"Mark '{mark}' cannot be combined with '{other}'"

end Problem

/-- A problem and the place where it was found. -/
structure Issue where
  problem : Problem
  path : Path
deriving Repr

namespace Issue

def text (i : Issue) : String :=
  s!"[{i.problem.code}] Validation error at {i.path.text}: {i.problem.message}"

/-- The same problem, found in a value that itself lies at `p`. -/
def below (p : Path) (i : Issue) : Issue := { i with path := p ++ i.path }

/-- One line for a list of issues: the first of them and how many follow. -/
def summary : List Issue → String
  | [] => "no validation errors"
  | [only] => only.text
  | first :: rest => s!"{first.text} (and {rest.length} more)"

end Issue

end Adf.Schema
