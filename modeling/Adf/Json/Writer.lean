import Adf.Decimal
import Adf.Json.Basic

/-!
# Writing JSON

One writer for every `Style`: a style says what stands before each element of a non-empty container and
before its closing bracket, and what divides a name from its value. The compact style writes no blanks, the
pretty style one element a line, indented by two blanks a level. Inside a string only the quote, the
backslash and the characters below U+0020 are escaped.
-/

namespace Adf.Json

structure Style where
  /-- What stands before an element at this depth. -/
  line : Nat → List Char
  /-- What stands between a name and its value. -/
  colon : List Char

def Style.compact : Style where
  line _ := []
  colon := [':']

def Style.pretty : Style where
  line depth := '\n' :: List.replicate (2 * depth) ' '
  colon := [':', ' ']

/-- A digit below 16, in lower case. -/
def hexDigit (n : Nat) : Char :=
  if n < 10 then Char.ofNat (48 + n) else Char.ofNat (87 + n)

/-- The written form of one character of a string. -/
def escape (c : Char) : List Char :=
  if c = '"' then ['\\', '"']
  else if c = '\\' then ['\\', '\\']
  else if 0x20 ≤ c.toNat then [c]
  else if c = '\x08' then ['\\', 'b']
  else if c = '\t' then ['\\', 't']
  else if c = '\n' then ['\\', 'n']
  else if c = '\x0c' then ['\\', 'f']
  else if c = '\r' then ['\\', 'r']
  else ['\\', 'u', '0', '0', hexDigit (c.toNat / 16), hexDigit (c.toNat % 16)]

def quoted (s : String) : List Char :=
  '"' :: s.toList.flatMap escape ++ ['"']

/-- A double is written with a point, so that it is not taken for an integer. -/
def numberChars : Number → List Char
  | .int z => (toString z).toList
  | .float x =>
    let text := (Decimal.text x).toList
    if text.contains '.' then text else text ++ ['.', '0']

mutual

/-- The text of a value that stands at the given depth. -/
def chars (style : Style) (depth : Nat) : Json → List Char
  | .null => ['n', 'u', 'l', 'l']
  | .bool true => ['t', 'r', 'u', 'e']
  | .bool false => ['f', 'a', 'l', 's', 'e']
  | .num n => numberChars n
  | .str s => quoted s
  | .arr [] => ['[', ']']
  | .arr (item :: rest) =>
    '[' :: style.line (depth + 1) ++ chars style (depth + 1) item ++ itemChars style (depth + 1) rest
      ++ style.line depth ++ [']']
  | .obj [] => ['\x7b', '\x7d']
  | .obj ((name, value) :: rest) =>
    '\x7b' :: style.line (depth + 1) ++ quoted name ++ style.colon ++ chars style (depth + 1) value
      ++ memberChars style (depth + 1) rest ++ style.line depth ++ ['\x7d']

/-- The elements after the first, each behind a comma. -/
def itemChars (style : Style) (depth : Nat) : List Json → List Char
  | [] => []
  | item :: rest =>
    ',' :: style.line depth ++ chars style depth item ++ itemChars style depth rest

/-- The members after the first, each behind a comma. -/
def memberChars (style : Style) (depth : Nat) : List (String × Json) → List Char
  | [] => []
  | (name, value) :: rest =>
    ',' :: style.line depth ++ quoted name ++ style.colon ++ chars style depth value
      ++ memberChars style depth rest

end

def text (style : Style) (value : Json) : String :=
  String.ofList (chars style 0 value)

/-- The text without blanks. -/
def compact (value : Json) : String := value.text .compact

/-- The text with one element a line. -/
def pretty (value : Json) : String := value.text .pretty

end Adf.Json
