import Adf.Markdown.Entity
import Adf.Markdown.Scan

/-!
# Targets of links

The part of a link in parentheses: a destination and perhaps a title. A destination is in angle brackets or
has no blanks and balanced parentheses. A title is in quotes or parentheses, and a backslash may stand before
a character that would end it.
-/

namespace Adf.Markdown

structure Target where
  destination : String
  title : String
deriving DecidableEq, Repr

namespace Target

/-- A destination behind its `<`; a backslash goes with the character behind it. -/
def bracketed? (content : List Char) : List Char → Option (List Char × List Char)
  | '>' :: rest => some (content.reverse, rest)
  | '\\' :: c :: rest => bracketed? (c :: '\\' :: content) rest
  | '\n' :: _ | '<' :: _ => none
  | c :: rest => bracketed? (c :: content) rest
  | [] => none

/-- A destination without brackets; `depth` counts the open parentheses, of which there are at most 32. -/
def bare? (depth : Nat) (content : List Char) : List Char → Option (List Char × List Char)
  | [] => none
  | '\\' :: c :: rest =>
    if isAsciiPunctuation c then bare? depth (c :: '\\' :: content) rest
    else bare? depth ('\\' :: content) (c :: rest)
  | '(' :: rest => if 32 ≤ depth then none else bare? (depth + 1) ('(' :: content) rest
  | ')' :: rest =>
    match depth with
    | 0 => some (content.reverse, ')' :: rest)
    | depth + 1 => bare? depth (')' :: content) rest
  | c :: rest =>
    if isAsciiBlank c || c.toNat < 0x20 || c.toNat = 0x7f then
      if depth = 0 then some (content.reverse, c :: rest) else none
    else bare? depth (c :: content) rest

def destination? : List Char → Option (List Char × List Char)
  | '<' :: rest => bracketed? [] rest
  | s => bare? 0 [] s

/-- The rest of a title. One that goes on behind an escaped end mark is preferred to one that stops there. -/
def titleEnd? (start stop : Char) (escaped : Bool) (content : List Char) :
    List Char → Option (List Char × List Char)
  | [] => none
  | c :: rest =>
    if c = stop then
      let here := some (content.reverse, rest)
      if escaped then (titleEnd? start stop false (c :: content) rest).orElse fun _ => here else here
    else if c = start ∧ !escaped then none
    else titleEnd? start stop (c = '\\') (c :: content) rest

def title? : List Char → Option (List Char × List Char)
  | '"' :: rest => titleEnd? '"' '"' false [] rest
  | '\'' :: rest => titleEnd? '\'' '\'' false [] rest
  | '(' :: rest => titleEnd? '(' ')' false [] rest
  | _ => none

/-- A title with at least one blank before it, or nothing. -/
def optionalTitle (s : List Char) : List Char × List Char :=
  let behind := trimLeft s
  if behind.length < s.length then (title? behind).getD ([], behind) else ([], s)

/-- The target behind a closing bracket. -/
def read? (s : List Char) : Option (Target × List Char) := do
  let inside ← after? ['('] s
  let (destination, rest) ← destination? (trimLeft inside)
  let (title, rest) := optionalTitle rest
  let rest ← after? [')'] (trimLeft rest)
  return (⟨unescape (trim destination), unescape title⟩, rest)

end Target

end Adf.Markdown
