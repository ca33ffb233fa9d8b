import Adf.Json.Basic
import Adf.Vocabulary

/-!
# Marks

A mark is a piece of formatting on a text. The marks of one text are listed outermost first.
-/

namespace Adf

inductive Mark where
  | strong
  | em
  | code
  | strike
  | underline
  | link (href : String) (title : Option String)
  | subsup (script : Script)
  | textColor (color : String)
deriving DecidableEq, Repr

/-- A text that counts as absent when it is empty. -/
def nonempty? (s : String) : Option String :=
  if s.isEmpty then none else some s

namespace Mark

/-- A link; an empty title is no title. -/
def linkTo (href title : String) : Mark := .link href (nonempty? title)

def type : Mark → MarkType
  | .strong => .strong
  | .em => .em
  | .code => .code
  | .strike => .strike
  | .underline => .underline
  | .link _ _ => .link
  | .subsup _ => .subsup
  | .textColor _ => .textColor

/-- The attributes, in the order in which they are written. -/
def attrs : Mark → List (String × Json)
  | .link href title => ("href", .str href) :: (title.map fun t => ("title", Json.str t)).toList
  | .subsup script => [("type", .str script.name)]
  | .textColor color => [("color", .str color)]
  | .strong | .em | .code | .strike | .underline => []

end Mark

/-- The member, unless its value has nothing in it. -/
def Json.member (name : String) : Json → List (String × Json)
  | .arr [] | .obj [] => []
  | .str s => if s.isEmpty then [] else [(name, .str s)]
  | value => [(name, value)]

def Mark.toJson (m : Mark) : Json :=
  .obj (("type", .str m.type.name) :: Json.member "attrs" (.obj m.attrs))

end Adf
