import Adf.Json.Writer
import Adf.Node.Json

/-!
# Documents

A document is a list of blocks. The version and the type around them are the same in every document and are
only written.
-/

namespace Adf

structure Document where
  content : List Node
deriving DecidableEq, Repr

namespace Document

def empty : Document := ⟨[]⟩

def push (node : Node) (d : Document) : Document := ⟨d.content ++ [node]⟩

def isEmpty (d : Document) : Bool := d.content.isEmpty

/-- The document as it is written, members in the order of the text. -/
def toJson (d : Document) : Json :=
  .obj [("version", .nat 1), ("type", .str "doc"), ("content", .arr (Node.listToJson d.content))]

/-- The document as a JSON value, members sorted by name. -/
def toValue (d : Document) : Json := d.toJson.sorted

def text (style : Json.Style) (d : Document) : String := d.toJson.text style

def compact (d : Document) : String := d.text .compact

def pretty (d : Document) : String := d.text .pretty

/-- The text, if it has at most `limit` bytes. -/
def textWithin? (limit : Nat) (style : Json.Style) (d : Document) : Option String :=
  let text := d.text style
  if text.utf8ByteSize ≤ limit then some text else none

end Document

end Adf
