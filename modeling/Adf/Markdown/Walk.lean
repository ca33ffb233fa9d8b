import Adf.Markdown.Element
import Adf.Markdown.Tree

/-!
# Walking a tree

`Tree.walk` reports every node that `describe` has an element for: it enters the element, walks the children
unless the visitor asks to skip them, and leaves the element. Of the other nodes a block is passed over with
all that is in it, and an inline gives way to its children.

A code span reports its content as a literal. The check box of a task item is reported at the beginning of
the first paragraph among the children of the item.
-/

namespace Adf.Markdown

namespace Tree

/-- Whether a node is no wider than an autolink with this label in angle brackets. -/
def fitsAutolink (span : Span) (label : String) : Bool :=
  span.startLine = span.endLine && span.endColumn + 1 - span.startColumn ≤ label.utf8ByteSize + 2

/-- The label of a link that was written as its bare URL. An address or a host name stands for a URL with
`mailto:` or `http://` before it. A link that spells out both its label and its URL is wider than this. -/
def autolink? (url title : String) (span : Span) : List Tree → Option String
  | [.node (.text label) _ _] =>
    if title.isEmpty ∧ ¬label.isEmpty ∧
        (url = label ∨ url = "mailto:" ++ label ∨ url = "http://" ++ label) ∧ fitsAutolink span label then
      some label
    else none
  | _ => none

/-- The element of a node; `inHeader` says that its parent is the header row of a table. -/
def describe (inHeader : Bool) (span : Span) (children : List Tree) : Kind → Option Element
  | .document => some .document
  | .heading level => some (.heading level)
  | .blockQuote => some .blockquote
  | .codeBlock fenced info literal =>
    some (.codeBlock fenced (if fenced then Text.firstWord? info else none) (Text.lines literal))
  | .htmlBlock _ => some .htmlBlock
  | .list ordered start => some (.list ordered start)
  | .item | .taskItem _ => some .listItem
  | .paragraph => some .paragraph
  | .thematicBreak => some .thematicBreak
  | .text s => some (.text s false)
  | .softBreak => some (.text " " false)
  | .lineBreak => some (.text "" true)
  | .code _ => some .codeSpan
  | .htmlInline _ => some .rawHtml
  | .emph => some (.emphasis 1)
  | .strong => some (.emphasis 2)
  | .strikethrough => some .strikethrough
  | .superscript => some .superscript
  | .link url title =>
    match autolink? url title span children with
    | some label => some (.autoLink url label)
    | none => some (.link url title)
  | .image url title => some (.image url title (plainTexts children))
  | .table => some .table
  | .tableRow true => some .tableHeader
  | .tableRow false => some .tableRow
  | .tableCell => some (.tableCell inHeader)
  | .extension _ => none

variable {m : Type → Type} [Monad m]

/-- Enters an element and leaves it at once. -/
def visitLeaf (visitor : Visitor m) (e : Element) : m Unit := do
  let _ ← visitor.enter e
  visitor.exit e

mutual

/-- Walks a tree. `box` is the check box that is due at the beginning of it. -/
def walkFrom (visitor : Visitor m) (inHeader : Bool) (box : Option Bool) : Tree → m Unit
  | .node kind span children =>
    match describe inHeader span children kind with
    | none =>
      match kind with
      | .extension e => if e.isBlock then pure () else walkChildren visitor false children
      | _ => pure ()
    | some element => do
      match ← visitor.enter element with
      | .skip => pure ()
      | .descend =>
        match box with
        | some checked => visitLeaf visitor (.taskCheckBox checked)
        | none => pure ()
        match kind with
        | .code literal => visitLeaf visitor (.literal literal)
        | .taskItem checked => walkItem visitor checked children
        | _ => walkChildren visitor (kind = .tableRow true) children
      visitor.exit element

def walkChildren (visitor : Visitor m) (inHeader : Bool) : List Tree → m Unit
  | [] => pure ()
  | tree :: rest => do
    walkFrom visitor inHeader none tree
    walkChildren visitor inHeader rest

/-- Walks the children of a task item until its check box has been placed. -/
def walkItem (visitor : Visitor m) (checked : Bool) : List Tree → m Unit
  | [] => pure ()
  | tree :: rest =>
    if tree.kind = .paragraph then do
      walkFrom visitor false (some checked) tree
      walkChildren visitor false rest
    else do
      walkFrom visitor false none tree
      walkItem visitor checked rest

end

def walk (visitor : Visitor m) (tree : Tree) : m Unit :=
  walkFrom visitor false none tree

end Tree

end Adf.Markdown
