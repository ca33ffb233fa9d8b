/-!
# Elements

An element is what a walk reports about one node of a Markdown tree: its kind and what the conversion needs
to know of it. A walk enters an element, reports what is inside, and leaves it again.
-/

namespace Adf.Markdown

inductive Element where
  | document
  | heading (level : UInt8)
  | blockquote
  /-- The lines keep their line ends. -/
  | codeBlock (fenced : Bool) (language : Option String) (lines : List String)
  | htmlBlock
  | list (ordered : Bool) (start : UInt64)
  | listItem
  | paragraph
  /-- A paragraph without space around it, as in a tight list. -/
  | textBlock
  | thematicBreak
  | autoLink (url label : String)
  | codeSpan
  /-- Level 2 is strong emphasis. -/
  | emphasis (level : UInt8)
  | image (destination title alt : String)
  | link (destination title : String)
  | rawHtml
  /-- A text and whether a hard line break follows it. -/
  | text (segment : String) (hard : Bool)
  /-- A text taken as it is, such as the content of a code span. -/
  | literal (value : String)
  | table
  | tableHeader
  | tableRow
  /-- A cell; `header` says that it is in the header row. -/
  | tableCell (header : Bool)
  | strikethrough
  | superscript
  | taskCheckBox (checked : Bool)
deriving DecidableEq, Repr

def Element.kind : Element → String
  | .document => "Document"
  | .heading _ => "Heading"
  | .blockquote => "Blockquote"
  | .codeBlock _ _ _ => "CodeBlock"
  | .htmlBlock => "HtmlBlock"
  | .list _ _ => "List"
  | .listItem => "ListItem"
  | .paragraph => "Paragraph"
  | .textBlock => "TextBlock"
  | .thematicBreak => "ThematicBreak"
  | .autoLink _ _ => "AutoLink"
  | .codeSpan => "CodeSpan"
  | .emphasis _ => "Emphasis"
  | .image _ _ _ => "Image"
  | .link _ _ => "Link"
  | .rawHtml => "RawHtml"
  | .text _ _ => "Text"
  | .literal _ => "Literal"
  | .table => "Table"
  | .tableHeader => "TableHeader"
  | .tableRow => "TableRow"
  | .tableCell _ => "TableCell"
  | .strikethrough => "Strikethrough"
  | .superscript => "Superscript"
  | .taskCheckBox _ => "TaskCheckBox"

/-- What to do after an element has been entered. -/
inductive Status where
  /-- Report what is inside. -/
  | descend
  /-- Go straight to the end of the element. -/
  | skip
deriving DecidableEq, Repr

/-- A step of a walk. -/
inductive Event where
  | enter (element : Element)
  | exit (element : Element)
deriving DecidableEq, Repr

/-- What a walk reports to. -/
structure Visitor (m : Type → Type) where
  enter : Element → m Status
  exit : Element → m Unit

end Adf.Markdown
