import Adf.Text.Blank

/-!
# Markdown trees

A tree of blocks and inlines as it was read from a Markdown text. A node may have its place in the text;
lines and columns count from 1, columns in bytes, and the end is the last byte.
-/

namespace Adf.Markdown

/-- Where a node stands in its text. Lines and columns are natural numbers. The largest column of a machine, with
none behind it, does not occur: no text has a line that long. -/
structure Span where
  startLine : Nat
  startColumn : Nat
  endLine : Nat
  endColumn : Nat
deriving DecidableEq, Repr

/-- The place of nothing. -/
def Span.none : Span := ⟨0, 0, 0, 0⟩

/-- The place of a node that is a whole text. -/
def Span.ofText (text : List Char) : Span :=
  ⟨1, 1, 1 + text.count '\n', (String.ofList (text.reverse.takeWhile (· ≠ '\n'))).utf8ByteSize⟩

/-- Constructs that have no counterpart in a document. -/
inductive Extension where
  | descriptionList
  | descriptionItem
  | descriptionTerm
  | descriptionDetails
  | footnoteDefinition
  | multilineBlockQuote
  | frontMatter
  | footnoteReference
  | math
  | escaped
  | wikiLink
  | underline
  | spoileredText
  | escapedTag
deriving DecidableEq, Repr

/-- Whether the construct is a block. -/
def Extension.isBlock : Extension → Bool
  | .descriptionList | .descriptionItem | .descriptionTerm | .descriptionDetails | .footnoteDefinition
  | .multilineBlockQuote => true
  | .frontMatter | .footnoteReference | .math | .escaped | .wikiLink | .underline | .spoileredText
  | .escapedTag => false

/-- What a node of the tree is. -/
inductive Kind where
  | document
  | paragraph
  | heading (level : UInt8)
  | blockQuote
  | list (ordered : Bool) (start : UInt64)
  | item
  /-- An item with a check box, which is checked if it holds a character. -/
  | taskItem (checked : Bool)
  | codeBlock (fenced : Bool) (info literal : String)
  | htmlBlock (literal : String)
  | thematicBreak
  | table
  | tableRow (header : Bool)
  | tableCell
  | text (text : String)
  | softBreak
  | lineBreak
  | code (literal : String)
  | htmlInline (literal : String)
  | emph
  | strong
  | strikethrough
  | superscript
  | link (url title : String)
  | image (url title : String)
  | extension (extension : Extension)
deriving DecidableEq, Repr

inductive Tree where
  | node (kind : Kind) (span : Span) (children : List Tree)
deriving Repr

namespace Tree

def kind : Tree → Kind
  | .node kind _ _ => kind

def span : Tree → Span
  | .node _ span _ => span

def children : Tree → List Tree
  | .node _ _ children => children

/-- A node whose place does not matter. -/
def of (kind : Kind) (children : List Tree) : Tree := .node kind .none children

def textOf (s : List Char) : Tree := of (.text (String.ofList s)) []

mutual

/-- The text of a node and of all below it, without formatting; a break is a blank. -/
def plainText : Tree → String
  | .node (.text s) _ children => s ++ plainTexts children
  | .node (.code literal) _ children => literal ++ plainTexts children
  | .node .softBreak _ children | .node .lineBreak _ children => " " ++ plainTexts children
  | .node _ _ children => plainTexts children

def plainTexts : List Tree → String
  | [] => ""
  | tree :: rest => plainText tree ++ plainTexts rest

end

end Tree

end Adf.Markdown
