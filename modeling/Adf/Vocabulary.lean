import Adf.Named

/-!
# The words of the format

The types of nodes and marks, and the values of the attributes that are chosen from a list.
-/

namespace Adf

inductive NodeType where
  | paragraph
  | heading
  | blockquote
  | codeBlock
  | rule
  | bulletList
  | orderedList
  | listItem
  | table
  | tableRow
  | tableHeader
  | tableCell
  | mediaSingle
  | media
  | caption
  | text
  | hardBreak
deriving DecidableEq, Repr

instance : Named NodeType where
  values := [.paragraph, .heading, .blockquote, .codeBlock, .rule, .bulletList, .orderedList, .listItem,
    .table, .tableRow, .tableHeader, .tableCell, .mediaSingle, .media, .caption, .text, .hardBreak]
  name
    | .paragraph => "paragraph"
    | .heading => "heading"
    | .blockquote => "blockquote"
    | .codeBlock => "codeBlock"
    | .rule => "rule"
    | .bulletList => "bulletList"
    | .orderedList => "orderedList"
    | .listItem => "listItem"
    | .table => "table"
    | .tableRow => "tableRow"
    | .tableHeader => "tableHeader"
    | .tableCell => "tableCell"
    | .mediaSingle => "mediaSingle"
    | .media => "media"
    | .caption => "caption"
    | .text => "text"
    | .hardBreak => "hardBreak"

def NodeType.name : NodeType → String := Named.name

inductive MarkType where
  | strong
  | em
  | code
  | strike
  | underline
  | link
  | subsup
  | textColor
deriving DecidableEq, Repr

instance : Named MarkType where
  values := [.strong, .em, .code, .strike, .underline, .link, .subsup, .textColor]
  name
    | .strong => "strong"
    | .em => "em"
    | .code => "code"
    | .strike => "strike"
    | .underline => "underline"
    | .link => "link"
    | .subsup => "subsup"
    | .textColor => "textColor"

def MarkType.name : MarkType → String := Named.name

/-- Layout of a table. -/
inductive TableLayout where
  | default
  | center
  | wide
  | fullWidth
deriving DecidableEq, Repr

instance : Named TableLayout where
  values := [.default, .center, .wide, .fullWidth]
  name
    | .default => "default"
    | .center => "center"
    | .wide => "wide"
    | .fullWidth => "full-width"

def TableLayout.name : TableLayout → String := Named.name

/-- Layout of a single piece of media. -/
inductive MediaLayout where
  | center
  | wide
  | fullWidth
  | wrapLeft
  | wrapRight
  | alignStart
  | alignEnd
deriving DecidableEq, Repr

instance : Named MediaLayout where
  values := [.center, .wide, .fullWidth, .wrapLeft, .wrapRight, .alignStart, .alignEnd]
  name
    | .center => "center"
    | .wide => "wide"
    | .fullWidth => "full-width"
    | .wrapLeft => "wrap-left"
    | .wrapRight => "wrap-right"
    | .alignStart => "align-start"
    | .alignEnd => "align-end"

def MediaLayout.name : MediaLayout → String := Named.name

/-- Where a piece of media is kept. -/
inductive MediaType where
  | file
  | link
  | external
deriving DecidableEq, Repr

instance : Named MediaType where
  values := [.file, .link, .external]
  name
    | .file => "file"
    | .link => "link"
    | .external => "external"

def MediaType.name : MediaType → String := Named.name

/-- Below or above the line. -/
inductive Script where
  | sub
  | sup
deriving DecidableEq, Repr

instance : Named Script where
  values := [.sub, .sup]
  name
    | .sub => "sub"
    | .sup => "sup"

def Script.name : Script → String := Named.name

def TableLayout.parse : String → Except UnknownName TableLayout := Named.parse "table layout"

def MediaLayout.parse : String → Except UnknownName MediaLayout := Named.parse "media layout"

end Adf
