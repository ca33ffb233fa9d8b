import Adf.Vocabulary

/-!
# The content rules

The words that are known, which nodes may stand inside which, how many of them, and which values an attribute
may take. The words are spelled out here; none is taken from the names under which types and values are written.
-/

namespace Adf.Schema

/-- The known types of nodes. -/
def knownNodes : List (String × NodeType) :=
  [("paragraph", .paragraph), ("heading", .heading), ("blockquote", .blockquote), ("codeBlock", .codeBlock),
    ("rule", .rule), ("bulletList", .bulletList), ("orderedList", .orderedList), ("listItem", .listItem),
    ("table", .table), ("tableRow", .tableRow), ("tableHeader", .tableHeader), ("tableCell", .tableCell),
    ("mediaSingle", .mediaSingle), ("media", .media), ("caption", .caption), ("text", .text),
    ("hardBreak", .hardBreak)]

/-- The known types of marks. -/
def knownMarks : List (String × MarkType) :=
  [("strong", .strong), ("em", .em), ("code", .code), ("strike", .strike), ("underline", .underline),
    ("link", .link), ("subsup", .subsup), ("textColor", .textColor)]

/-- The type of node that a word stands for, if it is a known one. -/
def knownNode? (word : String) : Option NodeType := knownNodes.lookup word

/-- The type of mark that a word stands for, if it is a known one. -/
def knownMark? (word : String) : Option MarkType := knownMarks.lookup word

/-- What a node may hold. -/
inductive ContentRule where
  /-- Whatever stands there is not looked at. -/
  | ignored
  /-- Nothing. -/
  | empty
  /-- Children of the types allowed at their position, at least and at most so many. -/
  | children (allowed : Nat → List NodeType) (least : Nat) (most : Option Nat)

open NodeType

/-- The blocks at the top of a document. -/
def topLevel : List NodeType :=
  [paragraph, heading, blockquote, codeBlock, rule, bulletList, orderedList, table, mediaSingle]

/-- The blocks inside a quote or a list item. -/
def plainBlocks : List NodeType :=
  [paragraph, bulletList, orderedList, codeBlock, mediaSingle]

/-- The blocks inside a table cell. -/
def cellBlocks : List NodeType :=
  [paragraph, heading, blockquote, bulletList, orderedList, codeBlock, rule, mediaSingle]

def inlines : List NodeType := [text, hardBreak]

/-- At least one child of the given types. -/
def ContentRule.some (allowed : List NodeType) : ContentRule := .children (fun _ => allowed) 1 none

/-- Any number of children of the given types. -/
def ContentRule.any (allowed : List NodeType) : ContentRule := .children (fun _ => allowed) 0 none

def contentRule : NodeType → ContentRule
  | paragraph | caption | heading => .any inlines
  | blockquote | listItem => .some plainBlocks
  | codeBlock => .any [text]
  | bulletList | orderedList => .some [listItem]
  | table => .some [tableRow]
  | tableRow => .some [tableCell, tableHeader]
  | tableCell | tableHeader => .some cellBlocks
  | mediaSingle => .children (fun i => if i = 0 then [media] else [caption]) 1 (Option.some 2)
  | media | text => .ignored
  | rule | hardBreak => .empty

def tableLayouts : List String :=
  ["default", "center", "wide", "full-width", "align-start", "align-end"]

def mediaLayouts : List String :=
  ["center", "wide", "full-width", "wrap-left", "wrap-right", "align-start", "align-end"]

def mediaTypes : List String := ["file", "link", "external"]

def scripts : List String := ["sub", "sup"]

/-- The marks that may stand beside `code` on one text. -/
def besideCode : List MarkType := [.code, .link]

/-- How a colour is written. -/
def colorPattern : String := "^#[0-9a-fA-F]\x7b6\x7d$"

def isHexDigit (c : Char) : Bool :=
  c.isDigit || ('a' ≤ c && c ≤ 'f') || ('A' ≤ c && c ≤ 'F')

/-- A hash and six hexadecimal digits. -/
def isColor (s : String) : Bool :=
  match s.toList with
  | '#' :: digits => digits.length = 6 && digits.all isHexDigit
  | _ => false

end Adf.Schema
