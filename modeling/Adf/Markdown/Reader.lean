import Adf.Markdown.Block
import Adf.Markdown.Inline

/-!
# Reading Markdown

A text is read line by line. The open blocks form a stack: a line first finds out which of them it goes on
with, then begins new blocks in the innermost of these, and what is left of it is text of the last one. Open
blocks that the line does not go on with are closed before anything is added, unless the line is the lazy
continuation of a paragraph in them. In the end the texts of the blocks are read for inlines.
-/

namespace Adf.Markdown

/-! ## Lines -/

/-- The lines of a text; a line ends at a line feed, a carriage return, or both. -/
def linesOf (line : List Char) : List Char → List (List Char)
  | [] => if line.isEmpty then [] else [line.reverse]
  | '\r' :: '\n' :: rest | '\r' :: rest | '\n' :: rest => line.reverse :: linesOf [] rest
  | c :: rest => linesOf (c :: line) rest

/-- The lines of a document, without a byte order mark at its beginning and without zero characters. -/
def documentLines (s : String) : List (List Char) :=
  let text := match s.toList with
    | '\ufeff' :: rest => rest
    | text => text
  linesOf [] (text.map fun c => if c = '\x00' then '\ufffd' else c)

/-! ## Open blocks -/

/-- The open blocks, innermost first. -/
abbrev Stack := List Frame

namespace Stack

/-- Closes the innermost block. -/
def close : Stack → Stack
  | f :: outer :: rest => outer.add f.toBlock :: rest
  | s => s

/-- Closes so many blocks. -/
def closeMany : Nat → Stack → Stack
  | 0, s => s
  | n + 1, s => closeMany n s.close

/-- Closes blocks until the innermost one can hold what is to come. -/
def makeRoom (holds : Shape → Bool) : Stack → Stack
  | f :: outer :: rest =>
    if holds f.shape then f :: outer :: rest else makeRoom holds (outer.add f.toBlock :: rest)
  | s => s
termination_by s => s.length

def top (s : Stack) : Frame := s.headD ⟨.document, [], []⟩

def onTop (f : Frame → Frame) : Stack → Stack
  | frame :: rest => f frame :: rest
  | [] => []

/-- Opens a block in the innermost block that can hold it. -/
def openBlock (shape : Shape) (s : Stack) : Stack :=
  { shape } :: s.makeRoom Shape.holdsBlocks

/-- Adds a complete block to the innermost block that can hold it. -/
def addBlock (block : Block) (s : Stack) : Stack :=
  (s.makeRoom Shape.holdsBlocks).onTop (Frame.add block)

end Stack

/-! ## Lines in open blocks -/

/-- Goes down the open blocks, outermost first, as far as a line goes on with them: how many it does not go
on with, and the cursor behind the markers. `none` if the line ends a block; then the number is that of the
blocks that are closed. -/
def follow (c : Cursor) : List Frame → Nat × Option Cursor
  | [] => (0, some c)
  | f :: rest =>
    match f.shape.goOn (f.content.isEmpty && rest.isEmpty) c with
    | .goesOn d => follow d rest
    | .stops => (rest.length + 1, some c)
    | .ends => (rest.length + 1, none)

/-- Adds a line to a paragraph. A row of dashes that has not made it a table never will. -/
def addToParagraph (line : List Char) (f : Frame) : Frame :=
  match f.shape with
  | .paragraph plain =>
    let delimiter := !f.lines.isEmpty && TableRow.isDelimiter line
    { f.addLine line with shape := .paragraph (plain || delimiter) }
  | _ => f

/-- Adds the rest of a line to the innermost block, or as a new paragraph. -/
def addText (c : Cursor) (s : Stack) : Stack :=
  match s.top.shape with
  | .fence _ | .indented => s.onTop (Frame.addLine c.line)
  | .html stop =>
    let added := s.onTop (Frame.addLine c.line)
    if stop.isIn c.line then added.close else added
  | .paragraph _ => s.onTop (addToParagraph c.content)
  | .table _ => s.onTop (Frame.addLine c.content)
  | .document | .quote | .list _ | .item _ =>
    if c.isBlank then s else (s.openBlock (.paragraph false)).onTop (addToParagraph c.content)

/-- Begins what a line begins: the stack, and the cursor behind the marker unless the line has been used up. -/
def begin (start : Start) (c : Cursor) (s : Stack) : Stack × Option Cursor :=
  match start with
  | .quote rest => (s.openBlock .quote, some rest)
  | .heading level text => (s.addBlock (.heading (.ofNat level) text), none)
  | .fence fence =>
    let info := trim (decodeEntities fence.info.length fence.info)
    (s.openBlock (.fence { fence with info := dropEscapes info }), none)
  | .html stop => (addText c (s.openBlock (.html stop)), none)
  | .underline level =>
    match s with
    | paragraph :: rest =>
      (Stack.addBlock (.heading (.ofNat level) (joinLines paragraph.lines.reverse)) rest, none)
    | [] => ([], none)
  | .thematicBreak => (s.addBlock .thematicBreak, none)
  | .item marker indent rest =>
    let room := s.makeRoom fun shape => shape.holdsItem marker || shape.holdsBlocks
    let list := if room.top.shape.holdsItem marker then room else room.openBlock (.list marker)
    ({ shape := .item indent } :: list, some rest)
  | .indented => (addText (c.skip codeIndent) (s.openBlock .indented), none)
  | .table columns =>
    match s with
    | paragraph :: rest =>
      let before := { paragraph with lines := paragraph.lines.drop 1 }
      let outer : Stack := if before.lines.isEmpty then rest else Stack.addBlock before.toBlock rest
      let header (f : Frame) : Frame := { f with lines := paragraph.lines.take 1 }
      (Stack.onTop header (outer.openBlock (.table columns)), none)
    | [] => ([], none)

/-- Begins as many blocks as the rest of a line does, and adds what is left as text. No line begins more
blocks than `fuel`, its length. -/
def beginAll (tables : Bool) (fuel : Nat) (c : Cursor) (s : Stack) : Stack :=
  match fuel with
  | 0 => addText c s
  | fuel + 1 =>
    if s.top.shape.isVerbatim then addText c s
    else
      match start? tables false s.top c with
      | none => addText c s
      | some start =>
        match begin start c s with
        | (s, some rest) => beginAll tables fuel rest s
        | (s, none) => s

/-- Reads a line. -/
def addLine (tables : Bool) (s : Stack) (line : List Char) : Stack :=
  match follow (.ofLine line) s.reverse with
  | (count, none) => s.closeMany count
  | (count, some c) =>
    let lazy := s.top.shape.isParagraph
    let goesOn : Stack := s.drop count
    if goesOn.top.shape.isVerbatim then addText c s
    else
      match start? tables lazy goesOn.top c with
      | none =>
        if 0 < count ∧ lazy ∧ ¬c.isBlank then s.onTop (Frame.addLine c.line)
        else addText c (s.closeMany count)
      | some start =>
        match begin start c (s.closeMany count) with
        | (s, some rest) => beginAll tables line.length rest s
        | (s, none) => s

/-- The blocks of a document. -/
def blocks (tables : Bool) (text : String) : List Block :=
  let s := (documentLines text).foldl (addLine tables) [⟨.document, [], []⟩]
  (Stack.closeMany (s.length - 1) s).top.content.reverse

/-! ## Trees -/

/-- The mark of a task at the beginning of a text: whether it is checked, and the text behind the mark. -/
def taskMark? (s : List Char) : Option (Bool × List Char) :=
  match s.dropWhile TableRow.isGap with
  | '[' :: mark :: ']' :: rest =>
    if [' ', 'x', 'X'].contains mark ∧ rest.head?.all isAsciiBlank then some (mark != ' ', rest.drop 1)
    else none
  | _ => none

/-- The mark of a task at the beginning of an item, and the item without it. -/
def task? : List Tree → Option (Bool × List Tree)
  | .node .paragraph span (.node (.text s) place children :: inlines) :: rest =>
    (taskMark? s.toList).map fun (checked, text) =>
      (checked, .node .paragraph span (.node (.text (String.ofList text)) place children :: inlines) :: rest)
  | _ => none

def cellTree (dialect : Dialect) (text : List Char) : Tree := .of .tableCell (inlines dialect text)

def rowTrees (dialect : Dialect) : List (List (List Char)) → List Tree
  | [] => []
  | header :: rows =>
    .of (.tableRow true) (header.map (cellTree dialect)) ::
      rows.map fun row => .of (.tableRow false) (row.map (cellTree dialect))

def itemTree (dialect : Dialect) (content : List Tree) : Tree :=
  match if dialect.taskList then task? content else none with
  | some (checked, content) => .of (.taskItem checked) content
  | none => .of .item content

mutual

def Block.toTree (dialect : Dialect) : Block → Tree
  | .paragraph text => .of .paragraph (inlines dialect text)
  | .heading level text => .of (.heading level) (inlines dialect text)
  | .quote content => .of .blockQuote (toTrees dialect content)
  | .list ordered start items => .of (.list ordered start) (toTrees dialect items)
  | .item content => itemTree dialect (toTrees dialect content)
  | .code fenced info literal => .of (.codeBlock fenced (.ofList info) (.ofList literal)) []
  | .html literal => .of (.htmlBlock (.ofList literal)) []
  | .thematicBreak => .of .thematicBreak []
  | .table rows => .of .table (rowTrees dialect rows)

def Block.toTrees (dialect : Dialect) : List Block → List Tree
  | [] => []
  | block :: rest => block.toTree dialect :: toTrees dialect rest

end

/-- Reads a text. -/
def read (dialect : Dialect) (text : String) : Tree :=
  let content := Block.toTrees dialect (blocks dialect.table text)
  .of .document (withAutolinks dialect content)

end Adf.Markdown
