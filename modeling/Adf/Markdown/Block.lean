import Adf.Markdown.Cursor
import Adf.Markdown.Html
import Adf.Markdown.TableRow

/-!
# Blocks

The blocks of a document before their texts have been read for inlines, and the blocks that are open while
a document is read line by line. A line goes on with an open block or ends it; `Shape.goOn` says which.
-/

namespace Adf.Markdown

inductive Block where
  | paragraph (text : List Char)
  | heading (level : UInt8) (text : List Char)
  | quote (content : List Block)
  | list (ordered : Bool) (start : UInt64) (items : List Block)
  | item (content : List Block)
  | code (fenced : Bool) (info literal : List Char)
  | html (literal : List Char)
  | thematicBreak
  /-- The first row is the header. -/
  | table (rows : List (List (List Char)))
deriving Repr

/-- What stands before an item. Items with markers of one kind are in one list. -/
inductive Marker where
  | bullet (mark : Char)
  | number (start : Nat) (delimiter : Char)
deriving DecidableEq, Repr

/-- Whether two items with these markers are in one list. -/
def Marker.agrees : Marker → Marker → Bool
  | .bullet a, .bullet b => a = b
  | .number _ a, .number _ b => a = b
  | _, _ => false

/-- The opening line of a code block. -/
structure Fence where
  mark : Char
  length : Nat
  info : List Char
  /-- The width of the blanks before the fence, which are not part of the code. -/
  indent : Nat
deriving DecidableEq, Repr

/-- What an open block is. -/
inductive Shape where
  | document
  | quote
  | list (marker : Marker)
  /-- The content of an item is indented by this width. -/
  | item (indent : Nat)
  /-- A paragraph that is `plain` cannot become a table any more. -/
  | paragraph (plain : Bool)
  | fence (fence : Fence)
  | indented
  | html (stop : Html.BlockEnd)
  | table (columns : Nat)
deriving DecidableEq, Repr

/-- An open block with what is in it so far, the last first: complete blocks or lines. -/
structure Frame where
  shape : Shape
  content : List Block := []
  lines : List (List Char) := []
deriving Repr

namespace Shape

def isParagraph : Shape → Bool
  | .paragraph _ => true
  | _ => false

/-- Whether the block holds blocks of any kind but items. -/
def holdsBlocks : Shape → Bool
  | .document | .quote | .item _ => true
  | _ => false

/-- Whether the block holds an item with a marker. -/
def holdsItem (marker : Marker) : Shape → Bool
  | .list other => other.agrees marker
  | _ => false

/-- Whether the block takes lines as they are, so that no other block begins in it. -/
def isVerbatim : Shape → Bool
  | .fence _ | .indented | .html _ => true
  | _ => false

end Shape

/-! ## Complete blocks -/

def joinLines (lines : List (List Char)) : List Char := ['\n'].intercalate lines

/-- Every line with its end. -/
def endLines (lines : List (List Char)) : List Char := lines.flatMap (· ++ ['\n'])

/-- The block that a frame becomes when it is closed. -/
def Frame.toBlock (f : Frame) : Block :=
  match f.shape with
  | .document | .quote => .quote f.content.reverse
  | .list (.bullet _) => .list false 1 f.content.reverse
  | .list (.number start _) => .list true (.ofNat start) f.content.reverse
  | .item _ => .item f.content.reverse
  | .paragraph _ => .paragraph (joinLines f.lines.reverse)
  | .fence fence => .code true fence.info (endLines f.lines.reverse)
  | .indented => .code false [] (endLines (f.lines.dropWhile (·.all isSpace)).reverse)
  | .html _ => .html (endLines f.lines.reverse)
  | .table columns => .table (f.lines.reverse.map fun line => TableRow.fit columns (TableRow.cells line))

def Frame.add (block : Block) (f : Frame) : Frame := { f with content := block :: f.content }

def Frame.addLine (line : List Char) (f : Frame) : Frame := { f with lines := line :: f.lines }

/-! ## Lines of open blocks -/

/-- What a line means for an open block. -/
inductive Progress where
  /-- The line goes on with the block behind the cursor. -/
  | goesOn (rest : Cursor)
  | stops
  /-- The line is the end of the block. -/
  | ends

/-- A fence closes with a line of at least as many marks. -/
def Fence.isClosedBy (fence : Fence) (c : Cursor) : Bool :=
  let marks := c.content.takeWhile (· = fence.mark)
  c.indent ≤ 3 && fence.length ≤ marks.length && (c.content.drop marks.length).all isSpace

/-- Code is indented by this width. -/
def codeIndent : Nat := 4

/-- What is behind the marker of a quote. -/
def quoteRest? (c : Cursor) : Option Cursor :=
  if c.indent < codeIndent ∧ c.content.head? = some '>' then some ((c.skipMarker 1).skip 1) else none

/-- What a line means for a block. An item with nothing in it ends at a blank line. -/
def Shape.goOn (isEmpty : Bool) (c : Cursor) : Shape → Progress
  | .document | .list _ => .goesOn c
  | .quote => (quoteRest? c).elim .stops .goesOn
  | .item indent =>
    if indent ≤ c.indent then .goesOn (c.skip indent)
    else if c.isBlank ∧ ¬isEmpty then .goesOn c.skipBlanks
    else .stops
  | .paragraph _ | .table _ => if c.isBlank then .stops else .goesOn c
  | .fence f => if f.isClosedBy c then .ends else .goesOn (c.skip f.indent)
  | .indented =>
    if codeIndent ≤ c.indent then .goesOn (c.skip codeIndent)
    else if c.isBlank then .goesOn c.skipBlanks
    else .stops
  | .html stop => if stop = .blankLine ∧ c.isBlank then .stops else .goesOn c

/-! ## Beginnings of blocks -/

/-- What a line begins. -/
inductive Start where
  | quote (rest : Cursor)
  | heading (level : Nat) (text : List Char)
  | fence (fence : Fence)
  | html (stop : Html.BlockEnd)
  /-- The line makes a heading of the paragraph before it. -/
  | underline (level : Nat)
  | thematicBreak
  | item (marker : Marker) (indent : Nat) (rest : Cursor)
  | indented
  /-- The line is the row of dashes of a table, whose header is the last line before it. -/
  | table (columns : Nat)

/-- The text of a heading, without the marks that may close it. -/
def headingText (s : List Char) : List Char :=
  let text := trimRight s
  let body := (text.reverse.dropWhile (· = '#')).reverse
  trim (if body.getLast?.all isSpace then body else text)

def heading? (s : List Char) : Option Start :=
  let level := (s.takeWhile (· = '#')).length
  let rest := s.drop level
  if 1 ≤ level ∧ level ≤ 6 ∧ rest.head?.all isSpace then some (.heading level (headingText rest))
  else none

/-- The opening of a fence; backticks must not stand behind backticks. -/
def fence? (indent : Nat) (s : List Char) : Option Start := do
  let mark ← s.head?
  let length := (s.takeWhile (· = mark)).length
  let info := s.drop length
  if (mark = '`' ∧ ¬info.contains '`' ∨ mark = '~') ∧ 3 ≤ length then
    some (.fence ⟨mark, length, info, indent⟩)
  else none

def underline? (s : List Char) : Option Start :=
  let text := (s.reverse.dropWhile isSpace).reverse
  if text.isEmpty then none
  else if text.all (· = '=') then some (.underline 1)
  else if text.all (· = '-') then some (.underline 2)
  else none

def thematicBreak? (s : List Char) : Option Start := do
  let mark ← s.head?
  let marks := s.filter (!isSpace ·)
  if ['*', '-', '_'].contains mark ∧ marks.all (· = mark) ∧ 3 ≤ marks.length then some .thematicBreak
  else none

/-- The marker of an item and its length. -/
def marker? (s : List Char) : Option (Marker × Nat) := do
  let digits := (s.take 9).takeWhile Char.isDigit
  let mark ← (s.drop digits.length).head?
  if digits.isEmpty then
    if ['*', '-', '+'].contains mark then some (.bullet mark, 1) else none
  else if mark = '.' ∨ mark = ')' then
    some (.number (digits.foldl (fun n d => n * 10 + (d.toNat - 48)) 0) mark, digits.length + 1)
  else none

/-- Whether an item with this marker may interrupt a paragraph. -/
def Marker.interrupts : Marker → Bool
  | .bullet _ => true
  | .number start _ => start = 1

/-- An item. Its content begins behind at most four blanks; behind more of them it begins with indented code,
and one blank belongs to the marker. -/
def item? (inParagraph : Bool) (c : Cursor) : Option Start := do
  let (marker, length) ← marker? c.content
  let behind := c.skipMarker length
  if ¬(behind.isBlank ∨ 1 ≤ behind.indent) then none
  if inParagraph ∧ (behind.isBlank ∨ ¬marker.interrupts) then none
  if behind.isBlank ∨ codeIndent < behind.indent then
    some (.item marker (c.indent + length + 1) (behind.skip 1))
  else some (.item marker (c.indent + length + behind.indent) behind.skipBlanks)

/-- A table, whose header must have as many cells as there are columns of dashes. -/
def table? (f : Frame) (s : List Char) : Option Start :=
  match f.shape, f.lines with
  | .paragraph false, header :: _ =>
    if TableRow.isDelimiter s ∧ (TableRow.cells header).length = (TableRow.cells s).length then
      some (.table (TableRow.cells s).length)
    else none
  | _, _ => none

/-- What a line begins in an open block. Indented code needs that no paragraph can go on; `lazy` says that
one can. -/
def start? (tables lazy : Bool) (f : Frame) (c : Cursor) : Option Start :=
  if codeIndent ≤ c.indent then if lazy ∨ c.isBlank then none else some .indented
  else
    let s := c.content
    ((quoteRest? c).map .quote)
      <|> heading? s
      <|> fence? c.indent s
      <|> (Html.block? f.shape.isParagraph s).map .html
      <|> (if f.shape.isParagraph then underline? s else none)
      <|> thematicBreak? s
      <|> item? f.shape.isParagraph c
      <|> (if tables then table? f s else none)

end Adf.Markdown
