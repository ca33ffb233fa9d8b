import Adf.Markdown.Character

/-!
# Places in a line

A cursor stands in a line behind the markers of the blocks that the line belongs to. A tab reaches to the
next multiple of four columns, and a marker may take a part of it; the rest of the tab then counts as blanks.
-/

namespace Adf.Markdown

structure Cursor where
  /-- The column of the text. -/
  column : Nat
  /-- Blanks before the text that are left of a tab. -/
  owed : Nat
  text : List Char
deriving DecidableEq, Repr

namespace Cursor

def tabStop : Nat := 4

/-- How wide a tab is at a column. -/
def tabWidth (column : Nat) : Nat := tabStop - column % tabStop

def ofLine (line : List Char) : Cursor := ⟨0, 0, line⟩

/-- The width of the blanks at the beginning of a text. -/
def blanks (column : Nat) : List Char → Nat
  | ' ' :: rest => blanks (column + 1) rest + 1
  | '\t' :: rest => blanks (column + tabWidth column) rest + tabWidth column
  | _ => 0

/-- The width of the blanks at the cursor. -/
def indent (c : Cursor) : Nat := c.owed + blanks c.column c.text

/-- What stands behind these blanks. -/
def content (c : Cursor) : List Char := c.text.dropWhile isSpace

def isBlank (c : Cursor) : Bool := c.content.isEmpty

/-- Skips blanks, as many as there are but no more than the given width. -/
def skip : Nat → Cursor → Cursor
  | 0, c => c
  | width + 1, c =>
    match c.owed, c.text with
    | owed + 1, _ => skip width { c with owed }
    | 0, ' ' :: rest => skip width ⟨c.column + 1, 0, rest⟩
    | 0, '\t' :: rest => skip width ⟨c.column + tabWidth c.column, tabWidth c.column - 1, rest⟩
    | 0, _ => c

/-- Skips all blanks. -/
def skipBlanks (c : Cursor) : Cursor := c.skip c.indent

/-- Skips blanks and then a marker of so many characters, which are all one column wide. -/
def skipMarker (length : Nat) (c : Cursor) : Cursor :=
  let d := c.skipBlanks
  ⟨d.column + length, 0, d.text.drop length⟩

/-- The rest of the line, blanks included. -/
def line (c : Cursor) : List Char := List.replicate c.owed ' ' ++ c.text

end Cursor

end Adf.Markdown
