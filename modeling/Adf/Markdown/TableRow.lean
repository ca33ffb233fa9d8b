import Adf.Markdown.Character

/-!
# Rows of tables

A row is a line of cells between pipes. The first and the last pipe may be left out, and a pipe behind a
backslash belongs to its cell.
-/

namespace Adf.Markdown.TableRow

def isGap (c : Char) : Bool := isSpace c || c = '\x0b' || c = '\x0c'

/-- A cell and what is behind it; a pipe that is `escaped` belongs to the cell. -/
def cell (escaped : Bool) : List Char → List Char × List Char
  | [] => ([], [])
  | c :: rest =>
    if c = '|' && !escaped then ([], c :: rest)
    else
      let (content, behind) := cell (c = '\\') rest
      (c :: content, behind)

theorem length_cell (escaped : Bool) (s : List Char) : (cell escaped s).2.length ≤ s.length := by
  induction s generalizing escaped with
  | nil => simp [cell]
  | cons c rest ih =>
    unfold cell
    split
    · simp
    · have := ih (decide (c = '\\'))
      simp
      omega

/-- Takes the backslashes from before the pipes. -/
def unescapePipes : List Char → List Char
  | '\\' :: '|' :: rest => '|' :: unescapePipes rest
  | c :: rest => c :: unescapePipes rest
  | [] => []

theorem length_behind_lt {s : List Char} {c : Char} {rest : List Char} (h : (cell false s).2 = c :: rest) :
    (rest.dropWhile isGap).length < s.length := by
  have hcell := length_cell false s
  rw [h, List.length_cons] at hcell
  have hgap := (List.dropWhile_sublist isGap (l := rest)).length_le
  omega

/-- The cells of what is behind a pipe. Behind the last pipe there is none unless something stands there. -/
def cellsFrom (s : List Char) : List (List Char) :=
  let content := (cell false s).1
  match _h : (cell false s).2 with
  | _ :: rest => trim (unescapePipes content) :: cellsFrom (rest.dropWhile isGap)
  | [] => if content.isEmpty then [] else [trim (unescapePipes content)]
termination_by s.length
decreasing_by exact length_behind_lt _h

/-- The cells of a line. -/
def cells (line : List Char) : List (List Char) :=
  match line with
  | '|' :: rest => cellsFrom (rest.dropWhile isGap)
  | _ => cellsFrom line

/-- Whether a cell belongs to a row of dashes; a colon at either end says how the column is aligned. -/
def isDashes (cell : List Char) : Bool :=
  let dashes := if cell.head? = some ':' then cell.drop 1 else cell
  let dashes := if dashes.getLast? = some ':' then dashes.dropLast else dashes
  !dashes.isEmpty && dashes.all (· = '-')

/-- Whether a line is the row of dashes below the header of a table. -/
def isDelimiter (line : List Char) : Bool :=
  !(cells line).isEmpty && (cells line).all isDashes

/-- The cells of a line, made to be as many as there are columns. -/
def fit (columns : Nat) (cells : List (List Char)) : List (List Char) :=
  cells.take columns ++ List.replicate (columns - cells.length) []

theorem length_fit (columns : Nat) (cells : List (List Char)) : (fit columns cells).length = columns := by
  rw [fit, List.length_append, List.length_take, List.length_replicate]
  omega

end Adf.Markdown.TableRow
