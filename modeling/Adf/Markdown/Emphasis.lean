import Adf.Markdown.Tree

/-!
# Emphasis

A run of marks may open emphasis, close it, or do either. `Piece.join` goes through the runs of a text from
left to right: each run that may close looks for the nearest earlier run that it can go with. What is between
two such runs becomes their content, and the runs in it, which have found no partner, stand for themselves.
-/

namespace Adf.Markdown

/-- A run of equal marks. -/
structure Run where
  mark : Char
  /-- How many of the marks are left. -/
  count : Nat
  /-- How many there were. -/
  length : Nat
  /-- Where the run begins; it orders the runs of a text. -/
  place : Nat
  opens : Bool
  closes : Bool
deriving DecidableEq, Repr

/-- A part of a text in which brackets and emphasis are still to be found. -/
inductive Piece where
  | tree (tree : Tree)
  | run (run : Run)
  /-- A bracket that may begin a link or an image. -/
  | bracket (image : Bool) (place : Nat)
deriving Repr

def bracketText (image : Bool) : List Char := if image then ['!', '['] else ['[']

/-- The piece as it stands. -/
def Piece.toTree : Piece → Tree
  | .tree t => t
  | .run r => .textOf (List.replicate r.count r.mark)
  | .bracket image _ => .textOf (bracketText image)

namespace Run

/-- Whether a run can close what an earlier one opens. Where one of them may do both, their lengths must not
add up to a multiple of three, unless both are one. -/
def closesWith (closer opener : Run) : Bool :=
  opener.opens && opener.mark = closer.mark &&
    !((closer.opens || opener.closes) && (opener.length + closer.length) % 3 = 0 &&
      !(opener.length % 3 = 0 && closer.length % 3 = 0))

/-- Runs of one class look for the same openers. -/
def kind (r : Run) : Char × Bool × Nat :=
  if r.mark = '*' then (r.mark, r.opens, r.length % 3) else (r.mark, false, 0)

end Run

/-- Where runs of a class stop to look for an opener: there is none before that place. -/
abbrev Bottoms := List ((Char × Bool × Nat) × Nat)

/-- Splits pieces, last first, at the nearest run that a run can close: what is behind it, the run, and what
is before it. -/
def opener? (closer : Run) (bottom : Nat) : List Piece → Option (List Piece × Run × List Piece)
  | [] => none
  | .run r :: before =>
    if r.place < bottom then none
    else if closer.closesWith r then some ([], r, before)
    else (opener? closer bottom before).map fun (inner, found, rest) => (.run r :: inner, found, rest)
  | piece :: before =>
    (opener? closer bottom before).map fun (inner, found, rest) => (piece :: inner, found, rest)

/-- How many marks of each run go into one emphasis. -/
def Run.used (closer opener : Run) : Nat := if 2 ≤ closer.count ∧ 2 ≤ opener.count then 2 else 1

/-- What two runs make of the content between them, if they take this many marks each. -/
def emphasisKind (mark : Char) (used : Nat) : Kind :=
  if mark = '~' then .strikethrough
  else if mark = '^' then .superscript
  else if used = 2 then .strong
  else .emph

/-- The run with some of its marks used up, if any are left. -/
def Run.less (used : Nat) (r : Run) : List Piece :=
  if r.count ≤ used then [] else [.run { r with count := r.count - used }]

/-- How many marks a piece may still use up. -/
def Piece.marks : Piece → Nat
  | .run r => r.count
  | _ => 0

/-- What is still to be done for some pieces. -/
def work : List Piece → Nat
  | [] => 0
  | p :: rest => p.marks + 1 + work rest

theorem work_append (ps qs : List Piece) : work (ps ++ qs) = work ps + work qs := by
  induction ps with
  | nil => rw [List.nil_append, work, Nat.zero_add]
  | cons p rest ih =>
    rw [List.cons_append, work, work, ih]
    omega

theorem Run.used_pos (r opener : Run) : 0 < r.used opener := by
  unfold Run.used
  split
  · exact Nat.zero_lt_two
  · exact Nat.one_pos

theorem Run.work_less (r opener : Run) : work (r.less (r.used opener)) ≤ r.count := by
  have := r.used_pos opener
  unfold Run.less
  split
  · exact Nat.zero_le _
  · show r.count - r.used opener + 1 + 0 ≤ r.count
    omega

/-- Goes on with the pieces behind those that have been dealt with, which are given last first. -/
def joinFrom (bottoms : Bottoms) (before : List Piece) (pieces : List Piece) : List Piece :=
  match pieces with
  | [] => before.reverse
  | .run r :: rest =>
    if r.closes then
      match opener? r ((bottoms.lookup r.kind).getD 0) before with
      | some (inner, opener, outer) =>
        -- tildes only go with as many of them
        if r.mark = '~' ∧ (r.count ≠ opener.count ∨ r.used opener < r.count) then before.reverse ++ pieces
        else
          let content := Tree.of (emphasisKind r.mark (r.used opener)) (inner.reverse.map Piece.toTree)
          joinFrom bottoms (.tree content :: (opener.less (r.used opener) ++ outer))
            (r.less (r.used opener) ++ rest)
      | none =>
        let stays : Piece := if r.opens then .run r else .tree (Piece.run r).toTree
        joinFrom ((r.kind, r.place) :: bottoms) (stays :: before) rest
    else joinFrom bottoms (.run r :: before) rest
  | piece :: rest => joinFrom bottoms (piece :: before) rest
termination_by work pieces
decreasing_by
  · rw [work_append, work, Piece.marks]
    have := r.work_less opener
    omega
  all_goals
    rw [work]
    omega

/-- The pieces as trees, with the emphasis in them. -/
def Piece.join (pieces : List Piece) : List Tree :=
  (joinFrom [] [] pieces).map Piece.toTree

end Adf.Markdown
