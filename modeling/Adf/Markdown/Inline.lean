import Adf.Markdown.Autolink
import Adf.Markdown.Dialect
import Adf.Markdown.Emphasis
import Adf.Markdown.Html
import Adf.Markdown.Target

/-!
# Inlines

Reads the text of a paragraph, heading or cell. The text is cut into pieces from left to right; a closing
bracket with a target behind it makes a link or an image of the pieces since the last opening one, and what
is left in the end is joined by its emphasis.
-/

namespace Adf.Markdown

/-- A text that has been read in part. -/
structure Inlines where
  dialect : Dialect
  /-- The pieces so far, last first. -/
  pieces : List Piece := []
  /-- What has been read, last character first. -/
  before : List Char := []
  /-- How many characters have been read. -/
  place : Nat := 0
  /-- Whether a bracket was the last to be opened or closed, and was opened. -/
  inBrackets : Bool := false
  /-- Whether a bracket was opened since the last link; links do not hold links. -/
  mayLink : Bool := false

/-! ## Single pieces -/

/-- The content of a code span that is opened by `ticks` backticks. `run` counts those just read, and
`content` is reversed. -/
def codeSpan? (ticks run : Nat) (content : List Char) : List Char → Option (List Char × List Char)
  | [] => if run = ticks then some (content.reverse, []) else none
  | '`' :: rest => codeSpan? ticks (run + 1) content rest
  | c :: rest =>
    if run = ticks then some (content.reverse, c :: rest)
    else codeSpan? ticks 0 (c :: (List.replicate run '`' ++ content)) rest

/-- Line ends become blanks, and one blank at either end goes unless there is nothing else. -/
def codeText (content : List Char) : List Char :=
  let s := content.map fun c => if c = '\n' then ' ' else c
  if s.any (· ≠ ' ') ∧ s.head? = some ' ' ∧ s.getLast? = some ' ' then (s.drop 1).dropLast else s

/-- Longer runs of backticks open no code span. -/
def longestTicks : Nat := 80

def codePiece (s : List Char) : Tree × List Char :=
  let ticks := s.takeWhile (· = '`')
  let behind := s.drop ticks.length
  match if longestTicks < ticks.length then none else codeSpan? ticks.length 0 [] behind with
  | some (content, rest) => (.of (.code (String.ofList (codeText content))) [], rest)
  | none => (.textOf ticks, behind)

def backslashPiece (rest : List Char) : Tree × List Char :=
  match rest with
  | '\n' :: behind => (.of .lineBreak [], behind.dropWhile isSpace)
  | c :: behind => if isAsciiPunctuation c then (.textOf [c], behind) else (.textOf ['\\'], rest)
  | [] => (.textOf ['\\'], [])

def entityPiece (rest : List Char) : Tree × List Char :=
  match entity? rest with
  | some (text, behind) => (.textOf text, behind)
  | none => (.textOf ['&'], rest)

/-- A link that was written in angle brackets, with its text. -/
def autolinkTree (address : Bool) (written : List Char) : Tree :=
  let label := decodeEntities written.length written
  let url := if address then "mailto:" ++ String.ofList label else String.ofList label
  .node (.link url "") (.ofText ('<' :: written ++ ['>'])) [.textOf label]

/-- What begins with `<`: an autolink, raw HTML, or just that. -/
def anglePiece (rest : List Char) : Tree × List Char :=
  match Autolink.uri? rest, Autolink.address? rest, Html.inline? rest with
  | some (uri, behind), _, _ => (autolinkTree false uri, behind)
  | none, some (address, behind), _ => (autolinkTree true address, behind)
  | none, none, some behind => (.of (.htmlInline (String.ofList ('<' :: taken rest behind))) [], behind)
  | none, none, none => (.textOf ['<'], rest)

/-- A line end is a hard break behind two blanks. -/
def lineEnd (before rest : List Char) : Tree × List Char :=
  (.of (if (after? [' ', ' '] before).isSome then .lineBreak else .softBreak) [], rest.dropWhile isSpace)

/-- Whether a text cannot go on with a character, which may have a meaning of its own. -/
def Inlines.isSpecial (t : Inlines) (c : Char) : Bool :=
  ['\n', '`', '\\', '&', '<', '[', ']', '!', '*', '_'].contains c ||
    (c = '~' && t.dialect.strikethrough) || (c = '^' && t.dialect.superscript && !t.inBrackets)

/-- A text up to the next character with a meaning. Blanks before the end of a line do not count. -/
def Inlines.textPiece (t : Inlines) (c : Char) (rest : List Char) : Tree × List Char :=
  let text := c :: rest.takeWhile (!t.isSpecial ·)
  let behind := rest.dropWhile (!t.isSpecial ·)
  (.textOf (if behind.head? = some '\n' then trimRight text else text), behind)

/-! ## Runs -/

/-- The nearest character to a run. Tildes do not count where they are marks, and the end of the text is
like the end of a line. -/
def Inlines.neighbour (t : Inlines) (s : List Char) : Char :=
  (s.dropWhile fun c => c = '~' && t.dialect.strikethrough).headD '\n'

/-- A run may open emphasis if it stands at the left of a word, and close it at the right. An underscore does
neither inside a word. -/
def Inlines.runPiece (t : Inlines) (mark : Char) (rest : List Char) : Piece × List Char :=
  let length := (rest.takeWhile (· = mark)).length + 1
  let behind := rest.drop (length - 1)
  let previous := t.neighbour t.before
  let next := t.neighbour behind
  let left := !Text.isBlank next && (!isPunctuation next || Text.isBlank previous || isPunctuation previous)
  let right := !Text.isBlank previous && (!isPunctuation previous || Text.isBlank next || isPunctuation next)
  let opens := left && (mark != '_' || !right || isPunctuation previous)
  let closes := right && (mark != '_' || !left || isPunctuation next)
  let run : Run := ⟨mark, length, length, t.place, opens, closes⟩
  if (!opens && !closes) || (mark = '~' && 2 < length) then (.tree (Piece.run run).toTree, behind)
  else (.run run, behind)

/-! ## Brackets -/

/-- Splits pieces, last first, at the last bracket: the pieces behind it in their order, whether it is an
image's, its place, and the pieces before it. -/
def lastBracket? : List Piece → List Piece → Option (List Piece × Bool × Nat × List Piece)
  | _, [] => none
  | behind, .bracket image place :: before => some (behind, image, place, before)
  | behind, piece :: before => lastBracket? (piece :: behind) before

def Inlines.openBracket (image : Bool) (t : Inlines) : Inlines :=
  { t with pieces := .bracket image t.place :: t.pieces, inBrackets := true, mayLink := t.mayLink || !image }

/-- Whether a closing bracket may end what the last bracket began. -/
def Inlines.mayEnd (t : Inlines) (image : Bool) : Bool := image || t.mayLink

/-- A link or an image of the pieces in the brackets. `written` is all of its source. -/
def linkTree (image : Bool) (target : Target) (written : List Char) (pieces : List Piece) : Tree :=
  let kind : Kind := if image then .image target.destination target.title
    else .link target.destination target.title
  .node kind (.ofText written) (Piece.join pieces)

/-- Takes a closing bracket and the target behind it. Without a target the brackets are text. -/
def Inlines.closeBracket (t : Inlines) (rest : List Char) : Inlines × List Char :=
  let bracket : Piece := .tree (.textOf [']'])
  match lastBracket? [] t.pieces with
  | none => ({ t with pieces := bracket :: t.pieces, inBrackets := false }, rest)
  | some (inner, image, place, outer) =>
    match if t.mayEnd image then Target.read? rest else none with
    | some (target, behind) =>
      let written := (t.before.take (t.place - place)).reverse ++ ']' :: taken rest behind
      let tree := linkTree image target written inner
      ({ t with pieces := .tree tree :: outer, inBrackets := false, mayLink := t.mayLink && image }, behind)
    | none =>
      let opening : Piece := .tree (.textOf (bracketText image))
      ({ t with pieces := bracket :: (inner.reverse ++ opening :: outer), inBrackets := false }, rest)

/-! ## Whole texts -/

/-- Notes how far a text has been read, given what was and what is still to be read. -/
def Inlines.advance (s rest : List Char) (t : Inlines) : Inlines :=
  { t with before := (taken s rest).reverse ++ t.before, place := t.place + (s.length - rest.length) }

def Inlines.push (piece : Piece) (t : Inlines) : Inlines := { t with pieces := piece :: t.pieces }

/-- Takes the next piece, which begins with `c`. -/
def Inlines.step (t : Inlines) (c : Char) (rest : List Char) : Inlines × List Char :=
  let tree : Tree × List Char → Inlines × List Char := fun (tree, behind) => (t.push (.tree tree), behind)
  match c with
  | '\n' => tree (lineEnd t.before rest)
  | '`' => tree (codePiece (c :: rest))
  | '\\' => tree (backslashPiece rest)
  | '&' => tree (entityPiece rest)
  | '<' => tree (anglePiece rest)
  | '[' => (t.openBracket false, rest)
  | ']' => t.closeBracket rest
  | '!' =>
    match rest with
    | '[' :: '^' :: _ => tree (.textOf ['!'], rest)
    | '[' :: behind => (t.openBracket true, behind)
    | _ => tree (.textOf ['!'], rest)
  | _ =>
    if t.isSpecial c then
      let (run, behind) := t.runPiece c rest
      (t.push run, behind)
    else tree (t.textPiece c rest)

def Inlines.read (t : Inlines) (s : List Char) : Inlines :=
  match s with
  | [] => t
  | c :: rest =>
    let (u, behind) := t.step c rest
    if behind.length < (c :: rest).length then (u.advance (c :: rest) behind).read behind else t
termination_by s.length
decreasing_by assumption

/-! ## Neighbouring texts -/

mutual

/-- Changes every list of children, inner ones first, but none in nodes that are to be left alone. -/
def Tree.mapSiblings (leave : Kind → Bool) (f : List Tree → List Tree) : Tree → Tree
  | .node kind span children =>
    .node kind span (if leave kind then children else f (mapAllSiblings leave f children))

def Tree.mapAllSiblings (leave : Kind → Bool) (f : List Tree → List Tree) : List Tree → List Tree
  | [] => []
  | tree :: rest => tree.mapSiblings leave f :: mapAllSiblings leave f rest

end

/-- Makes one text of texts that follow each other. -/
def joinTexts : List Tree → List Tree
  | [] => []
  | .node (.text s) span children :: rest =>
    match joinTexts rest with
    | .node (.text more) _ _ :: others => .node (.text (s ++ more)) span children :: others
    | others => .node (.text s) span children :: others
  | tree :: rest => tree :: joinTexts rest

/-- The texts and links of a running text. -/
def linkText (s : List Char) : List Tree :=
  match Autolink.first? [] 0 s with
  | none => if s.isEmpty then [] else [.textOf s]
  | some (before, found) =>
    let link : Tree := .of (.link found.link.url "") [.of (.text found.link.label) []]
    let first : List Tree := if before.isEmpty then [] else [.textOf before.reverse]
    if found.rest.length < s.length then first ++ link :: linkText found.rest else [.textOf s]
termination_by s.length
decreasing_by assumption

def linkTexts (trees : List Tree) : List Tree :=
  trees.flatMap fun tree =>
    match tree.kind with
    | .text s => linkText s.toList
    | _ => [tree]

def isLinkOrImage : Kind → Bool
  | .link _ _ | .image _ _ => true
  | _ => false

/-- The inlines of a text, texts in one piece and without the links that stand in them. -/
def inlines (dialect : Dialect) (text : List Char) : List Tree :=
  let t := ({ dialect : Inlines }).read (trimRight text)
  joinTexts (Tree.mapAllSiblings (fun _ => false) joinTexts (Piece.join t.pieces.reverse))

/-- Finds the links in running text, if the dialect has them. -/
def withAutolinks (dialect : Dialect) (trees : List Tree) : List Tree :=
  if dialect.autolink then linkTexts (Tree.mapAllSiblings isLinkOrImage linkTexts trees) else trees

end Adf.Markdown
