import Adf.Convert.Config
import Adf.Document
import Adf.Markdown.Element

/-!
# Assembling a document

An `Assembly` builds a document from the elements that a walk enters and leaves. It keeps the scopes that are
open, each a container with the children that it has so far, and the marks that are open. A text gets a copy
of the open marks; texts that follow each other with the same marks become one.

An image that becomes external media is a block in the middle of inline content. The scope that holds the
inlines ends before it, and one of the same kind, its continuation, starts behind it. A scope with nothing
in it is dropped if it ends at an image or is a continuation.
-/

namespace Adf.Convert

open Markdown (Element Status)

/-- A container that may still get children. -/
structure Scope where
  container : Container
  content : List Node
  /-- Whether the scope goes on after a block that was put into inline content. -/
  continuation : Bool
deriving DecidableEq, Repr

def Scope.node (s : Scope) : Node := .container s.container s.content

structure Assembly where
  /-- The blocks that are complete and in no open scope. -/
  document : Document
  /-- The open scopes, innermost first. -/
  scopes : List Scope
  /-- The open marks, outermost first. -/
  marks : List Mark
  /-- Whether the last thing that was added is a text that may grow. -/
  textRun : Bool
  /-- The document that was left last. -/
  finished : Option Document
deriving DecidableEq, Repr

namespace Assembly

def start : Assembly where
  document := .empty
  scopes := []
  marks := []
  textRun := false
  finished := none

/-! ## Scopes -/

/-- Adds a node to the innermost scope, or to the document. -/
def add (node : Node) (a : Assembly) : Assembly :=
  match a.scopes with
  | [] => { a with document := a.document.push node, textRun := false }
  | s :: rest => { a with scopes := { s with content := s.content ++ [node] } :: rest, textRun := false }

def openScope (container : Container) (a : Assembly) : Assembly :=
  { a with scopes := ⟨container, [], false⟩ :: a.scopes, textRun := false }

/-- Ends the innermost scope and adds it to the one around it. -/
def closeScope (a : Assembly) : Assembly :=
  match a.scopes with
  | [] => { a with textRun := false }
  | s :: rest =>
    let outer := { a with scopes := rest, textRun := false }
    if s.continuation ∧ s.content.isEmpty then outer else outer.add s.node

/-- Ends every open scope. -/
def closeAll (a : Assembly) : Assembly :=
  a.scopes.foldl (fun a _ => a.closeScope) a

def finish (a : Assembly) : Assembly :=
  { a.closeAll with document := .empty, marks := [], finished := some a.closeAll.document }

def openMark (mark : Mark) (a : Assembly) : Assembly := { a with marks := a.marks ++ [mark] }

def closeMark (a : Assembly) : Assembly := { a with marks := a.marks.dropLast }

/-! ## Texts -/

/-- Puts a text to the end of the last node, if that is a text with the given marks. -/
def extendLast? (s : String) (marks : List Mark) : List Node → Option (List Node)
  | [] => none
  | [.leaf (.text before m)] => if m = marks then some [.text (before ++ s) m] else none
  | node :: rest => (extendLast? s marks rest).map (node :: ·)

/-- The scopes with a text at the end of the run in the innermost of them, if there is one to go on with. -/
def continueRun? (s : String) (a : Assembly) : Option (List Scope) :=
  match a.textRun, a.scopes with
  | true, scope :: rest =>
    (extendLast? s a.marks scope.content).map fun content => { scope with content } :: rest
  | _, _ => none

def addText (s : String) (a : Assembly) : Assembly :=
  if s.isEmpty then a
  else
    match a.continueRun? s with
    | some scopes => { a with scopes }
    | none => { a.add (.text s a.marks) with textRun := true }

/-! ## Blocks in inline content -/

/-- Adds a block. Inline content around it ends before it and goes on behind it. -/
def splice (block : Node) (a : Assembly) : Assembly :=
  match a.scopes with
  | [] => a.add block
  | s :: rest =>
    if s.container.holdsInlines then
      let outer := { a with scopes := rest }
      let before := if s.content.isEmpty then outer else outer.add s.node
      let behind := before.add block
      { behind with scopes := ⟨s.container, [], true⟩ :: behind.scopes }
    else a.add block

/-- External media with their caption. -/
def mediaBlock (layout : MediaLayout) (destination title alt : String) : Node :=
  .container (.mediaSingle layout)
    (.externalMedia destination alt :: if title.isEmpty then [] else [.caption title])

def addImage (config : Config) (destination title alt : String) (a : Assembly) : Assembly :=
  let shown := if alt.isEmpty then destination else alt
  match config.imageHandler with
  | some handler => a.add (handler ⟨destination, shown, title⟩)
  | none =>
    if config.externalMedia then a.splice (mediaBlock config.imageLayout destination title alt)
    else a.add (.text shown [.linkTo destination title])

/-- A code block; only a fenced one has a language. -/
def codeBlock (fenced : Bool) (language : Option String) (lines : List String) : Node :=
  let text := String.join lines
  .container (.codeBlock (if fenced then language.bind nonempty? else none))
    (if text.isEmpty then [] else [.text text []])

/-! ## Elements -/

/-- What is inside of these elements has been taken from the element itself, or is not wanted. -/
def status : Element → Status
  | .codeBlock _ _ _ | .htmlBlock | .rawHtml | .autoLink _ _ | .image _ _ _ => .skip
  | _ => .descend

def enter (config : Config) (a : Assembly) : Element → Assembly
  | .document => start
  | .heading level => a.openScope (.heading level)
  | .blockquote => a.openScope .blockquote
  | .codeBlock fenced language lines => a.add (codeBlock fenced language lines)
  | .htmlBlock | .rawHtml => a
  | .list true start => a.openScope (.orderedList start)
  | .list false _ => a.openScope .bulletList
  | .listItem => a.openScope .listItem
  | .paragraph | .textBlock => a.openScope .paragraph
  | .thematicBreak => a.add .rule
  | .autoLink url label => a.add (.text label [.linkTo url ""])
  | .codeSpan => a.openMark .code
  | .emphasis level => a.openMark (if level = 2 then .strong else .em)
  | .image destination title alt => a.addImage config destination title alt
  | .link destination title => a.openMark (.linkTo destination title)
  | .text segment hard =>
    let b := a.addText segment
    if hard then b.add .hardBreak else b
  | .literal value => a.addText value
  | .table => a.openScope (.table false config.tableLayout)
  | .tableHeader | .tableRow => a.openScope .tableRow
  -- a cell holds blocks, so its inlines get a paragraph of their own
  | .tableCell header =>
    (a.openScope (if header then .tableHeader else .tableCell)).openScope .paragraph
  | .strikethrough => a.openMark .strike
  | .superscript => a.openMark (.subsup .sup)
  | .taskCheckBox checked => a.add (.text (if checked then "[x] " else "[ ] ") [])

def exit (a : Assembly) : Element → Assembly
  | .document => a.finish
  | .heading _ | .blockquote | .list _ _ | .listItem | .paragraph | .textBlock | .table | .tableHeader
  | .tableRow => a.closeScope
  | .tableCell _ => a.closeScope.closeScope
  | .codeSpan | .emphasis _ | .link _ _ | .strikethrough | .superscript => a.closeMark
  | .codeBlock _ _ _ | .htmlBlock | .thematicBreak | .autoLink _ _ | .image _ _ _ | .rawHtml | .text _ _
  | .literal _ | .taskCheckBox _ => a

/-- Takes in a step of a walk. The steps need not fit each other. -/
def feed (config : Config) (a : Assembly) : Markdown.Event → Assembly
  | .enter e => enter config a e
  | .exit e => a.exit e

def feedAll (config : Config) (events : List Markdown.Event) (a : Assembly) : Assembly :=
  events.foldl (feed config) a

/-- Assembles from what a walk reports. -/
def visitor (config : Config) : Markdown.Visitor (StateM Assembly) where
  enter e := do
    modify (enter config · e)
    return status e
  exit e := modify (exit · e)

end Assembly

end Adf.Convert
