import Adf.Proofs.Convert.Conservation
import Adf.Proofs.Convert.Flow

/-!
# Scopes as nodes

A child can always be put into the scope of an assembly, since a scope is a container. Here the same steps
are taken with the operations on nodes: whatever is open is a node, a child is put into it by `Node.append`,
which a leaf refuses, and a text grows in the last child. `feedAll_openNodes` says that no steps, however
badly they fit each other, ever come to a leaf in this way, and that both ways build the same documents.
-/

namespace Adf.Convert

open Markdown (Element Event)
open Node (LeafError)

/-- A node that is open. Nothing here says that it may have children. -/
structure OpenNode where
  node : Node
  /-- Whether the node goes on after a block that was put into inline content. -/
  continuation : Bool

/-- The parts of an assembly, with nodes in place of scopes. -/
structure OpenNodes where
  document : Document
  /-- The nodes that are open, innermost first. -/
  stack : List OpenNode
  marks : List Mark
  textRun : Bool
  finished : Option Document

namespace OpenNodes

def start : OpenNodes where
  document := .empty
  stack := []
  marks := []
  textRun := false
  finished := none

/-! ## The operations -/

/-- Adds a node to the innermost open node, or to the document. -/
def add (node : Node) (a : OpenNodes) : Except LeafError OpenNodes :=
  match a.stack with
  | [] => return { a with document := a.document.push node, textRun := false }
  | o :: rest => do
    let parent ← o.node.append node
    return { a with stack := { o with node := parent } :: rest, textRun := false }

def openNode (node : Node) (a : OpenNodes) : OpenNodes :=
  { a with stack := ⟨node, false⟩ :: a.stack, textRun := false }

/-- Ends the innermost node and adds it to the one around it. -/
def closeNode (a : OpenNodes) : Except LeafError OpenNodes :=
  match a.stack with
  | [] => return { a with textRun := false }
  | o :: rest =>
    let outer := { a with stack := rest, textRun := false }
    if o.continuation ∧ o.node.content.isEmpty then return outer else outer.add o.node

def closeAll (a : OpenNodes) : Except LeafError OpenNodes :=
  a.stack.foldlM (fun a _ => a.closeNode) a

def finish (a : OpenNodes) : Except LeafError OpenNodes := do
  let closed ← a.closeAll
  return { closed with document := .empty, marks := [], finished := some closed.document }

def openMark (mark : Mark) (a : OpenNodes) : OpenNodes := { a with marks := a.marks ++ [mark] }

def closeMark (a : OpenNodes) : OpenNodes := { a with marks := a.marks.dropLast }

/-- The open nodes with a text at the end of the last child of the innermost, if that is a text to go on with. -/
def continueRun? (s : String) (a : OpenNodes) : Option (List OpenNode) :=
  match a.textRun, a.stack with
  | true, o :: rest =>
    match o.node.lastChild? with
    | some last =>
      if last.text?.isSome ∧ last.marks = a.marks then
        some ({ o with node := o.node.setLastChild (last.pushText s) } :: rest)
      else none
    | none => none
  | _, _ => none

def addText (s : String) (a : OpenNodes) : Except LeafError OpenNodes :=
  if s.isEmpty then return a
  else
    match a.continueRun? s with
    | some stack => return { a with stack }
    | none => do
      let b ← a.add (.text s a.marks)
      return { b with textRun := true }

/-- Ends a node before a block. Nothing is left of an empty one. -/
def endBefore (o : OpenNode) (a : OpenNodes) : Except LeafError OpenNodes :=
  if o.node.content.isEmpty then return a else a.add o.node

/-- Adds a block. An innermost node with inline content ends before it, and one of its kind goes on behind. -/
def splice (block : Node) (a : OpenNodes) : Except LeafError OpenNodes :=
  match a.stack with
  | [] => a.add block
  | o :: rest =>
    match if o.node.holdsInlines then o.node.emptyLike? else none with
    | none => a.add block
    | some continuation => do
      let before ← endBefore o { a with stack := rest }
      let behind ← before.add block
      return { behind with stack := ⟨continuation, true⟩ :: behind.stack }

def mediaBlock (layout : MediaLayout) (destination title alt : String) : Except LeafError Node := do
  let media ← (Node.container (.mediaSingle layout) []).append (.externalMedia destination alt)
  if title.isEmpty then return media else media.append (.caption title)

def addImage (config : Config) (destination title alt : String) (a : OpenNodes) :
    Except LeafError OpenNodes :=
  let shown := if alt.isEmpty then destination else alt
  match config.imageHandler with
  | some handler => a.add (handler ⟨destination, shown, title⟩)
  | none =>
    if config.externalMedia then do
      let media ← mediaBlock config.imageLayout destination title alt
      a.splice media
    else a.add (.text shown [.linkTo destination title])

def codeBlock (fenced : Bool) (language : Option String) (lines : List String) : Except LeafError Node :=
  let block := Node.codeBlock (if fenced then language.getD "" else "")
  let text := String.join lines
  if text.isEmpty then return block else block.append (.text text [])

/-! ## Steps -/

def enter (config : Config) (a : OpenNodes) : Element → Except LeafError OpenNodes
  | .document => return start
  | .heading level => return a.openNode (.heading level)
  | .blockquote => return a.openNode (.container .blockquote [])
  | .codeBlock fenced language lines => do
    let block ← codeBlock fenced language lines
    a.add block
  | .htmlBlock | .rawHtml => return a
  | .list true start => return a.openNode (.container (.orderedList start) [])
  | .list false _ => return a.openNode (.container .bulletList [])
  | .listItem => return a.openNode (.container .listItem [])
  | .paragraph | .textBlock => return a.openNode .paragraph
  | .thematicBreak => a.add .rule
  | .autoLink url label => a.add (.text label [.linkTo url ""])
  | .codeSpan => return a.openMark .code
  | .emphasis level => return a.openMark (if level = 2 then .strong else .em)
  | .image destination title alt => a.addImage config destination title alt
  | .link destination title => return a.openMark (.linkTo destination title)
  | .text segment hard => do
    let b ← a.addText segment
    if hard then b.add .hardBreak else return b
  | .literal value => a.addText value
  | .table => return a.openNode (.container (.table false config.tableLayout) [])
  | .tableHeader | .tableRow => return a.openNode (.container .tableRow [])
  | .tableCell header =>
    return (a.openNode (.container (if header then .tableHeader else .tableCell) [])).openNode .paragraph
  | .strikethrough => return a.openMark .strike
  | .superscript => return a.openMark (.subsup .sup)
  | .taskCheckBox checked => a.add (.text (if checked then "[x] " else "[ ] ") [])

def exit (a : OpenNodes) : Element → Except LeafError OpenNodes
  | .document => a.finish
  | .heading _ | .blockquote | .list _ _ | .listItem | .paragraph | .textBlock | .table | .tableHeader
  | .tableRow => a.closeNode
  | .tableCell _ => do
    let b ← a.closeNode
    b.closeNode
  | .codeSpan | .emphasis _ | .link _ _ | .strikethrough | .superscript => return a.closeMark
  | .codeBlock _ _ _ | .htmlBlock | .thematicBreak | .autoLink _ _ | .image _ _ _ | .rawHtml | .text _ _
  | .literal _ | .taskCheckBox _ => return a

def feed (config : Config) (a : OpenNodes) : Event → Except LeafError OpenNodes
  | .enter e => a.enter config e
  | .exit e => a.exit e

def feedAll (config : Config) (events : List Event) (a : OpenNodes) : Except LeafError OpenNodes :=
  events.foldlM (feed config) a

end OpenNodes

/-! ## An assembly as open nodes -/

def Scope.openNode (s : Scope) : OpenNode := ⟨s.node, s.continuation⟩

namespace Assembly

def openNodes (a : Assembly) : OpenNodes where
  document := a.document
  stack := a.scopes.map Scope.openNode
  marks := a.marks
  textRun := a.textRun
  finished := a.finished

theorem add_openNodes (node : Node) (a : Assembly) :
    a.openNodes.add node = .ok (a.add node).openNodes := by
  obtain ⟨document, scopes, marks, textRun, finished⟩ := a
  cases scopes with
  | nil => rfl
  | cons s rest =>
    simp only [OpenNodes.add, openNodes, List.map_cons, Scope.openNode, Scope.node, Node.append_container]
    rfl

theorem closeScope_openNodes (a : Assembly) : a.openNodes.closeNode = .ok a.closeScope.openNodes := by
  obtain ⟨document, scopes, marks, textRun, finished⟩ := a
  cases scopes with
  | nil => rfl
  | cons s rest =>
    let outer : Assembly := ⟨document, rest, marks, false, finished⟩
    show (if s.continuation ∧ s.content.isEmpty then Except.ok outer.openNodes else outer.openNodes.add s.node) =
      .ok (if s.continuation ∧ s.content.isEmpty then outer else outer.add s.node).openNodes
    split
    · rfl
    · exact add_openNodes s.node outer

theorem closeAll_openNodes (a : Assembly) : a.openNodes.closeAll = .ok a.closeAll.openNodes := by
  suffices h : ∀ (scopes : List Scope) (a : Assembly),
      (scopes.map Scope.openNode).foldlM (fun a _ => a.closeNode) a.openNodes =
        .ok (scopes.foldl (fun a _ => a.closeScope) a).openNodes from h a.scopes a
  intro scopes
  induction scopes with
  | nil => exact fun _ => rfl
  | cons s scopes ih =>
    intro a
    rw [List.map_cons, List.foldlM_cons, closeScope_openNodes]
    exact ih a.closeScope

theorem finish_openNodes (a : Assembly) : a.openNodes.finish = .ok a.finish.openNodes := by
  rw [OpenNodes.finish, closeAll_openNodes]
  rfl

theorem setLastChild_concat (c : Container) (done : List Node) (last child : Node) :
    (Node.container c (done ++ [last])).setLastChild child = .container c (done ++ [child]) := by
  cases done with
  | nil => rfl
  | cons first rest =>
    show Node.container c ((first :: rest ++ [last]).dropLast ++ [child]) = _
    rw [List.dropLast_concat]

theorem continueRun?_openNodes (s : String) (a : Assembly) :
    a.openNodes.continueRun? s = (a.continueRun? s).map (List.map Scope.openNode) := by
  obtain ⟨document, scopes, marks, textRun, finished⟩ := a
  cases textRun with
  | false => rfl
  | true =>
    cases scopes with
    | nil => rfl
    | cons scope rest =>
      obtain ⟨c, content, k⟩ := scope
      rcases content.eq_nil_or_concat with rfl | ⟨done, last, hcontent⟩
      · rfl
      · rw [List.concat_eq_append] at hcontent
        subst hcontent
        simp only [OpenNodes.continueRun?, continueRun?, openNodes, List.map_cons, Scope.openNode, Scope.node,
          Node.lastChild?, Node.content, List.getLast?_concat, setLastChild_concat, extendLast?_concat]
        split <;> rfl

theorem addText_openNodes (s : String) (a : Assembly) :
    a.openNodes.addText s = .ok (a.addText s).openNodes := by
  rw [OpenNodes.addText, addText]
  split
  · rfl
  · rw [continueRun?_openNodes]
    cases a.continueRun? s with
    | some scopes => rfl
    | none =>
      have hadd := add_openNodes (.text s a.marks) a
      show (do let b ← a.openNodes.add (.text s a.marks); return { b with textRun := true }) = _
      rw [hadd]
      rfl

theorem endBefore_openNodes (s : Scope) (a : Assembly) :
    a.openNodes.endBefore s.openNode = .ok (if s.content.isEmpty then a else a.add s.node).openNodes := by
  show (if s.content.isEmpty then Except.ok a.openNodes else a.openNodes.add s.node) = _
  split
  · rfl
  · exact add_openNodes s.node a

theorem splice_openNodes (block : Node) (a : Assembly) :
    a.openNodes.splice block = .ok (a.splice block).openNodes := by
  obtain ⟨document, scopes, marks, textRun, finished⟩ := a
  cases scopes with
  | nil => rfl
  | cons s rest =>
    cases hs : s.container.holdsInlines with
    | true =>
      let outer : Assembly := ⟨document, rest, marks, textRun, finished⟩
      have hnode : (if s.openNode.node.holdsInlines then s.openNode.node.emptyLike? else none) =
          some (.container s.container []) :=
        (if_pos hs).trans (Node.emptyLike?_container s.container s.content)
      have hsteps : (openNodes ⟨document, s :: rest, marks, textRun, finished⟩).splice block = do
          let before ← outer.openNodes.endBefore s.openNode
          let behind ← before.add block
          return { behind with stack := ⟨.container s.container [], true⟩ :: behind.stack } := by
        simp only [OpenNodes.splice, openNodes, List.map_cons, hnode, outer]
      rw [hsteps, endBefore_openNodes]
      show (do
        let behind ← (if s.content.isEmpty then outer else outer.add s.node).openNodes.add block
        return { behind with stack := ⟨.container s.container [], true⟩ :: behind.stack }) = _
      rw [add_openNodes, splice]
      simp only [hs, if_true]
      rfl
    | false =>
      have hnode : (if s.openNode.node.holdsInlines then s.openNode.node.emptyLike? else none) = none := by
        rw [Scope.openNode, Scope.node, Node.holdsInlines, hs]
        rfl
      have hadd := add_openNodes block ⟨document, s :: rest, marks, textRun, finished⟩
      simp only [OpenNodes.splice, splice, openNodes, List.map_cons, hnode, hs, Bool.false_eq_true, if_false]
      exact hadd

theorem mediaBlock_openNodes (layout : MediaLayout) (destination title alt : String) :
    OpenNodes.mediaBlock layout destination title alt =
      .ok (Assembly.mediaBlock layout destination title alt) := by
  rw [OpenNodes.mediaBlock, Assembly.mediaBlock, Node.append_container]
  cases title.isEmpty <;> rfl

theorem codeBlock_openNodes (fenced : Bool) (language : Option String) (lines : List String) :
    OpenNodes.codeBlock fenced language lines = .ok (Assembly.codeBlock fenced language lines) := by
  have hlanguage : nonempty? (if fenced then language.getD "" else "") =
      if fenced then language.bind nonempty? else none := by
    cases fenced <;> cases language <;> rfl
  rw [OpenNodes.codeBlock, Assembly.codeBlock, Node.codeBlock, hlanguage]
  by_cases h : (String.join lines).isEmpty
  · simp only [h, if_true]
    rfl
  · simp only [h, if_false, Bool.false_eq_true]
    rfl

theorem addImage_openNodes (config : Config) (destination title alt : String) (a : Assembly) :
    a.openNodes.addImage config destination title alt =
      .ok (a.addImage config destination title alt).openNodes := by
  rw [OpenNodes.addImage, addImage]
  cases config.imageHandler with
  | some handler => exact add_openNodes _ a
  | none =>
    cases config.externalMedia with
    | true =>
      simp only [mediaBlock_openNodes]
      exact splice_openNodes _ a
    | false => exact add_openNodes _ a

theorem enter_openNodes (config : Config) (a : Assembly) (e : Element) :
    a.openNodes.enter config e = .ok (enter config a e).openNodes := by
  cases e with
  | text segment hard =>
    simp only [OpenNodes.enter, enter, addText_openNodes]
    cases hard with
    | true => exact add_openNodes _ _
    | false => rfl
  | literal value => exact addText_openNodes value a
  | image destination title alt => exact addImage_openNodes config destination title alt a
  | codeBlock fenced language lines =>
    simp only [OpenNodes.enter, enter, codeBlock_openNodes]
    exact add_openNodes _ a
  | thematicBreak | autoLink | taskCheckBox => exact add_openNodes _ a
  | list ordered start => cases ordered <;> rfl
  | _ => rfl

theorem exit_openNodes (a : Assembly) (e : Element) : a.openNodes.exit e = .ok (a.exit e).openNodes := by
  cases e with
  | document => exact finish_openNodes a
  | heading | blockquote | list | listItem | paragraph | textBlock | table | tableHeader | tableRow =>
    exact closeScope_openNodes a
  | tableCell header =>
    simp only [OpenNodes.exit, closeScope_openNodes]
    exact closeScope_openNodes a.closeScope
  | _ => rfl

theorem feed_openNodes (config : Config) (a : Assembly) (event : Event) :
    a.openNodes.feed config event = .ok (feed config a event).openNodes := by
  cases event with
  | enter e => exact enter_openNodes config a e
  | exit e => exact exit_openNodes a e

theorem feedAll_openNodes (config : Config) (events : List Event) (a : Assembly) :
    a.openNodes.feedAll config events = .ok (feedAll config events a).openNodes := by
  induction events generalizing a with
  | nil => rfl
  | cons event events ih =>
    rw [OpenNodes.feedAll, List.foldlM_cons, feed_openNodes]
    exact ih (feed config a event)

/-! ## What is open -/

/-- Only inline content goes on behind a block. -/
def Continues (a : Assembly) : Prop := ∀ s ∈ a.scopes, s.continuation → s.container.holdsInlines

theorem continues_append {nodes : List Node} {a : Assembly} :
    (a.append nodes).Continues ↔ a.Continues := by
  obtain ⟨document, scopes, marks, textRun, finished⟩ := a
  cases scopes <;> simp [append, Continues]

theorem continues_pushScope {s : Scope} {run : Bool} {a : Assembly} :
    (a.pushScope s run).Continues ↔ (s.continuation → s.container.holdsInlines) ∧ a.Continues :=
  List.forall_mem_cons

theorem continues_addText {s : String} {a : Assembly} (ha : a.Continues) : (a.addText s).Continues := by
  obtain ⟨-, h⟩ | ⟨b, scope, content, rfl, -, h⟩ | h := addText_cases s a
  · rw [h]
    exact ha
  · obtain ⟨hscope, hb⟩ := continues_pushScope.mp ha
    rw [h]
    exact continues_pushScope.mpr ⟨hscope, hb⟩
  · rw [h]
    exact continues_append.mpr ha

theorem continues_closeScope {a : Assembly} (ha : a.Continues) : a.closeScope.Continues := by
  obtain ⟨-, h⟩ | ⟨b, s, run, rfl, h⟩ := closeScope_cases a
  · rw [h]
    exact continues_append.mpr ha
  · rw [h]
    exact continues_append.mpr (continues_pushScope.mp ha).2

theorem continues_splice {block : Node} {a : Assembly} (ha : a.Continues) : (a.splice block).Continues := by
  obtain h | ⟨b, s, run, rfl, hs, h⟩ := splice_cases block a
  · rw [h]
    exact continues_append.mpr ha
  · rw [h]
    exact continues_pushScope.mpr ⟨fun _ => hs, continues_append.mpr (continues_pushScope.mp ha).2⟩

theorem continues_emitAll {es : List Emission} {a : Assembly} (ha : a.Continues) :
    (a.emitAll es).Continues := by
  induction es generalizing a with
  | nil => exact ha
  | cons e es ih =>
    refine ih ?_
    cases e with
    | run s marks => exact continues_addText (a := a.withMarks marks) ha
    | single node => exact continues_append.mpr ha
    | block node => exact continues_splice ha

theorem continues_openScopes {cs : List Container} {a : Assembly} (ha : a.Continues) :
    (cs.foldl (fun a c => a.openScope c) a).Continues := by
  induction cs generalizing a with
  | nil => exact ha
  | cons c cs ih => exact ih (continues_pushScope.mpr ⟨nofun, ha⟩)

theorem continues_closeScopes (n : Nat) {a : Assembly} (ha : a.Continues) : (a.closeScopes n).Continues := by
  induction n generalizing a with
  | zero => exact ha
  | succ n ih => exact ih (continues_closeScope ha)

/-- What holds of the open scopes at any time. -/
structure Sound (a : Assembly) : Prop where
  readable : a.Readable
  continues : a.Continues

theorem sound_of_scopes_eq_nil {a : Assembly} (h : a.scopes = []) : a.Sound where
  readable := by simp [Readable, openContainers, h]
  continues := by simp [Continues, h]

/-- **A step** leaves only scopes open that may have been opened or go on. -/
theorem sound_feed (config : Config) {a : Assembly} (ha : a.Sound) (event : Event) :
    (feed config a event).Sound := by
  by_cases hdocument : event.element = .document
  · -- a document begins and ends without an open scope
    refine sound_of_scopes_eq_nil ?_
    obtain rfl | rfl := Event.eq_enter_or_exit hdocument
    · rfl
    · exact scopes_closeAll a
  · refine ⟨readable_feed config ha.readable hdocument, ?_⟩
    cases event with
    | enter e =>
      have he : e ≠ .document := hdocument
      rw [feed, enter_eq config a he]
      exact continues_openScopes (continues_emitAll ha.continues)
    | exit e =>
      have he : e ≠ .document := hdocument
      rw [feed, exit_eq config a he]
      exact continues_closeScopes _ ha.continues

theorem sound_feedAll (config : Config) (events : List Event) {a : Assembly} (ha : a.Sound) :
    (feedAll config events a).Sound := by
  induction events generalizing a with
  | nil => exact ha
  | cons event events ih => exact ih (sound_feed config ha event)

end Assembly

/-- The types of the nodes that are opened. -/
def openTypes : List NodeType :=
  [.paragraph, .heading, .blockquote, .bulletList, .orderedList, .listItem, .table, .tableRow, .tableHeader,
    .tableCell]

theorem type_mem_openTypes {c : Container} (h : c.isRead) : c.type ∈ openTypes := by
  cases c with
  | codeBlock | mediaSingle | caption => contradiction
  | _ => simp [Container.type, openTypes]

theorem type_of_holdsInlines {c : Container} (h : c.isRead) (hc : c.holdsInlines) :
    c.type = .paragraph ∨ c.type = .heading := by
  cases c with
  | paragraph => exact Or.inl rfl
  | heading level => exact Or.inr rfl
  | _ => contradiction

/-- **Nothing is ever put into a leaf.** Whatever the steps are and however they fit each other, all of them
can be taken with the operations on nodes, with what an assembly does as the outcome. At each time every
open node is of a type that may be opened, and one that goes on behind a block is a paragraph or a heading. -/
theorem feedAll_openNodes_ok (config : Config) (events : List Event) :
    ∃ a, OpenNodes.start.feedAll config events = .ok a ∧
      a = (Assembly.start.feedAll config events).openNodes ∧
      ∀ o ∈ a.stack, o.node.type ∈ openTypes ∧
        (o.continuation → o.node.type = .paragraph ∨ o.node.type = .heading) := by
  have hsound : (Assembly.start.feedAll config events).Sound :=
    Assembly.sound_feedAll config events (Assembly.sound_of_scopes_eq_nil rfl)
  refine ⟨_, Assembly.feedAll_openNodes config events Assembly.start, rfl, ?_⟩
  intro o ho
  obtain ⟨s, hs, rfl⟩ := List.mem_map.mp ho
  have hread : s.container.isRead := hsound.readable s.container (List.mem_map.mpr ⟨s, hs, rfl⟩)
  exact ⟨type_mem_openTypes hread, fun hk => type_of_holdsInlines hread (hsound.continues s hs hk)⟩

end Adf.Convert
