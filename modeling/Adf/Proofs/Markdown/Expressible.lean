import Adf.Proofs.Markdown.Structure

/-!
# Expressible trees

The trees that have a form in a valid document. Beyond being block structured, they have no kind of node
without a counterpart, no container that stays empty where the content rules want something, and no code
span inside other formatting but links.
-/

namespace Adf.Markdown

namespace Kind

/-- The blocks that may stand in a quote or an item. -/
def isPlainBlock : Kind → Bool
  | .paragraph | .list _ _ | .codeBlock _ _ _ | .htmlBlock _ => true
  | .document | .heading _ | .blockQuote | .item | .taskItem _ | .thematicBreak | .table | .tableRow _
  | .tableCell | .text _ | .softBreak | .lineBreak | .code _ | .htmlInline _ | .emph | .strong
  | .strikethrough | .superscript | .link _ _ | .image _ _ | .extension _ => false

/-- The blocks that may stand at the top. -/
def isTopBlock : Kind → Bool
  | .paragraph | .heading _ | .blockQuote | .list _ _ | .codeBlock _ _ _ | .htmlBlock _ | .thematicBreak
  | .table => true
  | .document | .item | .taskItem _ | .tableRow _ | .tableCell | .text _ | .softBreak | .lineBreak | .code _
  | .htmlInline _ | .emph | .strong | .strikethrough | .superscript | .link _ _ | .image _ _
  | .extension _ => false

def isHtmlBlock : Kind → Bool
  | .htmlBlock _ => true
  | _ => false

def isItem : Kind → Bool
  | .item | .taskItem _ => true
  | _ => false

def isRow : Kind → Bool
  | .tableRow _ => true
  | _ => false

/-- The inlines that have a counterpart. -/
def isPlainInline : Kind → Bool
  | .extension _ => false
  | kind => kind.isInline

def isCode : Kind → Bool
  | .code _ => true
  | _ => false

/-- A node that is no code span, whatever its children are. -/
def isCodeless (kind : Kind) (_ : List Tree) : Bool := !kind.isCode

/-- Whether a node with these children has a form in a document. Where there are no external media, an image
becomes a text and needs something to show. The number of a list must be less than `2 ^ 63`. -/
def isExpressibleWith (media : Bool) (kind : Kind) (children : List Tree) : Bool :=
  match kind with
  | .document => children.all (·.kind.isTopBlock)
  | .blockQuote | .item | .taskItem _ =>
    children.all (·.kind.isPlainBlock) && children.any (!·.kind.isHtmlBlock)
  | .list ordered start =>
    children.all (·.kind.isItem) && !children.isEmpty && (!ordered || start.toNat < 0x8000000000000000)
  | .table => children.all (·.kind.isRow) && !children.isEmpty
  | .tableRow _ => children.all (·.kind = .tableCell) && !children.isEmpty
  | .heading level => children.all (·.kind.isPlainInline) && (1 ≤ level && level ≤ 6)
  | .paragraph | .tableCell | .link _ _ => children.all (·.kind.isPlainInline)
  | .emph | .strong | .strikethrough | .superscript =>
    children.all (·.kind.isPlainInline) && Tree.allOf isCodeless children
  | .image url _ =>
    children.all (·.kind.isPlainInline) && (media || !(Tree.plainTexts children).isEmpty || !url.isEmpty)
  | .codeBlock _ _ _ | .htmlBlock _ | .thematicBreak | .text _ | .softBreak | .lineBreak | .code _
  | .htmlInline _ | .extension _ => children.isEmpty

end Kind

namespace Tree

/-- The tree is a document, and each of its nodes has a form in one. -/
def expressible (media : Bool) (tree : Tree) : Bool :=
  tree.kind = .document && tree.all (Kind.isExpressibleWith media)

mutual

theorem all_mono {p q : Kind → List Tree → Bool} (h : ∀ kind children, p kind children → q kind children) :
    ∀ tree : Tree, tree.all p → tree.all q
  | .node kind span children, hp => by
    obtain ⟨hnode, hchildren⟩ := all_node.mp hp
    exact all_node.mpr ⟨h kind children hnode, allOf_mono h children hchildren⟩

theorem allOf_mono {p q : Kind → List Tree → Bool} (h : ∀ kind children, p kind children → q kind children) :
    ∀ trees : List Tree, allOf p trees → allOf q trees
  | [], _ => rfl
  | tree :: rest, hp => by
    obtain ⟨htree, hrest⟩ := allOf_cons.mp hp
    exact allOf_cons.mpr ⟨all_mono h tree htree, allOf_mono h rest hrest⟩

end

end Tree

/-! ## Expressible trees are block structured -/

namespace Kind

theorem isBlock_of_isTopBlock {kind : Kind} (h : kind.isTopBlock) : kind.isBlock := by
  cases kind with
  | paragraph | heading | blockQuote | list | codeBlock | htmlBlock | thematicBreak | table => rfl
  | _ => contradiction

theorem isTopBlock_of_isPlainBlock {kind : Kind} (h : kind.isPlainBlock) : kind.isTopBlock := by
  cases kind with
  | paragraph | list | codeBlock | htmlBlock => rfl
  | _ => contradiction

theorem isInline_of_isPlainInline {kind : Kind} (h : kind.isPlainInline) : kind.isInline := by
  cases kind with
  | extension => contradiction
  | _ => exact h

theorem mayHold_list_of_isItem {ordered : Bool} {start : UInt64} {kind : Kind} (h : kind.isItem) :
    (Kind.list ordered start).mayHold kind := by
  cases kind with
  | item | taskItem => rfl
  | _ => contradiction

theorem mayHold_table_of_isRow {kind : Kind} (h : kind.isRow) : Kind.table.mayHold kind := by
  cases kind with
  | tableRow => rfl
  | _ => contradiction

theorem mayHold_of_isExpressibleWith {media : Bool} {kind : Kind} {children : List Tree}
    (h : kind.isExpressibleWith media children) : kind.mayHoldAll children := by
  have himp {f : Tree → Bool} (hf : children.all f) (hhold : ∀ child, f child → kind.mayHold child.kind) :
      kind.mayHoldAll children :=
    List.all_eq_true.mpr fun child hchild => hhold child (List.all_eq_true.mp hf child hchild)
  cases kind with
  | document => exact himp h fun child => isBlock_of_isTopBlock
  | blockQuote | item | taskItem =>
    obtain ⟨hall, -⟩ := Bool.and_eq_true_iff.mp h
    exact himp hall fun child hchild => isBlock_of_isTopBlock (isTopBlock_of_isPlainBlock hchild)
  | list =>
    obtain ⟨⟨hall, -⟩, -⟩ := (Bool.and_eq_true_iff.mp h).imp_left Bool.and_eq_true_iff.mp
    exact himp hall fun child => mayHold_list_of_isItem
  | table =>
    obtain ⟨hall, -⟩ := Bool.and_eq_true_iff.mp h
    exact himp hall fun child => mayHold_table_of_isRow
  | tableRow =>
    obtain ⟨hall, -⟩ := Bool.and_eq_true_iff.mp h
    exact himp hall fun child hchild => hchild
  | paragraph | tableCell | link => exact himp h fun child => isInline_of_isPlainInline
  | heading | emph | strong | strikethrough | superscript | image =>
    obtain ⟨hall, -⟩ := Bool.and_eq_true_iff.mp h
    exact himp hall fun child => isInline_of_isPlainInline
  | _ =>
    obtain rfl : children = [] := List.isEmpty_iff.mp h
    rfl

end Kind

theorem Tree.blockStructured_of_expressible {media : Bool} {tree : Tree} (h : tree.expressible media) :
    tree.blockStructured :=
  all_mono (fun _ _ => Kind.mayHold_of_isExpressibleWith) tree (Bool.and_eq_true_iff.mp h).2

end Adf.Markdown
