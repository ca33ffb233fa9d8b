import Adf.Markdown.Tree

/-!
# The structure of a tree

Which nodes may stand inside which. A tree is `blockStructured` if blocks hold blocks, lists items, tables
rows, rows cells, and text blocks and inlines nothing but inlines, down to the leaves.
-/

namespace Adf.Markdown

/-! ## Blocks and inlines -/

def Kind.isInline : Kind → Bool
  | .text _ | .softBreak | .lineBreak | .code _ | .htmlInline _ | .emph | .strong | .strikethrough
  | .superscript | .link _ _ | .image _ _ => true
  | .extension e => !e.isBlock
  | _ => false

/-- The kinds of blocks. Front matter is one where it stands: at the top of a document. -/
def Kind.isBlock (kind : Kind) : Bool :=
  kind = .extension .frontMatter || (kind ≠ .document && !kind.isInline)

/-- Whether a node may have a child of the other kind. Where a construct has no counterpart in a document
and is passed over, nothing is asked of its children. -/
def Kind.mayHold (kind child : Kind) : Bool :=
  match kind with
  | .document | .blockQuote | .item | .taskItem _ => child.isBlock
  | .list _ _ =>
    match child with
    | .item | .taskItem _ => true
    | _ => false
  | .table =>
    match child with
    | .tableRow _ => true
    | _ => false
  | .tableRow _ => child = .tableCell
  | .paragraph | .heading _ | .tableCell | .emph | .strong | .strikethrough | .superscript | .link _ _
  | .image _ _ => child.isInline
  | .extension .frontMatter => false
  | .extension e => e.isBlock || child.isInline
  | .codeBlock _ _ _ | .htmlBlock _ | .thematicBreak | .text _ | .softBreak | .lineBreak | .code _
  | .htmlInline _ => false

def Kind.mayHoldAll (kind : Kind) (children : List Tree) : Bool :=
  children.all fun child => kind.mayHold child.kind

/-- The kinds of nodes with nothing but blocks in them. -/
def Kind.holdsBlocks : Kind → Bool
  | .document | .blockQuote | .list _ _ | .item | .taskItem _ | .table | .tableRow _ => true
  | .paragraph | .heading _ | .codeBlock _ _ _ | .htmlBlock _ | .thematicBreak | .tableCell | .text _
  | .softBreak | .lineBreak | .code _ | .htmlInline _ | .emph | .strong | .strikethrough | .superscript
  | .link _ _ | .image _ _ | .extension _ => false

theorem Kind.isBlock_of_mayHold {kind child : Kind} (hkind : kind.holdsBlocks)
    (h : kind.mayHold child) : child.isBlock := by
  cases kind with
  | document | blockQuote | item | taskItem => exact h
  | list | table => cases child <;> simp_all [mayHold, isBlock, isInline]
  | tableRow =>
    obtain rfl : child = .tableCell := by simpa [mayHold] using h
    rfl
  | _ => simp [holdsBlocks] at hkind

namespace Tree

/-! ## Properties of every node -/

mutual

/-- Every node of the tree, with its children, has the property. -/
def all (p : Kind → List Tree → Bool) : Tree → Bool
  | .node kind _ children => p kind children && allOf p children

def allOf (p : Kind → List Tree → Bool) : List Tree → Bool
  | [] => true
  | tree :: rest => tree.all p && allOf p rest

end

def blockStructured (tree : Tree) : Bool := tree.all Kind.mayHoldAll

variable {p : Kind → List Tree → Bool} {kind : Kind} {span : Span} {children : List Tree}

theorem all_node : (node kind span children).all p ↔ p kind children ∧ allOf p children := by
  rw [all, Bool.and_eq_true]

theorem allOf_cons {tree : Tree} {rest : List Tree} :
    allOf p (tree :: rest) ↔ tree.all p ∧ allOf p rest := by
  rw [allOf, Bool.and_eq_true]

end Tree

/-! ## Parts in their places -/

namespace Kind

/-- The parts of a list or a table, which are no blocks of their own. -/
def isPart : Kind → Bool
  | .item | .taskItem _ | .tableRow _ | .tableCell => true
  | _ => false

/-- The nodes in which blocks stand, but no parts. -/
def holdsWholes : Kind → Bool
  | .document | .blockQuote | .item | .taskItem _ => true
  | _ => false

/-- Whether a node may have these children, and none of them is a part that is out of its place: an item
that stands in no list, a row in no table, or a cell in no row. -/
def arranges (kind : Kind) (children : List Tree) : Bool :=
  kind.mayHoldAll children && (!kind.holdsWholes || children.all (!·.kind.isPart))

theorem mayHold_of_arranges {kind : Kind} {children : List Tree} (h : kind.arranges children) :
    ∀ child ∈ children, kind.mayHold child.kind :=
  List.all_eq_true.mp (Bool.and_eq_true_iff.mp h).1

theorem not_isPart_of_arranges {kind : Kind} {children : List Tree} (hkind : kind.holdsWholes)
    (h : kind.arranges children) : ∀ child ∈ children, !child.kind.isPart := by
  have hparts := (Bool.and_eq_true_iff.mp h).2
  rw [hkind] at hparts
  exact List.all_eq_true.mp hparts

end Kind

/-- A block-structured tree with every part in its place. -/
def Tree.arranged (tree : Tree) : Bool := tree.all Kind.arranges

end Adf.Markdown
