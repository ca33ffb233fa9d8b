import Adf.Document
import Adf.Schema.Rules

/-!
# Well-formed nodes

Which nodes may stand in a document: every container has children of the right types and as many as it
needs, and every leaf has what it must have. A node is `wellFormed` if it and all nodes in it are.
-/

namespace Adf

/-! ## Types of nodes by their place -/

namespace NodeType

def isInline : NodeType → Bool
  | .text | .hardBreak => true
  | _ => false

/-- The blocks that may stand in a quote or an item. -/
def isPlainBlock : NodeType → Bool
  | .paragraph | .bulletList | .orderedList | .codeBlock | .mediaSingle => true
  | _ => false

/-- The blocks that may stand in a cell. -/
def isCellBlock : NodeType → Bool
  | .heading | .blockquote | .rule => true
  | type => type.isPlainBlock

/-- The blocks that may stand in no other. -/
def isTopBlock : NodeType → Bool
  | .table => true
  | type => type.isCellBlock

end NodeType

/-! ## Parts -/

/-- A colour must be written in a certain way. -/
def Mark.wellFormed : Mark → Bool
  | .textColor color => Schema.isColor color
  | _ => true

/-- Beside `code` only links may stand. -/
def marksWellFormed (marks : List Mark) : Bool :=
  marks.all Mark.wellFormed &&
    (marks.all (· ≠ .code) || marks.all fun m => m.type = .code || m.type = .link)

theorem marksWellFormed_iff {marks : List Mark} :
    marksWellFormed marks ↔ (∀ m ∈ marks, m.wellFormed) ∧
      (.code ∉ marks ∨ ∀ m ∈ marks, m.type = .code ∨ m.type = .link) := by
  have hcode : (∀ m ∈ marks, ¬m = .code) ↔ .code ∉ marks :=
    ⟨fun h hmem => h _ hmem rfl, fun h m hm hcode => h (hcode ▸ hm)⟩
  simp [marksWellFormed, hcode]

def Media.wellFormed (m : Media) : Bool :=
  match m.type with
  | .external => m.url.isSome
  | .file | .link => m.id.isSome && m.collection.isSome

def Leaf.wellFormed : Leaf → Bool
  | .rule | .hardBreak => true
  | .media m => m.wellFormed
  | .text s marks => !s.isEmpty && marksWellFormed marks

namespace Container

/-- The attributes are in their bounds. -/
def wellFormed : Container → Bool
  | .heading level => 1 ≤ level && level ≤ 6
  | .orderedList order => order.toNat < 0x8000000000000000
  | .paragraph | .blockquote | .codeBlock _ | .bulletList | .listItem | .table _ _ | .tableRow | .tableHeader
  | .tableCell | .mediaSingle _ | .caption => true

/-- Whether a container may have these children. -/
def admits (content : List Node) : Container → Bool
  | .paragraph | .caption | .heading _ => content.all (·.type.isInline)
  | .blockquote | .listItem => !content.isEmpty && content.all (·.type.isPlainBlock)
  | .codeBlock _ => content.all fun node => node.type = .text && node.marks.isEmpty
  | .bulletList | .orderedList _ => !content.isEmpty && content.all (·.type = .listItem)
  | .table _ _ => !content.isEmpty && content.all (·.type = .tableRow)
  | .tableRow =>
    !content.isEmpty && content.all fun node => node.type = .tableCell || node.type = .tableHeader
  | .tableHeader | .tableCell => !content.isEmpty && content.all (·.type.isCellBlock)
  | .mediaSingle _ =>
    match content with
    | [only] => only.type = .media
    | [first, second] => first.type = .media && second.type = .caption
    | _ => false

end Container

/-! ## Whole nodes -/

namespace Node

mutual

/-- Every container in the node is well formed and admits its children, and every leaf is well formed. -/
def wellFormed : Node → Bool
  | .leaf l => l.wellFormed
  | .container c content => c.wellFormed && c.admits content && listWellFormed content

def listWellFormed : List Node → Bool
  | [] => true
  | node :: rest => node.wellFormed && listWellFormed rest

end

theorem listWellFormed_iff {nodes : List Node} : listWellFormed nodes ↔ ∀ node ∈ nodes, node.wellFormed := by
  induction nodes with
  | nil => simp [listWellFormed]
  | cons node rest ih => simp [listWellFormed, ih]

theorem wellFormed_container {c : Container} {content : List Node} :
    (container c content).wellFormed ↔
      c.wellFormed ∧ c.admits content ∧ ∀ node ∈ content, node.wellFormed := by
  rw [wellFormed, Bool.and_eq_true, Bool.and_eq_true, listWellFormed_iff, and_assoc]

end Node

/-- The blocks of the document may stand at the top, and all that is in them is well formed. -/
def Document.wellFormed (d : Document) : Bool :=
  d.content.all fun node => node.type.isTopBlock && node.wellFormed

end Adf
