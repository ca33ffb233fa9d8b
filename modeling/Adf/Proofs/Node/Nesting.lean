import Adf.Proofs.Node.WellFormed

/-!
# Well-nested nodes

Which children the containers of the format are meant for. Unlike the content rules this asks for no child
that must be there and does not tell the blocks of a quote from those of a cell: it only keeps inlines,
blocks and the parts of lists, tables and media apart.
-/

namespace Adf

/-- Whether the children are of the sort that the container is for. -/
def Container.mayContain (content : List Node) : Container → Bool
  | .paragraph | .heading _ | .caption => content.all (·.type.isInline)
  | .codeBlock _ => content.all fun node => node.type = .text && node.marks.isEmpty
  | .bulletList | .orderedList _ => content.all (·.type = .listItem)
  | .table _ _ => content.all (·.type = .tableRow)
  | .tableRow => content.all fun node => node.type = .tableCell || node.type = .tableHeader
  | .mediaSingle _ =>
    match content with
    | [only] => only.type = .media
    | [first, second] => first.type = .media && second.type = .caption
    | _ => false
  | .blockquote | .listItem | .tableHeader | .tableCell => content.all (·.type.isTopBlock)

namespace Node

mutual

/-- Every container in the node has children of its sort. -/
def wellNested : Node → Bool
  | .leaf _ => true
  | .container c content => c.mayContain content && listWellNested content

def listWellNested : List Node → Bool
  | [] => true
  | node :: rest => node.wellNested && listWellNested rest

end

theorem listWellNested_iff {nodes : List Node} : listWellNested nodes ↔ ∀ node ∈ nodes, node.wellNested := by
  induction nodes with
  | nil => simp [listWellNested]
  | cons node rest ih => simp [listWellNested, ih]

theorem wellNested_container {c : Container} {content : List Node} :
    (container c content).wellNested ↔ c.mayContain content ∧ ∀ node ∈ content, node.wellNested := by
  rw [wellNested, Bool.and_eq_true, listWellNested_iff]

end Node

/-- The blocks of the document may stand at the top, and all that is in them is well nested. -/
def Document.wellNested (d : Document) : Bool :=
  d.content.all fun node => node.type.isTopBlock && node.wellNested

/-! ## Well-formed nodes are well nested -/

theorem NodeType.isTopBlock_of_isCellBlock {type : NodeType} (h : type.isCellBlock) : type.isTopBlock := by
  cases type with
  | table => rfl
  | _ => exact h

theorem NodeType.isCellBlock_of_isPlainBlock {type : NodeType} (h : type.isPlainBlock) : type.isCellBlock := by
  cases type with
  | heading | blockquote | rule => rfl
  | _ => exact h

theorem Container.mayContain_of_admits {c : Container} {content : List Node} (h : c.admits content) :
    c.mayContain content := by
  have hblocks {p : NodeType → Bool} (hp : ∀ type, p type → type.isTopBlock)
      (hall : !content.isEmpty && content.all (p ·.type)) : content.all (·.type.isTopBlock) := by
    have hall := List.all_eq_true.mp (Bool.and_eq_true_iff.mp hall).2
    exact List.all_eq_true.mpr fun node hnode => hp _ (hall node hnode)
  cases c with
  | blockquote | listItem =>
    exact hblocks (fun _ hplain =>
      NodeType.isTopBlock_of_isCellBlock (NodeType.isCellBlock_of_isPlainBlock hplain)) h
  | tableHeader | tableCell => exact hblocks (fun _ => NodeType.isTopBlock_of_isCellBlock) h
  | bulletList | orderedList | table | tableRow => exact (Bool.and_eq_true_iff.mp h).2
  | paragraph | heading | caption | codeBlock | mediaSingle => exact h

mutual

theorem Node.wellNested_of_wellFormed : ∀ node : Node, node.wellFormed → node.wellNested
  | .leaf _, _ => rfl
  | .container c content, h => by
    obtain ⟨-, hadmits, hcontent⟩ := Node.wellFormed_container.mp h
    refine Node.wellNested_container.mpr ⟨Container.mayContain_of_admits hadmits, ?_⟩
    exact Node.wellNested_of_forall_wellFormed content hcontent

theorem Node.wellNested_of_forall_wellFormed : ∀ nodes : List Node, (∀ node ∈ nodes, node.wellFormed) →
    ∀ node ∈ nodes, node.wellNested
  | [], _ => nofun
  | node :: rest, h => by
    obtain ⟨hnode, hrest⟩ := List.forall_mem_cons.mp h
    exact List.forall_mem_cons.mpr
      ⟨Node.wellNested_of_wellFormed node hnode, Node.wellNested_of_forall_wellFormed rest hrest⟩

end

end Adf
