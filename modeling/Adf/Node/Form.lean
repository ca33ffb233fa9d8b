import Adf.Node.Basic

/-!
# The forms of nodes

Every type of node has a form of its own, with the fields that nodes of this type have. What can be read from a
node, and how it changes, is said for each form by itself: its type, its children, the place that the children
stand in, and the form without them. Children are added to a node, and it is emptied, by way of its form.
-/

namespace Adf

/-- A node, by its type. -/
inductive Form where
  | paragraph (content : List Node)
  | heading (level : UInt8) (content : List Node)
  | blockquote (content : List Node)
  | codeBlock (language : Option String) (content : List Node)
  | rule
  | bulletList (content : List Node)
  /-- An ordered list; `order` is the number of its first item. -/
  | orderedList (order : UInt64) (content : List Node)
  | listItem (content : List Node)
  | table (numbered : Bool) (layout : TableLayout) (content : List Node)
  | tableRow (content : List Node)
  | tableHeader (content : List Node)
  | tableCell (content : List Node)
  | mediaSingle (layout : MediaLayout) (content : List Node)
  | media (media : Media)
  | caption (content : List Node)
  | text (text : String) (marks : List Mark)
  | hardBreak
deriving DecidableEq, Repr

def Node.form : Node → Form
  | .leaf .rule => .rule
  | .leaf (.media m) => .media m
  | .leaf (.text s marks) => .text s marks
  | .leaf .hardBreak => .hardBreak
  | .container .paragraph content => .paragraph content
  | .container (.heading level) content => .heading level content
  | .container .blockquote content => .blockquote content
  | .container (.codeBlock language) content => .codeBlock language content
  | .container .bulletList content => .bulletList content
  | .container (.orderedList order) content => .orderedList order content
  | .container .listItem content => .listItem content
  | .container (.table numbered layout) content => .table numbered layout content
  | .container .tableRow content => .tableRow content
  | .container .tableHeader content => .tableHeader content
  | .container .tableCell content => .tableCell content
  | .container (.mediaSingle layout) content => .mediaSingle layout content
  | .container .caption content => .caption content

namespace Form

def node : Form → Node
  | .paragraph content => .container .paragraph content
  | .heading level content => .container (.heading level) content
  | .blockquote content => .container .blockquote content
  | .codeBlock language content => .container (.codeBlock language) content
  | .rule => .leaf .rule
  | .bulletList content => .container .bulletList content
  | .orderedList order content => .container (.orderedList order) content
  | .listItem content => .container .listItem content
  | .table numbered layout content => .container (.table numbered layout) content
  | .tableRow content => .container .tableRow content
  | .tableHeader content => .container .tableHeader content
  | .tableCell content => .container .tableCell content
  | .mediaSingle layout content => .container (.mediaSingle layout) content
  | .media m => .leaf (.media m)
  | .caption content => .container .caption content
  | .text s marks => .leaf (.text s marks)
  | .hardBreak => .leaf .hardBreak

/-! ## Parts of a form -/

def type : Form → NodeType
  | .paragraph _ => .paragraph
  | .heading _ _ => .heading
  | .blockquote _ => .blockquote
  | .codeBlock _ _ => .codeBlock
  | .rule => .rule
  | .bulletList _ => .bulletList
  | .orderedList _ _ => .orderedList
  | .listItem _ => .listItem
  | .table _ _ _ => .table
  | .tableRow _ => .tableRow
  | .tableHeader _ => .tableHeader
  | .tableCell _ => .tableCell
  | .mediaSingle _ _ => .mediaSingle
  | .media _ => .media
  | .caption _ => .caption
  | .text _ _ => .text
  | .hardBreak => .hardBreak

/-- Whether the children are inlines. -/
def holdsInlines : Form → Bool
  | .paragraph _ | .heading _ _ | .codeBlock _ _ | .caption _ => true
  | _ => false

/-- The children. -/
def content : Form → List Node
  | .paragraph content => content
  | .heading _ content => content
  | .blockquote content => content
  | .codeBlock _ content => content
  | .bulletList content => content
  | .orderedList _ content => content
  | .listItem content => content
  | .table _ _ content => content
  | .tableRow content => content
  | .tableHeader content | .tableCell content => content
  | .mediaSingle _ content => content
  | .caption content => content
  | .rule | .media _ | .text _ _ | .hardBreak => []

/-! ## Changing a form -/

/-- The place of the children in a form: those that stand there, and the form with others put there. -/
structure Place where
  content : List Node
  put : List Node → Form

/-- The place where the children stand, if there is one. -/
def place? : Form → Option Place
  | .paragraph content => some ⟨content, .paragraph⟩
  | .heading level content => some ⟨content, .heading level⟩
  | .blockquote content => some ⟨content, .blockquote⟩
  | .codeBlock language content => some ⟨content, .codeBlock language⟩
  | .bulletList content => some ⟨content, .bulletList⟩
  | .orderedList order content => some ⟨content, .orderedList order⟩
  | .listItem content => some ⟨content, .listItem⟩
  | .table numbered layout content => some ⟨content, .table numbered layout⟩
  | .tableRow content => some ⟨content, .tableRow⟩
  | .tableHeader content => some ⟨content, .tableHeader⟩
  | .tableCell content => some ⟨content, .tableCell⟩
  | .mediaSingle layout content => some ⟨content, .mediaSingle layout⟩
  | .caption content => some ⟨content, .caption⟩
  | .rule | .media _ | .text _ _ | .hardBreak => none

/-- The form with one child more. Without a place for it, the child is refused. -/
def append (parent : Form) (child : Node) : Except Node.LeafError Form :=
  match parent.place? with
  | some place => .ok (place.put (place.content ++ [child]))
  | none => .error ⟨parent.type⟩

/-- A container of the same kind and attributes that has no children yet. -/
def emptyLike? : Form → Option Form
  | .paragraph _ => some (.paragraph [])
  | .heading level _ => some (.heading level [])
  | .blockquote _ => some (.blockquote [])
  | .codeBlock language _ => some (.codeBlock language [])
  | .bulletList _ => some (.bulletList [])
  | .orderedList order _ => some (.orderedList order [])
  | .listItem _ => some (.listItem [])
  | .table numbered layout _ => some (.table numbered layout [])
  | .tableRow _ => some (.tableRow [])
  | .tableHeader _ => some (.tableHeader [])
  | .tableCell _ => some (.tableCell [])
  | .mediaSingle layout _ => some (.mediaSingle layout [])
  | .caption _ => some (.caption [])
  | .rule | .media _ | .text _ _ | .hardBreak => none

end Form

namespace Node

/-- The node with one child more; a leaf takes none. -/
def append (parent child : Node) : Except LeafError Node := (parent.form.append child).map Form.node

/-- A container of the same kind and attributes that has no children yet. -/
def emptyLike? (node : Node) : Option Node := node.form.emptyLike?.map Form.node

@[simp] theorem append_leaf (l : Leaf) (child : Node) : (leaf l).append child = .error ⟨l.type⟩ := by
  cases l <;> rfl

@[simp] theorem append_container (c : Container) (content : List Node) (child : Node) :
    (container c content).append child = .ok (container c (content ++ [child])) := by
  cases c <;> rfl

@[simp] theorem emptyLike?_leaf (l : Leaf) : (leaf l).emptyLike? = none := by
  cases l <;> rfl

@[simp] theorem emptyLike?_container (c : Container) (content : List Node) :
    (container c content).emptyLike? = some (container c []) := by
  cases c <;> rfl

end Node

end Adf
