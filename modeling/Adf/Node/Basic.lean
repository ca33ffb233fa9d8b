import Adf.Mark

/-!
# Nodes

A node is a leaf or a container. A container has attributes of its own and a list of children; a leaf has
none, so a child can only be given to a container. Nothing here says which children a container may have:
that is the business of the content rules.
-/

namespace Adf

structure Media where
  type : MediaType
  id : Option String
  collection : Option String
  url : Option String
  alt : Option String
deriving DecidableEq, Repr

inductive Leaf where
  | rule
  | media (media : Media)
  | text (text : String) (marks : List Mark)
  | hardBreak
deriving DecidableEq, Repr

/-- The kind of a container, with its attributes. -/
inductive Container where
  | paragraph
  | heading (level : UInt8)
  | blockquote
  | codeBlock (language : Option String)
  | bulletList
  /-- An ordered list; `order` is the number of its first item. -/
  | orderedList (order : UInt64)
  | listItem
  | table (numbered : Bool) (layout : TableLayout)
  | tableRow
  | tableHeader
  | tableCell
  | mediaSingle (layout : MediaLayout)
  | caption
deriving DecidableEq, Repr

inductive Node where
  | leaf (leaf : Leaf)
  | container (container : Container) (content : List Node)
deriving Repr

def Leaf.type : Leaf → NodeType
  | .rule => .rule
  | .media _ => .media
  | .text _ _ => .text
  | .hardBreak => .hardBreak

namespace Container

def type : Container → NodeType
  | .paragraph => .paragraph
  | .heading _ => .heading
  | .blockquote => .blockquote
  | .codeBlock _ => .codeBlock
  | .bulletList => .bulletList
  | .orderedList _ => .orderedList
  | .listItem => .listItem
  | .table _ _ => .table
  | .tableRow => .tableRow
  | .tableHeader => .tableHeader
  | .tableCell => .tableCell
  | .mediaSingle _ => .mediaSingle
  | .caption => .caption

/-- Whether the children are inlines. -/
def holdsInlines : Container → Bool
  | .paragraph | .heading _ | .codeBlock _ | .caption => true
  | _ => false

end Container

namespace Node

/-! ## Building nodes -/

def paragraph : Node := .container .paragraph []

def heading (level : UInt8) : Node := .container (.heading level) []

/-- A code block; an empty language is no language. -/
def codeBlock (language : String) : Node := .container (.codeBlock (nonempty? language)) []

def rule : Node := .leaf .rule

def hardBreak : Node := .leaf .hardBreak

def text (s : String) (marks : List Mark) : Node := .leaf (.text s marks)

/-- Media that lie elsewhere; an empty alternative text is none. -/
def externalMedia (url alt : String) : Node :=
  .leaf (.media ⟨.external, none, none, some url, nonempty? alt⟩)

/-- A file that was uploaded. -/
def fileMedia (id collection : String) : Node :=
  .leaf (.media ⟨.file, some id, some collection, none, none⟩)

/-- A caption of one unmarked text. -/
def caption (s : String) : Node := .container .caption [text s []]

/-! ## Parts of a node -/

def type : Node → NodeType
  | .leaf l => l.type
  | .container c _ => c.type

def holdsInlines : Node → Bool
  | .leaf _ => false
  | .container c _ => c.holdsInlines

def content : Node → List Node
  | .leaf _ => []
  | .container _ content => content

/-- The marks of a text; no other node has any. -/
def marks : Node → List Mark
  | .leaf (.text _ marks) => marks
  | _ => []

def text? : Node → Option String
  | .leaf (.text s _) => some s
  | _ => none

/-! ## Changing a node -/

/-- Why a child cannot be added to a node. -/
structure LeafError where
  type : NodeType
deriving DecidableEq, Repr

def LeafError.message (e : LeafError) : String := e.type.name ++ " nodes cannot hold children"

/-- A text with more text at its end. Other nodes stay as they are. -/
def pushText (more : String) : Node → Node
  | .leaf (.text s marks) => .leaf (.text (s ++ more) marks)
  | node => node

def lastChild? (node : Node) : Option Node := node.content.getLast?

/-- The node with another last child, if it has one. -/
def setLastChild (parent child : Node) : Node :=
  match parent with
  | .container c (first :: rest) => .container c ((first :: rest).dropLast ++ [child])
  | _ => parent

/-! ## Equality -/

mutual

def decEq : (a b : Node) → Decidable (a = b)
  | .leaf l, .leaf m =>
    if h : l = m then isTrue (h ▸ rfl) else isFalse fun e => h (by cases e; rfl)
  | .container c xs, .container d ys =>
    if hc : c = d then
      match decEqList xs ys with
      | isTrue hx => isTrue (by rw [hc, hx])
      | isFalse hx => isFalse fun e => hx (by cases e; rfl)
    else isFalse fun e => hc (by cases e; rfl)
  | .leaf _, .container _ _ => isFalse nofun
  | .container _ _, .leaf _ => isFalse nofun

def decEqList : (xs ys : List Node) → Decidable (xs = ys)
  | [], [] => isTrue rfl
  | x :: xs, y :: ys =>
    match decEq x y, decEqList xs ys with
    | isTrue h, isTrue ht => isTrue (by rw [h, ht])
    | isFalse h, _ => isFalse fun e => h (by cases e; rfl)
    | _, isFalse ht => isFalse fun e => ht (by cases e; rfl)
  | [], _ :: _ => isFalse nofun
  | _ :: _, [] => isFalse nofun

end

instance : DecidableEq Node := decEq

end Node

end Adf
