import Adf.Proofs.Convert.Translation
import Adf.Proofs.Markdown.Expressible
import Adf.Proofs.Schema.Agreement

/-!
# Documents of expressible trees are valid

Rendering an expressible tree gives a document in which the checks find nothing. The inlines of such a tree
yield inline nodes with marks that fit each other, or media where these are wanted, and every block becomes
well-formed nodes of the types that its parent may hold.
-/

namespace Adf.Convert

open Markdown

/-! ## Inlines -/

/-- A node that may stand in inline content. -/
def FitsInline (node : Node) : Prop := node.type.isInline ∧ node.wellFormed

/-- A block that may cut inline content. -/
def FitsBetween (node : Node) : Prop := node.type = .mediaSingle ∧ node.wellFormed

/-- Marks that may be open around inlines: none of them is `code`, and beside links there are others only
if no code span is inside. -/
structure FitAround (marks : List Mark) (codeless : Prop) : Prop where
  wellFormed : ∀ m ∈ marks, m.wellFormed ∧ m ≠ .code
  links : (∀ m ∈ marks, m.type = .link) ∨ codeless

theorem fitAround_nil (codeless : Prop) : FitAround [] codeless := ⟨nofun, Or.inl nofun⟩

theorem FitAround.imp {marks : List Mark} {p q : Prop} (h : FitAround marks p) (hpq : p → q) :
    FitAround marks q :=
  ⟨h.wellFormed, h.links.imp_right hpq⟩

theorem FitAround.append {marks : List Mark} {p q : Prop} (h : FitAround marks p) {m : Mark}
    (hm : m.wellFormed ∧ m ≠ .code) (hq : m.type = .link ∧ (p → q) ∨ q) : FitAround (marks ++ [m]) q := by
  refine ⟨?_, ?_⟩
  · intro m' hm'
    rcases List.mem_append.mp hm' with hm' | hm'
    · exact h.wellFormed m' hm'
    · obtain rfl := List.mem_singleton.mp hm'
      exact hm
  · rcases hq with ⟨hlink, hpq⟩ | hq
    · refine h.links.imp (fun hlinks m' hm' => ?_) hpq
      rcases List.mem_append.mp hm' with hm' | hm'
      · exact hlinks m' hm'
      · obtain rfl := List.mem_singleton.mp hm'
        exact hlink
    · exact Or.inr hq

theorem FitAround.marksWellFormed {marks : List Mark} {codeless : Prop} (h : FitAround marks codeless) :
    marksWellFormed marks :=
  marksWellFormed_iff.mpr ⟨fun m hm => (h.wellFormed m hm).1, Or.inl fun hcode => (h.wellFormed _ hcode).2 rfl⟩

/-- A code span may stand in links. -/
theorem FitAround.marksWellFormed_code {marks : List Mark} {codeless : Prop} (h : FitAround marks codeless)
    (hcode : ¬codeless) : Adf.marksWellFormed (marks ++ [.code]) := by
  have hlinks := h.links.resolve_right hcode
  refine marksWellFormed_iff.mpr ⟨?_, Or.inr ?_⟩
  · intro m hm
    rcases List.mem_append.mp hm with hm | hm
    · exact (h.wellFormed m hm).1
    · obtain rfl := List.mem_singleton.mp hm
      rfl
  · intro m hm
    rcases List.mem_append.mp hm with hm | hm
    · exact Or.inr (hlinks m hm)
    · obtain rfl := List.mem_singleton.mp hm
      exact Or.inl rfl

theorem fitsInline_text {s : String} (hs : ¬s.isEmpty) {marks : List Mark} (h : marksWellFormed marks) :
    FitsInline (.text s marks) := by
  refine ⟨rfl, ?_⟩
  show (!s.isEmpty && Adf.marksWellFormed marks) = true
  rw [Bool.and_eq_true]
  exact ⟨by simpa using hs, h⟩

theorem marksWellFormed_link (destination title : String) : marksWellFormed [.linkTo destination title] := by
  simp [marksWellFormed, Mark.linkTo, Mark.wellFormed]

theorem yields_textContent {s : String} {marks : List Mark} (h : marksWellFormed marks) :
    ∀ e ∈ textContent s marks, e.Yields FitsInline FitsBetween := by
  intro e he
  unfold textContent at he
  split at he
  · contradiction
  · obtain rfl := List.mem_singleton.mp he
    exact fun s hs => fitsInline_text hs h

theorem wellFormed_caption {s : String} (hs : ¬s.isEmpty) : (Node.caption s).wellFormed := by
  have htext : FitsInline (.text s []) := fitsInline_text hs rfl
  refine Node.wellFormed_container.mpr ⟨rfl, ?_, ?_⟩
  · rfl
  · exact List.forall_mem_singleton.mpr htext.2

/-- External media with the title as their caption. -/
theorem fitsBetween_media (layout : MediaLayout) (destination title alt : String) :
    FitsBetween (.container (.mediaSingle layout)
      (.externalMedia destination alt :: if title.isEmpty then [] else [.caption title])) := by
  refine ⟨rfl, Node.wellFormed_container.mpr ⟨rfl, ?_⟩⟩
  by_cases htitle : title.isEmpty
  · rw [if_pos htitle]
    exact ⟨rfl, List.forall_mem_singleton.mpr rfl⟩
  · rw [if_neg htitle]
    refine ⟨rfl, List.forall_mem_cons.mpr ⟨rfl, ?_⟩⟩
    exact List.forall_mem_singleton.mpr (wellFormed_caption htitle)

theorem yields_imageEmission {config : Config} (hhandler : config.imageHandler = none)
    {destination title alt : String}
    (hshown : config.externalMedia || !alt.isEmpty || !destination.isEmpty) :
    (imageEmission config destination title alt).Yields FitsInline FitsBetween := by
  unfold imageEmission
  rw [hhandler]
  by_cases hmedia : config.externalMedia
  · simp only [if_pos hmedia]
    exact fitsBetween_media config.imageLayout destination title alt
  · simp only [if_neg hmedia]
    refine fitsInline_text ?_ (marksWellFormed_link destination title)
    by_cases halt : alt.isEmpty
    · simpa [hmedia, halt] using hshown
    · simp [halt]

theorem not_isEmpty_of_autolink? {url title : String} {span : Span} {children : List Tree} {label : String}
    (h : Tree.autolink? url title span children = some label) : ¬label.isEmpty := by
  unfold Tree.autolink? at h
  split at h
  · split at h
    · rename_i hlink
      obtain rfl := Option.some.inj h
      exact hlink.2.1
    · contradiction
  · contradiction

/-- The tree has no code span in it. -/
def Codeless (tree : Tree) : Prop := tree.all Kind.isCodeless

mutual

theorem yields_inline {config : Config} (hhandler : config.imageHandler = none) :
    ∀ (tree : Tree) (marks : List Mark),
      tree.all (Kind.isExpressibleWith config.externalMedia) →
      FitAround marks (Codeless tree) →
      ∀ e ∈ inline config marks tree, e.Yields FitsInline FitsBetween
  | .node kind span children, marks, htree, hmarks => by
    obtain ⟨hnode, hall⟩ := Tree.all_node.mp htree
    have hcodeless : Codeless (.node kind span children) → Tree.allOf Kind.isCodeless children :=
      fun h => (Tree.all_node.mp h).2
    unfold inline
    cases kind with
    | text | softBreak => exact yields_textContent hmarks.marksWellFormed
    | lineBreak =>
      intro e he
      obtain rfl := List.mem_singleton.mp he
      exact ⟨rfl, rfl⟩
    | code literal =>
      -- the tree has a code span in it, so no marks but links are open around it
      refine yields_textContent (hmarks.marksWellFormed_code fun h => ?_)
      exact Bool.false_ne_true (Tree.all_node.mp h).1
    | emph | strong | strikethrough | superscript =>
      obtain ⟨-, hinside⟩ := Bool.and_eq_true_iff.mp hnode
      exact yields_inlines hhandler children _ hall (hmarks.append ⟨rfl, nofun⟩ (Or.inr hinside))
    | link url title =>
      dsimp only
      cases hlabel : Tree.autolink? url title span children with
      | some label =>
        intro e he
        obtain rfl := List.mem_singleton.mp he
        exact fitsInline_text (not_isEmpty_of_autolink? hlabel) (marksWellFormed_link url "")
      | none =>
        exact yields_inlines hhandler children _ hall
          (hmarks.append ⟨rfl, nofun⟩ (Or.inl ⟨rfl, hcodeless⟩))
    | image url title =>
      obtain ⟨-, hshown⟩ := Bool.and_eq_true_iff.mp hnode
      intro e he
      obtain rfl := List.mem_singleton.mp he
      exact yields_imageEmission hhandler hshown
    | extension =>
      exact yields_inlines hhandler children marks hall (hmarks.imp hcodeless)
    | _ => exact nofun

theorem yields_inlines {config : Config} (hhandler : config.imageHandler = none) :
    ∀ (trees : List Tree) (marks : List Mark),
      Tree.allOf (Kind.isExpressibleWith config.externalMedia) trees →
      FitAround marks (Tree.allOf Kind.isCodeless trees) →
      ∀ e ∈ inlines config marks trees, e.Yields FitsInline FitsBetween
  | [], _, _, _ => nofun
  | tree :: rest, marks, htrees, hmarks => by
    obtain ⟨htree, hrest⟩ := Tree.allOf_cons.mp htrees
    intro e he
    rw [inlines] at he
    rcases List.mem_append.mp he with he | he
    · exact yields_inline hhandler tree marks htree (hmarks.imp fun h => (Tree.allOf_cons.mp h).1) e he
    · exact yields_inlines hhandler rest marks hrest (hmarks.imp fun h => (Tree.allOf_cons.mp h).2) e he

end

/-! ## Blocks -/

/-- The types of the nodes that a block becomes. -/
def typesOf : Kind → List NodeType
  | .paragraph => [.paragraph, .mediaSingle]
  | .heading _ => [.heading, .mediaSingle]
  | .blockQuote => [.blockquote]
  | .list ordered _ => [if ordered then .orderedList else .bulletList]
  | .item | .taskItem _ => [.listItem]
  | .codeBlock _ _ _ => [.codeBlock]
  | .thematicBreak => [.rule]
  | .table => [.table]
  | .tableRow _ => [.tableRow]
  | .tableCell => [.tableCell, .tableHeader]
  | .document | .htmlBlock _ | .text _ | .softBreak | .lineBreak | .code _ | .htmlInline _ | .emph | .strong
  | .strikethrough | .superscript | .link _ _ | .image _ _ | .extension _ => []

theorem block_ne_nil (config : Config) {tree : Tree} (h : typesOf tree.kind ≠ []) (inHeader : Bool)
    (box : Option Bool) : block config flow inHeader box tree ≠ [] := by
  obtain ⟨kind, span, children⟩ := tree
  unfold block
  cases kind with
  | paragraph | heading => exact flow_ne_nil _ _
  | blockQuote | list | item | taskItem | codeBlock | thematicBreak | table | tableRow | tableCell =>
    exact List.cons_ne_nil _ _
  | _ => exact absurd rfl h

theorem blocks_ne_nil (config : Config) (inHeader : Bool) {trees : List Tree} {tree : Tree}
    (htree : tree ∈ trees) (h : typesOf tree.kind ≠ []) : blocks config flow inHeader trees ≠ [] := by
  induction trees with
  | nil => contradiction
  | cons first rest ih =>
    intro hnil
    rw [blocks, List.append_eq_nil_iff] at hnil
    rcases List.mem_cons.mp htree with rfl | hrest
    · exact block_ne_nil config h inHeader none hnil.1
    · exact ih hrest hnil.2

theorem taskBlocks_ne_nil (config : Config) (checked : Bool) {trees : List Tree} {tree : Tree}
    (htree : tree ∈ trees) (h : typesOf tree.kind ≠ []) : taskBlocks config flow checked trees ≠ [] := by
  induction trees with
  | nil => contradiction
  | cons first rest ih =>
    intro hnil
    rw [taskBlocks] at hnil
    split at hnil
    · rename_i hfirst
      rw [List.append_eq_nil_iff] at hnil
      exact block_ne_nil config (by rw [hfirst]; exact List.cons_ne_nil _ _) false (some checked) hnil.1
    · rw [List.append_eq_nil_iff] at hnil
      rcases List.mem_cons.mp htree with rfl | hrest
      · exact block_ne_nil config h false none hnil.1
      · exact ih hrest hnil.2

theorem yields_boxContent (box : Option Bool) : ∀ e ∈ boxContent box, e.Yields FitsInline FitsBetween := by
  intro e he
  obtain ⟨checked, -, rfl⟩ := List.mem_map.mp he
  cases checked <;> exact ⟨rfl, rfl⟩

/-- Inline content becomes text blocks and media. -/
theorem made_flow {c : Container} (hc : c.wellFormed)
    (hadmits : ∀ content : List Node, c.admits content = content.all (·.type.isInline)) {es : List Emission}
    (hes : ∀ e ∈ es, e.Yields FitsInline FitsBetween) :
    ∀ node ∈ flow c es, (node.type = c.type ∨ node.type = .mediaSingle) ∧ node.wellFormed := by
  refine forall_mem_flow (p := FitsInline) ?_ ?_
  · intro e he
    cases e with
    | run s marks => exact hes _ he
    | single node => exact hes _ he
    | block node =>
      obtain ⟨htype, hwell⟩ := hes _ he
      exact ⟨Or.inr htype, hwell⟩
  · intro content hcontent
    refine ⟨Or.inl rfl, Node.wellFormed_container.mpr ⟨hc, ?_, fun node hnode => (hcontent node hnode).2⟩⟩
    rw [hadmits]
    exact List.all_eq_true.mpr fun node hnode => (hcontent node hnode).1

theorem all_of_ne_nil {p : Node → Bool} {content : List Node} (hne : content ≠ [])
    (hall : ∀ node ∈ content, p node) : !content.isEmpty && content.all p := by
  rw [Bool.and_eq_true]
  exact ⟨by simpa using hne, List.all_eq_true.mpr hall⟩

/-! ## Types of blocks -/

theorem typesOf_ne_nil_of_not_html {kind : Kind} (h : kind.isPlainBlock) (hhtml : !kind.isHtmlBlock) :
    typesOf kind ≠ [] := by
  cases kind with
  | paragraph | list | codeBlock => exact List.cons_ne_nil _ _
  | _ => contradiction

theorem isPlainBlock_of_mem_typesOf {kind : Kind} (h : kind.isPlainBlock) :
    ∀ type ∈ typesOf kind, type.isPlainBlock := by
  refine List.all_eq_true.mp ?_
  cases kind with
  | paragraph | codeBlock | htmlBlock => rfl
  | list ordered => cases ordered <;> rfl
  | _ => contradiction

theorem isTopBlock_of_isPlainBlock {type : NodeType} (h : type.isPlainBlock) : type.isTopBlock := by
  cases type with
  | paragraph | bulletList | orderedList | codeBlock | mediaSingle => rfl
  | _ => contradiction

theorem isTopBlock_of_mem_typesOf {kind : Kind} (h : kind.isTopBlock) :
    ∀ type ∈ typesOf kind, type.isTopBlock := by
  by_cases hplain : kind.isPlainBlock
  · exact fun type htype => isTopBlock_of_isPlainBlock (isPlainBlock_of_mem_typesOf hplain type htype)
  · cases kind with
    | heading | blockQuote | thematicBreak | table => exact List.all_eq_true.mp rfl
    | _ => exact absurd h hplain

theorem typesOf_of_isItem {kind : Kind} (h : kind.isItem) : typesOf kind = [.listItem] := by
  cases kind with
  | item | taskItem => rfl
  | _ => contradiction

theorem typesOf_of_isRow {kind : Kind} (h : kind.isRow) : typesOf kind = [.tableRow] := by
  cases kind with
  | tableRow => rfl
  | _ => contradiction

/-! ## Blocks of an expressible tree -/

/-- Whatever a tree becomes has a type that its kind says, and is well formed. -/
def Makes (config : Config) (tree : Tree) : Prop :=
  ∀ inHeader box, ∀ node ∈ block config flow inHeader box tree,
    node.type ∈ typesOf tree.kind ∧ node.wellFormed

/-- A container that wants at least one child is well formed around what its trees become. -/
theorem wellFormed_around {config : Config} {c : Container} {p : NodeType → Bool} {trees : List Tree}
    {content : List Node} (hc : c.wellFormed)
    (hadmits : c.admits content = (!content.isEmpty && content.all fun node => p node.type))
    (htrees : ∀ tree ∈ trees, Makes config tree) (htypes : ∀ tree ∈ trees, ∀ type ∈ typesOf tree.kind, p type)
    (hne : content ≠ [])
    (hmem : ∀ node ∈ content, ∃ tree ∈ trees, ∃ inHeader box, node ∈ block config flow inHeader box tree) :
    (Node.container c content).wellFormed := by
  have hcontent : ∀ node ∈ content, p node.type ∧ node.wellFormed := by
    intro node hnode
    obtain ⟨tree, htree, inHeader, box, hnode⟩ := hmem node hnode
    obtain ⟨htype, hwell⟩ := htrees tree htree inHeader box node hnode
    exact ⟨htypes tree htree _ htype, hwell⟩
  refine Node.wellFormed_container.mpr ⟨hc, ?_, fun node hnode => (hcontent node hnode).2⟩
  rw [hadmits]
  exact all_of_ne_nil hne fun node hnode => (hcontent node hnode).1

/-- A container is well formed around trees that become the same types of nodes. -/
theorem wellFormed_around_same {config : Config} {c : Container} {p : NodeType → Bool} {trees : List Tree}
    {inHeader : Bool} {type : NodeType} {types : List NodeType} (hp : (type :: types).all p)
    (hc : c.wellFormed)
    (hadmits : c.admits (blocks config flow inHeader trees) =
      (!(blocks config flow inHeader trees).isEmpty &&
        (blocks config flow inHeader trees).all fun node => p node.type))
    (htrees : ∀ tree ∈ trees, Makes config tree) (htypes : ∀ tree ∈ trees, typesOf tree.kind = type :: types)
    (hsome : !trees.isEmpty) :
    (Node.container c (blocks config flow inHeader trees)).wellFormed := by
  refine wellFormed_around hc hadmits htrees ?_ ?_ fun node => mem_blocks
  · intro tree htree
    rw [htypes tree htree]
    exact List.all_eq_true.mp hp
  · obtain ⟨tree, htree⟩ := List.exists_mem_of_ne_nil trees (by simpa using hsome)
    refine blocks_ne_nil config inHeader htree ?_
    rw [htypes tree htree]
    exact List.cons_ne_nil _ _

/-- A quote or an item has plain blocks in it, and one of them is shown. -/
theorem plain_and_shown {children : List Tree}
    (h : children.all (·.kind.isPlainBlock) && children.any (!·.kind.isHtmlBlock)) :
    (∀ tree ∈ children, tree.kind.isPlainBlock) ∧ ∃ tree ∈ children, typesOf tree.kind ≠ [] := by
  obtain ⟨hplain, hsome⟩ := Bool.and_eq_true_iff.mp h
  have hplain := List.all_eq_true.mp hplain
  obtain ⟨child, hchild, hhtml⟩ := List.any_eq_true.mp hsome
  exact ⟨hplain, child, hchild, typesOf_ne_nil_of_not_html (hplain child hchild) hhtml⟩

mutual

theorem makes_tree {config : Config} (hhandler : config.imageHandler = none) : ∀ tree : Tree,
    tree.all (Kind.isExpressibleWith config.externalMedia) →
    Makes config tree
  | .node kind span children, htree => by
    obtain ⟨hnode, hall⟩ := Tree.all_node.mp htree
    have hmade := makes_trees hhandler children hall
    have hinlines : ∀ e ∈ inlines config [] children, e.Yields FitsInline FitsBetween :=
      yields_inlines hhandler children [] hall (fitAround_nil _)
    intro inHeader box node hmem
    unfold block at hmem
    cases kind with
    | paragraph =>
      have htext : ∀ e ∈ boxContent box ++ inlines config [] children, e.Yields FitsInline FitsBetween :=
        List.forall_mem_append.mpr ⟨yields_boxContent box, hinlines⟩
      obtain ⟨htype, hwell⟩ := made_flow rfl (fun _ => rfl) htext node hmem
      exact ⟨List.mem_cons.mpr (htype.imp_right List.mem_singleton.mpr), hwell⟩
    | heading level =>
      obtain ⟨-, hlevel⟩ := Bool.and_eq_true_iff.mp hnode
      obtain ⟨htype, hwell⟩ := made_flow (c := .heading level) hlevel (fun _ => rfl) hinlines node hmem
      exact ⟨List.mem_cons.mpr (htype.imp_right List.mem_singleton.mpr), hwell⟩
    | tableCell =>
      obtain rfl := List.mem_singleton.mp hmem
      have hflow := made_flow (c := .paragraph) rfl (fun _ => rfl) hinlines
      have hcell : ∀ node ∈ flow .paragraph (inlines config [] children), node.type.isCellBlock := by
        intro node hnode
        rcases (hflow node hnode).1 with htype | htype <;> rw [htype] <;> rfl
      have hadmits := all_of_ne_nil (flow_ne_nil .paragraph (inlines config [] children)) hcell
      cases inHeader with
      | true =>
        exact ⟨List.mem_cons_of_mem _ List.mem_cons_self,
          Node.wellFormed_container.mpr ⟨rfl, hadmits, fun node hnode => (hflow node hnode).2⟩⟩
      | false =>
        exact ⟨List.mem_cons_self,
          Node.wellFormed_container.mpr ⟨rfl, hadmits, fun node hnode => (hflow node hnode).2⟩⟩
    | blockQuote | item =>
      obtain rfl := List.mem_singleton.mp hmem
      obtain ⟨hplain, child, hchild, hshown⟩ := plain_and_shown hnode
      refine ⟨List.mem_cons_self, wellFormed_around rfl rfl hmade ?_ ?_ fun node => mem_blocks⟩
      · exact fun tree htree => isPlainBlock_of_mem_typesOf (hplain tree htree)
      · exact blocks_ne_nil config false hchild hshown
    | taskItem checked =>
      obtain rfl := List.mem_singleton.mp hmem
      obtain ⟨hplain, child, hchild, hshown⟩ := plain_and_shown hnode
      refine ⟨List.mem_cons_self, wellFormed_around rfl rfl hmade ?_ ?_ fun node => mem_taskBlocks⟩
      · exact fun tree htree => isPlainBlock_of_mem_typesOf (hplain tree htree)
      · exact taskBlocks_ne_nil config checked hchild hshown
    | list ordered start =>
      obtain rfl := List.mem_singleton.mp hmem
      obtain ⟨hitems, hstart⟩ := Bool.and_eq_true_iff.mp hnode
      obtain ⟨hitems, hsome⟩ := Bool.and_eq_true_iff.mp hitems
      have htypes : ∀ tree ∈ children, typesOf tree.kind = [.listItem] :=
        fun tree htree => typesOf_of_isItem (List.all_eq_true.mp hitems tree htree)
      have hp : [NodeType.listItem].all (· = .listItem) := rfl
      cases ordered with
      | true => exact ⟨List.mem_cons_self, wellFormed_around_same hp hstart rfl hmade htypes hsome⟩
      | false => exact ⟨List.mem_cons_self, wellFormed_around_same hp rfl rfl hmade htypes hsome⟩
    | table =>
      obtain rfl := List.mem_singleton.mp hmem
      obtain ⟨hrows, hsome⟩ := Bool.and_eq_true_iff.mp hnode
      have htypes : ∀ tree ∈ children, typesOf tree.kind = [.tableRow] :=
        fun tree htree => typesOf_of_isRow (List.all_eq_true.mp hrows tree htree)
      have hp : [NodeType.tableRow].all (· = .tableRow) := rfl
      exact ⟨List.mem_cons_self, wellFormed_around_same hp rfl rfl hmade htypes hsome⟩
    | tableRow header =>
      obtain rfl := List.mem_singleton.mp hmem
      obtain ⟨hcells, hsome⟩ := Bool.and_eq_true_iff.mp hnode
      have htypes : ∀ tree ∈ children, typesOf tree.kind = [.tableCell, .tableHeader] := by
        intro tree htree
        rw [of_decide_eq_true (List.all_eq_true.mp hcells tree htree)]
        rfl
      have hp : [NodeType.tableCell, .tableHeader].all fun type => type = .tableCell || type = .tableHeader :=
        rfl
      exact ⟨List.mem_cons_self, wellFormed_around_same hp rfl rfl hmade htypes hsome⟩
    | codeBlock fenced info literal =>
      obtain rfl := List.mem_singleton.mp hmem
      refine ⟨List.mem_cons_self, Node.wellFormed_container.mpr ⟨rfl, ?_⟩⟩
      by_cases hliteral : literal.isEmpty
      · rw [if_pos hliteral]
        exact ⟨rfl, nofun⟩
      · rw [if_neg hliteral]
        exact ⟨rfl, List.forall_mem_singleton.mpr (fitsInline_text hliteral rfl).2⟩
    | thematicBreak =>
      obtain rfl := List.mem_singleton.mp hmem
      exact ⟨List.mem_cons_self, rfl⟩
    | _ => contradiction

theorem makes_trees {config : Config} (hhandler : config.imageHandler = none) : ∀ trees : List Tree,
    Tree.allOf (Kind.isExpressibleWith config.externalMedia) trees →
    ∀ tree ∈ trees, Makes config tree
  | [], _ => nofun
  | tree :: rest, htrees => by
    obtain ⟨htree, hrest⟩ := Tree.allOf_cons.mp htrees
    exact List.forall_mem_cons.mpr ⟨makes_tree hhandler tree htree, makes_trees hhandler rest hrest⟩

end

/-! ## Documents -/

/-- **What is rendered is valid.** Without an image handler every expressible tree becomes a document, and
the checks find nothing in what is written of it. -/
theorem validate_render {config : Config} (hhandler : config.imageHandler = none) {tree : Tree}
    (h : tree.expressible config.externalMedia) :
    ∃ d, render config tree = .ok d ∧ Schema.validate d.toValue = [] := by
  have hstructured := Tree.blockStructured_of_expressible h
  obtain ⟨kind, span, children⟩ := tree
  obtain ⟨hroot, htree⟩ := Bool.and_eq_true_iff.mp h
  obtain rfl : kind = .document := of_decide_eq_true hroot
  obtain ⟨htop, hall⟩ := Tree.all_node.mp htree
  refine ⟨_, render_eq_blocks (flows_flow config) rfl hstructured, ?_⟩
  refine (Schema.documentIssues_toValue _ .root).mpr fun node hnode => ?_
  obtain ⟨child, hchild, inHeader, box, hnode⟩ := mem_blocks hnode
  obtain ⟨htype, hwell⟩ := makes_trees hhandler children hall child hchild inHeader box node hnode
  exact ⟨isTopBlock_of_mem_typesOf (List.all_eq_true.mp htop child hchild) _ htype, hwell⟩

/-- Code in a link, an image with no description in a heading, a check box behind HTML, and a table. -/
theorem validate_render_of_every_block :
    ∃ d, render {}
        (.of .document
          [.of (.heading 2) [.of (.text "a") [], .of (.image "i" "t") []],
            .of .thematicBreak [],
            .of .blockQuote
              [.of .paragraph [.of (.link "u" "") [.of (.code "b") [], .of .emph [.of (.text "c") []]]]],
            .of (.list true 0)
              [.of (.taskItem true) [.of (.htmlBlock "<p>") [], .of .paragraph [.of (.text "d") []]],
                .of .item [.of (.codeBlock true "lean" "") []]],
            .of .table
              [.of (.tableRow true) [.of .tableCell [.of .strong [.of (.text "e") []]]],
                .of (.tableRow false) [.of .tableCell []]]]) = .ok d ∧
      Schema.validate d.toValue = [] ∧
      d.content =
        [.container (.heading 2) [.text "a" [], .text "i" [.linkTo "i" "t"]],
          .rule,
          .container .blockquote
            [.container .paragraph [.text "b" [.linkTo "u" "", .code], .text "c" [.linkTo "u" "", .em]]],
          .container (.orderedList 0)
            [.container .listItem [.container .paragraph [.text "[x] " [], .text "d" []]],
              .container .listItem [.container (.codeBlock (some "lean")) []]],
          .container (.table false .default)
            [.container .tableRow [.container .tableHeader [.container .paragraph [.text "e" [.strong]]]],
              .container .tableRow [.container .tableCell [.container .paragraph []]]]] := by
  refine (validate_render rfl (by decide)).imp fun d ⟨hrender, hvalid⟩ => ⟨hrender, hvalid, ?_⟩
  rw [render_eq_blocks (flows_flow _) rfl (by decide)] at hrender
  obtain rfl := Except.ok.inj hrender
  decide

end Adf.Convert
