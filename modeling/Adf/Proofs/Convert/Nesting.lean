import Adf.Proofs.Convert.Validity
import Adf.Proofs.Node.Nesting

/-!
# Documents of arranged trees are well nested

Not every tree becomes a valid document, but the document of an arranged tree always keeps inlines, blocks
and parts apart. Inlines yield inline nodes, or media where these are wanted; a cut at a block leaves only
text blocks and media behind; and the types of the nodes of a block are given by its kind alone.
-/

namespace Adf.Convert

open Markdown

/-! ## Inlines -/

def NestsInline (node : Node) : Prop := node.type.isInline ∧ node.wellNested

def NestsBetween (node : Node) : Prop := node.type = .mediaSingle ∧ node.wellNested

theorem nestsInline_text (s : String) (marks : List Mark) : NestsInline (.text s marks) := ⟨rfl, rfl⟩

theorem nests_textContent (s : String) (marks : List Mark) :
    ∀ e ∈ textContent s marks, e.Yields NestsInline NestsBetween := by
  intro e he
  unfold textContent at he
  split at he
  · contradiction
  · obtain rfl := List.mem_singleton.mp he
    exact fun s _ => nestsInline_text s marks

theorem nests_boxContent (box : Option Bool) :
    ∀ e ∈ boxContent box, e.Yields NestsInline NestsBetween := by
  intro e he
  obtain ⟨checked, -, rfl⟩ := List.mem_map.mp he
  exact nestsInline_text _ _

theorem nests_imageEmission {config : Config} (hhandler : config.imageHandler = none)
    (destination title alt : String) :
    (imageEmission config destination title alt).Yields NestsInline NestsBetween := by
  unfold imageEmission
  rw [hhandler]
  by_cases hmedia : config.externalMedia
  · simp only [if_pos hmedia]
    obtain ⟨htype, hwell⟩ := fitsBetween_media config.imageLayout destination title alt
    exact ⟨htype, Node.wellNested_of_wellFormed _ hwell⟩
  · simp only [if_neg hmedia]
    exact nestsInline_text _ _

mutual

/-- Whatever stands where an inline should, what it adds may stand in inline content or cut it. -/
theorem nests_inline {config : Config} (hhandler : config.imageHandler = none) :
    ∀ (tree : Tree) (marks : List Mark), ∀ e ∈ inline config marks tree, e.Yields NestsInline NestsBetween
  | .node kind span children, marks, e, he => by
    unfold inline at he
    cases kind with
    | text | softBreak | code => exact nests_textContent _ _ e he
    | lineBreak =>
      obtain rfl := List.mem_singleton.mp he
      exact ⟨rfl, rfl⟩
    | emph | strong | strikethrough | superscript | extension =>
      exact nests_inlines hhandler children _ e he
    | link url title =>
      dsimp only at he
      cases hlabel : Tree.autolink? url title span children with
      | some label =>
        rw [hlabel] at he
        obtain rfl := List.mem_singleton.mp he
        exact nestsInline_text _ _
      | none =>
        rw [hlabel] at he
        exact nests_inlines hhandler children _ e he
    | image url title =>
      obtain rfl := List.mem_singleton.mp he
      exact nests_imageEmission hhandler url title _
    | _ => contradiction

theorem nests_inlines {config : Config} (hhandler : config.imageHandler = none) :
    ∀ (trees : List Tree) (marks : List Mark),
      ∀ e ∈ inlines config marks trees, e.Yields NestsInline NestsBetween
  | [], _, _, he => absurd he List.not_mem_nil
  | tree :: rest, marks, e, he => by
    rw [inlines] at he
    rcases List.mem_append.mp he with htree | hrest
    · exact nests_inline hhandler tree marks e htree
    · exact nests_inlines hhandler rest marks e hrest

end

/-- Inline content of a text block becomes such blocks and media. -/
theorem nests_flow {c : Container}
    (hc : ∀ content : List Node, c.mayContain content = content.all (·.type.isInline)) {es : List Emission}
    (hes : ∀ e ∈ es, e.Yields NestsInline NestsBetween) :
    ∀ node ∈ flow c es, (node.type = c.type ∨ node.type = .mediaSingle) ∧ node.wellNested := by
  refine forall_mem_flow (p := NestsInline) ?_ ?_
  · intro e he
    have hyields := hes e he
    cases e with
    | run s marks => exact hyields
    | single node => exact hyields
    | block node => exact ⟨Or.inr hyields.1, hyields.2⟩
  · intro content hcontent
    refine ⟨Or.inl rfl, Node.wellNested_container.mpr ⟨?_, fun node hnode => (hcontent node hnode).2⟩⟩
    rw [hc]
    exact List.all_eq_true.mpr fun node hnode => (hcontent node hnode).1

/-! ## The types of blocks -/

theorem type_mem_typesOf {config : Config} (hhandler : config.imageHandler = none) (inHeader : Bool)
    (box : Option Bool) (tree : Tree) :
    ∀ node ∈ block config flow inHeader box tree, node.type ∈ typesOf tree.kind := by
  obtain ⟨kind, span, children⟩ := tree
  have hinlines := nests_inlines hhandler children []
  intro node hnode
  unfold block at hnode
  cases kind with
  | paragraph =>
    have hcontent := List.forall_mem_append.mpr ⟨nests_boxContent box, hinlines⟩
    rcases (nests_flow (fun _ => rfl) hcontent node hnode).1 with htype | htype
    · exact htype ▸ List.mem_cons_self
    · exact htype ▸ List.mem_cons_of_mem _ List.mem_cons_self
  | heading level =>
    rcases (nests_flow (c := .heading level) (fun _ => rfl) hinlines node hnode).1 with htype | htype
    · exact htype ▸ List.mem_cons_self
    · exact htype ▸ List.mem_cons_of_mem _ List.mem_cons_self
  | tableCell =>
    obtain rfl := List.mem_singleton.mp hnode
    cases inHeader with
    | true => exact List.mem_cons_of_mem _ List.mem_cons_self
    | false => exact List.mem_cons_self
  | list ordered start =>
    obtain rfl := List.mem_singleton.mp hnode
    cases ordered <;> exact List.mem_cons_self
  | blockQuote | item | taskItem | codeBlock | thematicBreak | table | tableRow =>
    obtain rfl := List.mem_singleton.mp hnode
    exact List.mem_cons_self
  | _ => contradiction

theorem isTopBlock_of_mem_typesOf_of_not_isPart {kind : Kind} (h : !kind.isPart) :
    ∀ type ∈ typesOf kind, type.isTopBlock := by
  refine List.all_eq_true.mp ?_
  cases kind with
  | item | taskItem | tableRow | tableCell => contradiction
  | list ordered => cases ordered <;> rfl
  | _ => rfl

theorem typesOf_of_mayHold_list {ordered : Bool} {start : UInt64} {kind : Kind}
    (h : (Kind.list ordered start).mayHold kind) : typesOf kind = [.listItem] := by
  cases kind with
  | item | taskItem => rfl
  | _ => contradiction

theorem typesOf_of_mayHold_table {kind : Kind} (h : Kind.table.mayHold kind) :
    typesOf kind = [.tableRow] := by
  cases kind with
  | tableRow => rfl
  | _ => contradiction

theorem typesOf_of_mayHold_row {header : Bool} {kind : Kind} (h : (Kind.tableRow header).mayHold kind) :
    typesOf kind = [.tableCell, .tableHeader] := by
  obtain rfl : kind = .tableCell := of_decide_eq_true h
  rfl

/-! ## Blocks -/

/-- The nodes come from blocks of the given trees. -/
def MadeFrom (config : Config) (trees : List Tree) (nodes : List Node) : Prop :=
  ∀ node ∈ nodes, ∃ tree ∈ trees, ∃ inHeader box, node ∈ block config flow inHeader box tree

/-- A container is well nested around well-nested trees of the right kinds. -/
theorem wellNested_around {config : Config} (hhandler : config.imageHandler = none) {c : Container}
    {p : NodeType → Bool} {trees : List Tree} {content : List Node} (hmade : MadeFrom config trees content)
    (hc : c.mayContain content = content.all fun node => p node.type)
    (htypes : ∀ tree ∈ trees, ∀ type ∈ typesOf tree.kind, p type)
    (hnested : ∀ tree ∈ trees, ∀ inHeader box, ∀ node ∈ block config flow inHeader box tree,
      node.wellNested) :
    (Node.container c content).wellNested := by
  refine Node.wellNested_container.mpr ⟨?_, ?_⟩
  · rw [hc]
    refine List.all_eq_true.mpr fun node hnode => ?_
    obtain ⟨tree, htree, inHeader, box, hblock⟩ := hmade node hnode
    exact htypes tree htree _ (type_mem_typesOf hhandler inHeader box tree node hblock)
  · intro node hnode
    obtain ⟨tree, htree, inHeader, box, hblock⟩ := hmade node hnode
    exact hnested tree htree inHeader box node hblock

mutual

theorem wellNested_block {config : Config} (hhandler : config.imageHandler = none) :
    ∀ tree : Tree, tree.arranged → ∀ inHeader box, ∀ node ∈ block config flow inHeader box tree,
      node.wellNested
  | .node kind span children, htree, inHeader, box, node, hnode => by
    obtain ⟨harranges, hall⟩ := Tree.all_node.mp htree
    have hnested := wellNested_blocks hhandler children hall
    have hinlines := nests_inlines hhandler children []
    have hholds := Kind.mayHold_of_arranges harranges
    have hwholes : kind.holdsWholes → ∀ child ∈ children, ∀ type ∈ typesOf child.kind, type.isTopBlock :=
      fun hkind child hchild =>
        isTopBlock_of_mem_typesOf_of_not_isPart (Kind.not_isPart_of_arranges hkind harranges child hchild)
    have hblocks (header : Bool) : MadeFrom config children (blocks config flow header children) :=
      fun _ => mem_blocks
    unfold block at hnode
    cases kind with
    | paragraph =>
      have hcontent := List.forall_mem_append.mpr ⟨nests_boxContent box, hinlines⟩
      exact (nests_flow (fun _ => rfl) hcontent node hnode).2
    | heading level => exact (nests_flow (c := .heading level) (fun _ => rfl) hinlines node hnode).2
    | tableCell =>
      obtain rfl := List.mem_singleton.mp hnode
      have hflow := nests_flow (c := .paragraph) (fun _ => rfl) hinlines
      have htop : (flow .paragraph (inlines config [] children)).all (·.type.isTopBlock) := by
        refine List.all_eq_true.mpr fun node hnode => ?_
        rcases (hflow node hnode).1 with htype | htype
        · rw [htype]
          rfl
        · rw [htype]
          rfl
      cases inHeader with
      | true => exact Node.wellNested_container.mpr ⟨htop, fun node hnode => (hflow node hnode).2⟩
      | false => exact Node.wellNested_container.mpr ⟨htop, fun node hnode => (hflow node hnode).2⟩
    | blockQuote | item =>
      obtain rfl := List.mem_singleton.mp hnode
      exact wellNested_around hhandler (hblocks false) rfl (hwholes rfl) hnested
    | taskItem checked =>
      obtain rfl := List.mem_singleton.mp hnode
      exact wellNested_around hhandler (fun _ => mem_taskBlocks) rfl (hwholes rfl) hnested
    | list ordered start =>
      obtain rfl := List.mem_singleton.mp hnode
      have hp : ∀ child ∈ children, ∀ type ∈ typesOf child.kind, decide (type = .listItem) := by
        intro child hchild type htype
        rw [typesOf_of_mayHold_list (hholds child hchild)] at htype
        exact decide_eq_true (List.mem_singleton.mp htype)
      cases ordered with
      | true => exact wellNested_around hhandler (hblocks false) rfl hp hnested
      | false => exact wellNested_around hhandler (hblocks false) rfl hp hnested
    | table =>
      obtain rfl := List.mem_singleton.mp hnode
      have hp : ∀ child ∈ children, ∀ type ∈ typesOf child.kind, decide (type = .tableRow) := by
        intro child hchild type htype
        rw [typesOf_of_mayHold_table (hholds child hchild)] at htype
        exact decide_eq_true (List.mem_singleton.mp htype)
      exact wellNested_around hhandler (hblocks false) rfl hp hnested
    | tableRow header =>
      obtain rfl := List.mem_singleton.mp hnode
      have hp : ∀ child ∈ children, ∀ type ∈ typesOf child.kind, type = .tableCell || type = .tableHeader := by
        intro child hchild type htype
        rw [typesOf_of_mayHold_row (hholds child hchild)] at htype
        simpa using htype
      exact wellNested_around hhandler (hblocks header) rfl hp hnested
    | codeBlock fenced info literal =>
      obtain rfl := List.mem_singleton.mp hnode
      by_cases hliteral : literal.isEmpty
      · rw [if_pos hliteral]
        rfl
      · rw [if_neg hliteral]
        rfl
    | thematicBreak =>
      obtain rfl := List.mem_singleton.mp hnode
      rfl
    | _ => contradiction

theorem wellNested_blocks {config : Config} (hhandler : config.imageHandler = none) :
    ∀ trees : List Tree, Tree.allOf Kind.arranges trees →
      ∀ tree ∈ trees, ∀ inHeader box, ∀ node ∈ block config flow inHeader box tree, node.wellNested
  | [], _ => nofun
  | tree :: rest, htrees => by
    obtain ⟨htree, hrest⟩ := Tree.allOf_cons.mp htrees
    exact List.forall_mem_cons.mpr
      ⟨wellNested_block hhandler tree htree, wellNested_blocks hhandler rest hrest⟩

end

/-! ## Documents -/

theorem blockStructured_of_arranged {tree : Tree} (h : tree.arranged) : tree.blockStructured :=
  Tree.all_mono (fun _ _ harranges => (Bool.and_eq_true_iff.mp harranges).1) tree h

/-- **What is rendered is well nested.** Without an image handler every arranged tree becomes a document in
which no block stands among inlines and no part out of its place, at any depth. A block-structured tree may
also hold an item outside a list, a row outside a table or a cell outside a row. Such a tree is rendered block
by block like any other (`render_of_no_externalMedia`), but is left out here: a part that is out of its place
in the tree is out of its place in the document. -/
theorem wellNested_render {config : Config} (hhandler : config.imageHandler = none) {tree : Tree}
    (hroot : tree.kind = .document) (h : tree.arranged) :
    ∃ d, render config tree = .ok d ∧ d.wellNested := by
  have hstructured := blockStructured_of_arranged h
  obtain ⟨kind, span, children⟩ := tree
  obtain rfl : kind = .document := hroot
  obtain ⟨harranges, hall⟩ := Tree.all_node.mp h
  refine ⟨_, render_eq_blocks (flows_flow config) rfl hstructured, ?_⟩
  refine List.all_eq_true.mpr fun node hnode => ?_
  obtain ⟨child, hchild, inHeader, box, hblock⟩ := mem_blocks hnode
  have htype := type_mem_typesOf hhandler inHeader box child node hblock
  have hpart := Kind.not_isPart_of_arranges rfl harranges child hchild
  exact Bool.and_eq_true_iff.mpr ⟨isTopBlock_of_mem_typesOf_of_not_isPart hpart _ htype,
    wellNested_blocks hhandler children hall child hchild inHeader box node hblock⟩

/-- Headings in items and quotes, a table in a quote, containers with nothing in them, and images at any
depth of formatting in a heading and a cell. -/
theorem wellNested_render_of_nested_blocks :
    ∃ d, render { externalMedia := true }
        (.of .document
          [.of .blockQuote
            [.of (.heading 7) [.of .emph [.of (.link "u" "") [.of (.image "i" "t") []], .of (.text "a") []]],
              .of .table
                [.of (.tableRow true)
                  [.of .tableCell [.of .strong [.of (.code "b") [], .of (.image "j" "") []]]],
                  .of (.tableRow false) []]],
            .of (.list true 0)
              [.of (.taskItem true) [.of .thematicBreak [], .of .paragraph []],
                .of .item [.of (.heading 0) [.of .lineBreak []], .of (.extension .descriptionList) []]],
            .of (.list false 0) [],
            .of (.codeBlock true "" "") []]) = .ok d ∧
      d.wellNested ∧
      d.content =
        [.container .blockquote
            [.container (.mediaSingle .center) [.externalMedia "i" "", .caption "t"],
              .container (.heading 7) [.text "a" [.em]],
              .container (.table false .default)
                [.container .tableRow
                    [.container .tableHeader
                      [.container .paragraph [.text "b" [.strong, .code]],
                        .container (.mediaSingle .center) [.externalMedia "j" ""]]],
                  .container .tableRow []]],
          .container (.orderedList 0)
            [.container .listItem [.rule, .container .paragraph [.text "[x] " []]],
              .container .listItem [.container (.heading 0) [.hardBreak]]],
          .container .bulletList [],
          .container (.codeBlock none) []] := by
  refine (wellNested_render rfl rfl (by decide)).imp fun d ⟨hrender, hnested⟩ => ⟨hrender, hnested, ?_⟩
  rw [render_eq_blocks (flows_flow _) rfl (by decide)] at hrender
  obtain rfl := Except.ok.inj hrender
  decide

end Adf.Convert
