import Adf.Proofs.Convert.Splicing
import Adf.Proofs.Markdown.Events
import Adf.Proofs.Markdown.Structure

/-!
# The translation of trees

A document is built by a machine with two stacks, but what comes out for a block-structured tree is given
by plain recursion: an inline is the content that it adds (`Tree.inline`), and a block is the nodes that its
children make (`Tree.block`). `render_eq_blocks` says that the machine and the recursion agree.
-/

namespace Adf.Convert

open Markdown

/-! ## Recursion over a tree -/

mutual

/-- The content of an inline where these marks are open around it. -/
def inline (config : Config) (marks : List Mark) : Tree → List Emission
  | .node kind span children =>
    match kind with
    | .text s => textContent s marks
    | .softBreak => textContent " " marks
    | .lineBreak => [.single .hardBreak]
    | .code literal => textContent literal (marks ++ [.code])
    | .emph => inlines config (marks ++ [.em]) children
    | .strong => inlines config (marks ++ [.strong]) children
    | .strikethrough => inlines config (marks ++ [.strike]) children
    | .superscript => inlines config (marks ++ [.subsup .sup]) children
    | .link url title =>
      match Tree.autolink? url title span children with
      | some label => [.single (.text label [.linkTo url ""])]
      | none => inlines config (marks ++ [.linkTo url title]) children
    | .image url title => [imageEmission config url title (Tree.plainTexts children)]
    | .extension _ => inlines config marks children
    | _ => []

def inlines (config : Config) (marks : List Mark) : List Tree → List Emission
  | [] => []
  | tree :: rest => inline config marks tree ++ inlines config marks rest

end

/-- The content of a check box that stands before a text. -/
def boxContent (box : Option Bool) : List Emission :=
  box.toList.map fun checked => .single (.text (boxText checked) [])

/-- How a container and its inline content become nodes. -/
abbrev Wrapping := Container → List Emission → List Node

mutual

/-- The nodes of a block. Its text blocks are made with `wrap`; `box` is a check box that a paragraph begins
with, and `inHeader` says that a cell stands in a header row. -/
def block (config : Config) (wrap : Wrapping) (inHeader : Bool) (box : Option Bool) : Tree → List Node
  | .node kind _ children =>
    match kind with
    | .paragraph => wrap .paragraph (boxContent box ++ inlines config [] children)
    | .heading level => wrap (.heading level) (inlines config [] children)
    | .blockQuote => [.container .blockquote (blocks config wrap false children)]
    | .list ordered start =>
      [.container (if ordered then .orderedList start else .bulletList) (blocks config wrap false children)]
    | .item => [.container .listItem (blocks config wrap false children)]
    | .taskItem checked => [.container .listItem (taskBlocks config wrap checked children)]
    | .codeBlock fenced info literal =>
      [.container (.codeBlock (if fenced then Text.firstWord? info else none))
        (if literal.isEmpty then [] else [.text literal []])]
    | .thematicBreak => [.rule]
    | .table => [.container (.table false config.tableLayout) (blocks config wrap false children)]
    | .tableRow header => [.container .tableRow (blocks config wrap header children)]
    | .tableCell =>
      [.container (if inHeader then .tableHeader else .tableCell)
        (wrap .paragraph (inlines config [] children))]
    | .document | .htmlBlock _ | .text _ | .softBreak | .lineBreak | .code _ | .htmlInline _ | .emph | .strong
    | .strikethrough | .superscript | .link _ _ | .image _ _ | .extension _ => []

def blocks (config : Config) (wrap : Wrapping) (inHeader : Bool) : List Tree → List Node
  | [] => []
  | tree :: rest => block config wrap inHeader none tree ++ blocks config wrap inHeader rest

/-- The nodes of the children of a task item; the first paragraph begins with the check box. -/
def taskBlocks (config : Config) (wrap : Wrapping) (checked : Bool) : List Tree → List Node
  | [] => []
  | tree :: rest =>
    if tree.kind = .paragraph then
      block config wrap false (some checked) tree ++ blocks config wrap false rest
    else block config wrap false none tree ++ taskBlocks config wrap checked rest

end

/-- The container with all of its content in it. -/
def whole (c : Container) (es : List Emission) : List Node := [.container c (joined es)]

/-- A node of blocks is one of a single block. -/
theorem mem_blocks {config : Config} {wrap : Wrapping} {inHeader : Bool} {trees : List Tree} {node : Node}
    (h : node ∈ blocks config wrap inHeader trees) :
    ∃ tree ∈ trees, ∃ inHeader box, node ∈ block config wrap inHeader box tree := by
  induction trees with
  | nil => contradiction
  | cons tree rest ih =>
    rw [blocks] at h
    rcases List.mem_append.mp h with h | h
    · exact ⟨tree, List.mem_cons_self, _, _, h⟩
    · obtain ⟨t, ht, hnode⟩ := ih h
      exact ⟨t, List.mem_cons_of_mem _ ht, hnode⟩

theorem mem_taskBlocks {config : Config} {wrap : Wrapping} {checked : Bool} {trees : List Tree} {node : Node}
    (h : node ∈ taskBlocks config wrap checked trees) :
    ∃ tree ∈ trees, ∃ inHeader box, node ∈ block config wrap inHeader box tree := by
  induction trees with
  | nil => contradiction
  | cons tree rest ih =>
    rw [taskBlocks] at h
    split at h
    · rcases List.mem_append.mp h with h | h
      · exact ⟨tree, List.mem_cons_self, _, _, h⟩
      · obtain ⟨t, ht, hnode⟩ := mem_blocks h
        exact ⟨t, List.mem_cons_of_mem _ ht, hnode⟩
    · rcases List.mem_append.mp h with h | h
      · exact ⟨tree, List.mem_cons_self, _, _, h⟩
      · obtain ⟨t, ht, hnode⟩ := ih h
        exact ⟨t, List.mem_cons_of_mem _ ht, hnode⟩

/-! ## Code blocks -/

theorem join_linesOf (current rest : List Char) :
    String.join (Text.linesOf current rest) = String.ofList (current.reverse ++ rest) := by
  fun_induction Text.linesOf current rest with
  | case1 current h => simp [List.isEmpty_iff.mp h]
  | case2 current h => simp
  | case3 current rest ih =>
    rw [String.join_cons, ih]
    simp [← String.ofList_append]
  | case4 current c rest hc ih =>
    rw [ih]
    simp

/-- The lines of a text are all of it. -/
theorem join_lines (s : String) : String.join (Text.lines s) = s := by
  rw [Text.lines, join_linesOf]
  simp

theorem nonempty?_firstWord {info word : String} (h : Text.firstWord? info = some word) :
    nonempty? word = some word := by
  unfold Text.firstWord? at h
  split at h
  · contradiction
  · rename_i hword
    obtain rfl := Option.some.inj h
    simpa [nonempty?] using hword

theorem codeBlock_eq (fenced : Bool) (info literal : String) :
    Assembly.codeBlock fenced (if fenced then Text.firstWord? info else none) (Text.lines literal) =
      .container (.codeBlock (if fenced then Text.firstWord? info else none))
        (if literal.isEmpty then [] else [.text literal []]) := by
  rw [Assembly.codeBlock, join_lines]
  cases fenced with
  | false => rfl
  | true =>
    cases h : Text.firstWord? info with
    | none => rfl
    | some word => simp [nonempty?_firstWord h]

/-! ## Inlines -/

theorem InlineBody.append {xs ys : List Event} (hx : InlineBody xs) (hy : InlineBody ys) :
    InlineBody (xs ++ ys) := by
  induction hx with
  | nil => exact hy
  | leaf hleaf _ ih => exact .leaf hleaf ih
  | span hmark hinside _ _ ih =>
    rw [List.append_assoc]
    exact .span hmark hinside ih

theorem InlineBody.leafEvents {e : Element} (h : isInlineLeaf e) : InlineBody (Tree.leafEvents e) :=
  .leaf h (.leaf h .nil)

theorem InlineBody.around {e : Element} (h : (markOf? e).isSome) {body : List Event}
    (hbody : InlineBody body) : InlineBody (around e body) :=
  .span h hbody .nil

theorem emitted_leafEvents (config : Config) (e : Element) (marks : List Mark) :
    emitted config marks (Tree.leafEvents e) = emissions config marks (.enter e) := by
  rw [Tree.leafEvents, emitted, emitted, emitted, emissions_exit, List.append_nil, List.append_nil]

theorem emitted_around (config : Config) {e : Element} {mark : Mark} (h : markOf? e = some mark)
    {body : List Event} (marks : List Mark) :
    emitted config marks (around e body) = emitted config (marks ++ [mark]) body := by
  have henter : emissions config marks (.enter e) = [] := by
    cases e <;> simp_all [markOf?, emissions]
  have hmarks : marksAfter marks (.enter e) = marks ++ [mark] := by simp [marksAfter, h]
  rw [Convert.around, List.cons_append, emitted, henter, hmarks, emitted_append, emitted, emitted,
    emissions_exit, List.nil_append, List.append_nil, List.append_nil]

theorem emitted_append_inline (config : Config) (marks : List Mark) {xs ys : List Event}
    (hx : InlineBody xs) :
    emitted config marks (xs ++ ys) = emitted config marks xs ++ emitted config marks ys := by
  rw [emitted_append, hx.foldl_marksAfter]

/-- The steps of a walk over inlines. -/
abbrev inlineEvents (trees : List Tree) : List Event :=
  Tree.childrenEvents Assembly.status false trees

/-- What the steps of an inline do: they are well nested, and emit the content of the inline. -/
def Reports (config : Config) (events : List Event) (content : List Mark → List Emission) : Prop :=
  InlineBody events ∧ ∀ marks, emitted config marks events = content marks

theorem Reports.congr {config : Config} {events : List Event} {f g : List Mark → List Emission}
    (h : Reports config events f) (hfg : ∀ marks, f marks = g marks) : Reports config events g :=
  ⟨h.1, fun marks => (h.2 marks).trans (hfg marks)⟩

theorem eq_nil_of_holds_nothing {kind : Kind} {children : List Tree}
    (h : ∀ child ∈ children, kind.mayHold child.kind) (hnone : ∀ child, kind.mayHold child = false) :
    children = [] := by
  cases children with
  | nil => rfl
  | cons child rest =>
    have hchild := h child List.mem_cons_self
    rw [hnone] at hchild
    contradiction

theorem isInline_of_extension_holds {e : Extension} (he : e.isBlock = false) {child : Kind}
    (h : (Kind.extension e).mayHold child) : child.isInline := by
  cases e <;> simp_all [Kind.mayHold, Extension.isBlock]

theorem Reports.leaf (config : Config) {e : Element} (h : isInlineLeaf e) :
    Reports config (Tree.leafEvents e) fun marks => emissions config marks (.enter e) :=
  ⟨.leafEvents h, emitted_leafEvents config e⟩

theorem Reports.around {config : Config} {e : Element} {mark : Mark} (h : markOf? e = some mark)
    {body : List Event} {content : List Mark → List Emission} (hbody : Reports config body content) :
    Reports config (around e body) fun marks => content (marks ++ [mark]) := by
  refine ⟨.around (by simp [h]) hbody.1, fun marks => ?_⟩
  rw [emitted_around config h, hbody.2]

theorem Reports.append {config : Config} {xs ys : List Event} {f g : List Mark → List Emission}
    (hx : Reports config xs f) (hy : Reports config ys g) :
    Reports config (xs ++ ys) fun marks => f marks ++ g marks := by
  refine ⟨hx.1.append hy.1, fun marks => ?_⟩
  rw [emitted_append_inline config marks hx.1, hx.2, hy.2]

mutual

theorem reports_inline (config : Config) : ∀ tree : Tree, tree.blockStructured → tree.kind.isInline →
    Reports config (Tree.eventsFrom Assembly.status false none tree) (inline config · tree)
  | .node kind span children, hs, hk => by
    obtain ⟨hchildren, hall⟩ := Tree.all_node.mp hs
    have hholds : ∀ child ∈ children, kind.mayHold child.kind := List.all_eq_true.mp hchildren
    cases kind with
    | text s =>
      obtain rfl : children = [] := eq_nil_of_holds_nothing hholds fun _ => rfl
      exact (Reports.leaf config (e := .text s false) rfl).congr fun marks => List.append_nil _
    | softBreak =>
      obtain rfl : children = [] := eq_nil_of_holds_nothing hholds fun _ => rfl
      exact .leaf config (e := .text " " false) rfl
    | lineBreak =>
      obtain rfl : children = [] := eq_nil_of_holds_nothing hholds fun _ => rfl
      exact .leaf config (e := .text "" true) rfl
    | htmlInline literal =>
      obtain rfl : children = [] := eq_nil_of_holds_nothing hholds fun _ => rfl
      exact .leaf config (e := .rawHtml) rfl
    | code literal =>
      exact .around (e := .codeSpan) rfl (.leaf config (e := .literal literal) rfl)
    | emph => exact .around (e := .emphasis 1) rfl (reports_inlines config children hall hholds)
    | strong => exact .around (e := .emphasis 2) rfl (reports_inlines config children hall hholds)
    | strikethrough => exact .around (e := .strikethrough) rfl (reports_inlines config children hall hholds)
    | superscript => exact .around (e := .superscript) rfl (reports_inlines config children hall hholds)
    | link url title =>
      unfold Tree.eventsFrom inline
      simp only [Tree.describe]
      cases Tree.autolink? url title span children with
      | some label => exact .leaf config (e := .autoLink url label) rfl
      | none => exact .around (e := .link url title) rfl (reports_inlines config children hall hholds)
    | image url title => exact .leaf config (e := .image url title (Tree.plainTexts children)) rfl
    | extension e =>
      have he : e.isBlock = false := by simpa [Tree.kind, Kind.isInline] using hk
      unfold Tree.eventsFrom inline
      simp only [Tree.describe, he]
      exact reports_inlines config children hall fun child hchild =>
        isInline_of_extension_holds he (hholds child hchild)
    | _ => simp [Tree.kind, Kind.isInline] at hk

theorem reports_inlines (config : Config) : ∀ trees : List Tree,
    Tree.allOf Kind.mayHoldAll trees →
    (∀ tree ∈ trees, tree.kind.isInline) →
    Reports config (inlineEvents trees) (inlines config · trees)
  | [], _, _ => ⟨.nil, fun _ => rfl⟩
  | tree :: rest, hs, hk => by
    obtain ⟨htree, hrest⟩ := Tree.allOf_cons.mp hs
    exact (reports_inline config tree htree (hk tree List.mem_cons_self)).append
      (reports_inlines config rest hrest fun t ht => hk t (List.mem_cons_of_mem _ ht))

end

theorem reports_box (config : Config) (box : Option Bool) :
    Reports config (Tree.boxEvents box) fun _ => boxContent box := by
  cases box with
  | none => exact ⟨.nil, fun _ => rfl⟩
  | some checked => exact .leaf config (e := .taskCheckBox checked) rfl

/-! ## Blocks -/

/-- The wrapping makes of the inline content of any text block what the machine makes of it. -/
def Flows (config : Config) (wrap : Wrapping) : Prop :=
  ∀ c box trees, wrap c (boxContent box ++ inlines config [] trees) =
    flow c (boxContent box ++ inlines config [] trees)

namespace Assembly

/-- The machine stands between two blocks. -/
structure BetweenBlocks (a : Assembly) : Prop where
  marks : a.marks = []
  textRun : a.textRun = false

theorem BetweenBlocks.openScope {a : Assembly} (h : a.BetweenBlocks) (c : Container) :
    (a.openScope c).BetweenBlocks :=
  ⟨h.marks, rfl⟩

theorem BetweenBlocks.append {a : Assembly} (h : a.BetweenBlocks) (nodes : List Node) :
    (a.append nodes).BetweenBlocks := by
  refine ⟨by rw [marks_append, h.marks], ?_⟩
  unfold Assembly.append
  split <;> rfl

theorem BetweenBlocks.append_nil {a : Assembly} (h : a.BetweenBlocks) : a.append [] = a := by
  rw [Assembly.append_nil, ← h.textRun]

/-- An element with a container of its own, around blocks. -/
theorem feedAll_around_blocks {config : Config} {e : Element} {c : Container}
    (henter : ∀ a : Assembly, a.enter config e = a.openScope c)
    (hexit : ∀ a : Assembly, a.exit e = a.closeScope) {body : List Event} {nodes : List Node}
    {a : Assembly} (hbody : feedAll config body (a.openScope c) = (a.openScope c).append nodes) :
    feedAll config (around e body) a = a.append [.container c nodes] := by
  have henter' : enter config a e = a.openScope c := henter a
  rw [feedAll_around, henter', hexit, hbody, openScope_eq_pushScope, append_pushScope,
    closeScope_pushScope]
  rfl

mutual

theorem feedAll_block {config : Config} {wrap : Wrapping} (hwrap : Flows config wrap) :
    ∀ (tree : Tree) (inHeader : Bool) (box : Option Bool), tree.blockStructured → tree.kind.isBlock →
      (tree.kind = .paragraph ∨ box = none) → ∀ {a : Assembly}, a.BetweenBlocks →
        feedAll config (Tree.eventsFrom status inHeader box tree) a =
          a.append (block config wrap inHeader box tree)
  | .node kind span children, inHeader, box, hs, hk, hbox, a, ha => by
    obtain ⟨hchildren, hall⟩ := Tree.all_node.mp hs
    have hholds : ∀ child ∈ children, kind.mayHold child.kind := List.all_eq_true.mp hchildren
    have hblocks : kind.holdsBlocks → ∀ child ∈ children, child.kind.isBlock :=
      fun hkind child hchild => Kind.isBlock_of_mayHold hkind (hholds child hchild)
    -- only a paragraph is walked with a check box to place
    have hnone : kind ≠ .paragraph → box = none := fun hkind => hbox.resolve_left hkind
    cases kind with
    | paragraph =>
      have hbody := (reports_box config box).append (reports_inlines config children hall hholds)
      have htext := feedAll_around_text config (e := .paragraph) (c := .paragraph) rfl (fun _ => rfl)
        (fun _ => rfl) hbody.1 a
      rw [hbody.2, ha.marks, ← hwrap] at htext
      exact htext
    | heading level =>
      obtain rfl := hnone nofun
      have hbody := reports_inlines config children hall hholds
      have htext := feedAll_around_text config (e := .heading level) (c := .heading level) rfl (fun _ => rfl)
        (fun _ => rfl) hbody.1 a
      rw [hbody.2, ha.marks] at htext
      exact htext.trans (congrArg (a.append ·) (hwrap _ none children).symm)
    | tableCell =>
      obtain rfl := hnone nofun
      have hbody := reports_inlines config children hall hholds
      have hcell := feedAll_around_cell config inHeader hbody.1 a
      have hflow : wrap .paragraph (inlines config [] children) = flow .paragraph (inlines config [] children) :=
        hwrap .paragraph none children
      rw [hbody.2, ha.marks, ← hflow] at hcell
      exact hcell
    | blockQuote | item | table =>
      obtain rfl := hnone nofun
      exact feedAll_around_blocks (fun _ => rfl) (fun _ => rfl)
        (feedAll_blocks hwrap children false hall (hblocks rfl) (ha.openScope _))
    | list ordered start =>
      obtain rfl := hnone nofun
      cases ordered with
      | true =>
        exact feedAll_around_blocks (fun _ => rfl) (fun _ => rfl)
          (feedAll_blocks hwrap children false hall (hblocks rfl) (ha.openScope _))
      | false =>
        exact feedAll_around_blocks (fun _ => rfl) (fun _ => rfl)
          (feedAll_blocks hwrap children false hall (hblocks rfl) (ha.openScope _))
    | tableRow header =>
      obtain rfl := hnone nofun
      cases header with
      | true =>
        exact feedAll_around_blocks (fun _ => rfl) (fun _ => rfl)
          (feedAll_blocks hwrap children true hall (hblocks rfl) (ha.openScope _))
      | false =>
        exact feedAll_around_blocks (fun _ => rfl) (fun _ => rfl)
          (feedAll_blocks hwrap children false hall (hblocks rfl) (ha.openScope _))
    | taskItem checked =>
      obtain rfl := hnone nofun
      exact feedAll_around_blocks (fun _ => rfl) (fun _ => rfl)
        (feedAll_taskBlocks hwrap checked children hall (hblocks rfl) (ha.openScope _))
    | codeBlock fenced info literal =>
      exact congrArg (fun node => a.append [node]) (codeBlock_eq fenced info literal)
    | thematicBreak =>
      obtain rfl := hnone nofun
      obtain rfl : children = [] := eq_nil_of_holds_nothing hholds fun _ => rfl
      rfl
    | htmlBlock literal => exact ha.append_nil.symm
    | extension e =>
      have hempty : Tree.eventsFrom status inHeader box (.node (.extension e) span children) = [] := by
        cases e with
        | frontMatter =>
          obtain rfl : children = [] := eq_nil_of_holds_nothing hholds fun _ => rfl
          rfl
        | descriptionList | descriptionItem | descriptionTerm | descriptionDetails | footnoteDefinition
        | multilineBlockQuote => rfl
        | _ => contradiction
      rw [hempty]
      exact ha.append_nil.symm
    | _ => contradiction

theorem feedAll_blocks {config : Config} {wrap : Wrapping} (hwrap : Flows config wrap) :
    ∀ (trees : List Tree) (inHeader : Bool),
      Tree.allOf Kind.mayHoldAll trees →
      (∀ tree ∈ trees, tree.kind.isBlock) → ∀ {a : Assembly}, a.BetweenBlocks →
        feedAll config (Tree.childrenEvents status inHeader trees) a =
          a.append (blocks config wrap inHeader trees)
  | [], _, _, _, a, ha => ha.append_nil.symm
  | tree :: rest, inHeader, hs, hk, a, ha => by
    obtain ⟨htree, hrest⟩ := Tree.allOf_cons.mp hs
    have hfirst := feedAll_block hwrap tree inHeader none htree (hk tree List.mem_cons_self)
      (Or.inr rfl) ha
    have hlater := feedAll_blocks hwrap rest inHeader hrest
      (fun t ht => hk t (List.mem_cons_of_mem _ ht)) (ha.append (block config wrap inHeader none tree))
    rw [Tree.childrenEvents, feedAll_append, hfirst, hlater, append_append, blocks]

theorem feedAll_taskBlocks {config : Config} {wrap : Wrapping} (hwrap : Flows config wrap)
    (checked : Bool) :
    ∀ trees : List Tree,
      Tree.allOf Kind.mayHoldAll trees →
      (∀ tree ∈ trees, tree.kind.isBlock) → ∀ {a : Assembly}, a.BetweenBlocks →
        feedAll config (Tree.itemEvents status checked trees) a =
          a.append (taskBlocks config wrap checked trees)
  | [], _, _, a, ha => ha.append_nil.symm
  | tree :: rest, hs, hk, a, ha => by
    obtain ⟨htree, hrest⟩ := Tree.allOf_cons.mp hs
    have hblocks : ∀ t ∈ rest, t.kind.isBlock := fun t ht => hk t (List.mem_cons_of_mem _ ht)
    by_cases hp : tree.kind = .paragraph
    · have hfirst := feedAll_block hwrap tree false (some checked) htree (hk tree List.mem_cons_self)
        (Or.inl hp) ha
      have hlater := feedAll_blocks hwrap rest false hrest hblocks
        (ha.append (block config wrap false (some checked) tree))
      rw [Tree.itemEvents, if_pos hp, feedAll_append, hfirst, hlater, append_append, taskBlocks, if_pos hp]
    · have hfirst := feedAll_block hwrap tree false none htree (hk tree List.mem_cons_self)
        (Or.inr rfl) ha
      have hlater := feedAll_taskBlocks hwrap checked rest hrest hblocks
        (ha.append (block config wrap false none tree))
      rw [Tree.itemEvents, if_neg hp, feedAll_append, hfirst, hlater, append_append, taskBlocks, if_neg hp]

end

/-! ## Documents -/

theorem assemble_eq_feedAll (config : Config) (tree : Tree) :
    assemble config tree = feedAll config (tree.events status) start := by
  have hvisitor : visitor config = Visitor.ofStep status (feed config) := rfl
  rw [assemble, hvisitor, Tree.walk_ofStep]
  rfl

end Assembly

/-- **The machine is a recursion.** A block-structured document becomes the nodes of its blocks, one after
the other. -/
theorem render_eq_blocks {config : Config} {wrap : Wrapping} (hwrap : Flows config wrap)
    {tree : Tree} (hroot : tree.kind = .document) (hs : tree.blockStructured) :
    render config tree = .ok ⟨blocks config wrap false tree.children⟩ := by
  obtain ⟨kind, span, children⟩ := tree
  obtain rfl : kind = .document := hroot
  obtain ⟨hchildren, hall⟩ := Tree.all_node.mp hs
  have hblocks : ∀ child ∈ children, child.kind.isBlock := List.all_eq_true.mp hchildren
  have hbody := Assembly.feedAll_blocks hwrap children false hall hblocks (a := Assembly.start) ⟨rfl, rfl⟩
  have hevents : Tree.events Assembly.status (.node .document span children) =
      .enter .document :: Tree.childrenEvents Assembly.status false children ++ [.exit .document] := rfl
  rw [render, Assembly.assemble_eq_feedAll, hevents, Assembly.result_feedAll_document, hbody]
  rfl

/-! ## Without external media -/

theorem cut_of_no_block {es : List Emission} (h : ∀ e ∈ es, ∀ node, e ≠ .block node) :
    cut es = (es, []) := by
  induction es with
  | nil => rfl
  | cons e es ih =>
    have hrest := ih fun e' he' => h e' (List.mem_cons_of_mem _ he')
    cases e with
    | run s marks => rw [cut, hrest]; simp
    | single node => rw [cut, hrest]; simp
    | block node => exact absurd rfl (h _ List.mem_cons_self node)

theorem textContent_ne_block {s : String} {marks : List Mark} {e : Emission}
    (he : e ∈ textContent s marks) (node : Node) : e ≠ .block node := by
  unfold textContent at he
  split at he
  · contradiction
  · obtain rfl := List.mem_singleton.mp he
    exact nofun

theorem imageEmission_ne_block {config : Config} (h : config.externalMedia = false)
    (destination title alt : String) (node : Node) :
    imageEmission config destination title alt ≠ .block node := by
  unfold imageEmission
  cases config.imageHandler with
  | some handler => exact nofun
  | none =>
    rw [h]
    exact nofun

mutual

theorem inline_ne_block {config : Config} (h : config.externalMedia = false) :
    ∀ (tree : Tree) (marks : List Mark), ∀ e ∈ inline config marks tree, ∀ node, e ≠ .block node
  | .node kind span children, marks, e, he, node => by
    unfold inline at he
    cases kind with
    | text | softBreak | code => exact textContent_ne_block he node
    | lineBreak =>
      obtain rfl := List.mem_singleton.mp he
      exact nofun
    | emph | strong | strikethrough | superscript | extension =>
      exact inlines_ne_block h children _ e he node
    | link url title =>
      dsimp only at he
      cases hlabel : Tree.autolink? url title span children with
      | some label =>
        rw [hlabel] at he
        obtain rfl := List.mem_singleton.mp he
        exact nofun
      | none =>
        rw [hlabel] at he
        exact inlines_ne_block h children _ e he node
    | image url title =>
      obtain rfl := List.mem_singleton.mp he
      exact imageEmission_ne_block h url title _ node
    | _ => contradiction

theorem inlines_ne_block {config : Config} (h : config.externalMedia = false) :
    ∀ (trees : List Tree) (marks : List Mark), ∀ e ∈ inlines config marks trees,
      ∀ node, e ≠ .block node
  | [], _, e, he, _ => absurd he List.not_mem_nil
  | tree :: rest, marks, e, he, node => by
    rw [inlines] at he
    rcases List.mem_append.mp he with htree | hrest
    · exact inline_ne_block h tree marks e htree node
    · exact inlines_ne_block h rest marks e hrest node

end

theorem flows_whole {config : Config} (h : config.externalMedia = false) : Flows config whole := by
  intro c box trees
  have hblocks : ∀ e ∈ boxContent box ++ inlines config [] trees, ∀ node, e ≠ .block node := by
    intro e he node
    rcases List.mem_append.mp he with hbox | htrees
    · obtain ⟨checked, -, rfl⟩ := List.mem_map.mp hbox
      exact nofun
    · exact inlines_ne_block h trees [] e htrees node
  rw [whole, flow, cut_of_no_block hblocks]

theorem flows_flow (config : Config) : Flows config flow := fun _ _ _ => rfl

/-- **Rendering is a translation.** Without external media, a block-structured document becomes one node for
each of its blocks, at any depth, and each text block holds the content of its inlines with texts of the
same marks joined. Blocks without a counterpart become nothing, and inlines without one give way to what is
in them. -/
theorem render_of_no_externalMedia {config : Config} (hmedia : config.externalMedia = false) {tree : Tree}
    (hroot : tree.kind = .document) (hs : tree.blockStructured) :
    render config tree = .ok ⟨blocks config whole false tree.children⟩ :=
  render_eq_blocks (flows_whole hmedia) hroot hs

/-- Texts of the same marks are joined, the footnote and the HTML are gone, and the check box stands in the
first paragraph of the item. -/
theorem render_of_tasks_and_table :
    render { tableLayout := .wide }
        (.of .document
          [.of .paragraph
            [.of (.text "a") [], .of .softBreak [],
              .of .strong [.of (.text "b") [], .of .emph [.of (.text "c") []], .of (.code "d") []],
              .of (.image "u" "") [.of (.text "e") []]],
            .of (.htmlBlock "<hr>") [],
            .of (.extension .footnoteDefinition) [.of .paragraph [.of (.text "f") []]],
            .of (.list true 3)
              [.of (.taskItem true)
                [.of (.codeBlock true " rust x" "fn\n") [],
                  .of .paragraph [.of (.extension .underline) [.of (.text "g") []]]]],
            .of .table
              [.of (.tableRow true) [.of .tableCell [.of (.text "h") []]],
                .of (.tableRow false) [.of .tableCell []]]]) =
      .ok ⟨[.container .paragraph
          [.text "a " [], .text "b" [.strong], .text "c" [.strong, .em], .text "d" [.strong, .code],
            .text "e" [.linkTo "u" ""]],
        .container (.orderedList 3)
          [.container .listItem
            [.container (.codeBlock (some "rust")) [.text "fn\n" []],
              .container .paragraph [.text "[x] " [], .text "g" []]]],
        .container (.table false .wide)
          [.container .tableRow [.container .tableHeader [.container .paragraph [.text "h" []]]],
            .container .tableRow [.container .tableCell [.container .paragraph []]]]]⟩ := by
  rw [render_of_no_externalMedia rfl rfl (by decide)]
  refine congrArg (fun content => Except.ok (Document.mk content)) ?_
  decide

end Adf.Convert
