import Adf.Proofs.Convert.Validity

/-!
# Texts with nothing in them

A text is written with the member that holds it, unless it is empty. `mem_texts_feed` says where an empty
text of an assembly comes from: it was there before the step, or it is in a node that the step adds as it is,
for texts that grow are never empty. `mem_texts_feedAll` says the same of all steps of a run. Of all nodes of
a tree only an image brings such a text with it, and only if it has nothing to show (`texts_render`).
-/

namespace Adf

/-! ## The texts of a node -/

mutual

/-- The texts in a node with their marks, in the order of the document. -/
def Node.texts : Node → List (String × List Mark)
  | .leaf (.text s marks) => [(s, marks)]
  | .leaf _ => []
  | .container _ content => Node.listTexts content

def Node.listTexts : List Node → List (String × List Mark)
  | [] => []
  | node :: rest => node.texts ++ Node.listTexts rest

end

def Document.texts (d : Document) : List (String × List Mark) := Node.listTexts d.content

@[simp] theorem Node.texts_text (s : String) (marks : List Mark) : (Node.text s marks).texts = [(s, marks)] := by
  rw [Node.text, Node.texts]

@[simp] theorem Node.listTexts_append (xs ys : List Node) :
    Node.listTexts (xs ++ ys) = Node.listTexts xs ++ Node.listTexts ys := by
  induction xs with
  | nil => rw [List.nil_append, Node.listTexts, List.nil_append]
  | cons x xs ih => rw [List.cons_append, Node.listTexts, Node.listTexts, ih, List.append_assoc]

@[simp] theorem Node.listTexts_singleton (node : Node) : Node.listTexts [node] = node.texts := by
  rw [Node.listTexts, Node.listTexts, List.append_nil]

/-- A text that is not empty is written with what it holds. -/
theorem Node.get?_text_toJson {s : String} (hs : s ≠ "") (marks : List Mark) :
    (Node.text s marks).toJson.get? "text" = some (.str s) := by
  have hjson : (Node.text s marks).toJson =
      .obj (("type", .str "text") :: Json.member "attrs" (.obj []) ++
        (Json.member "marks" (.arr (marks.map Mark.toJson)) ++ Json.member "text" (.str s))) := rfl
  have hpresent : (Json.str s).present? = some (.str s) :=
    if_neg fun hempty => hs (String.isEmpty_iff.mp hempty)
  rw [hjson, Json.get?, List.lookup_append, List.lookup_append, Json.lookup_member, Json.lookup_member,
    hpresent]
  rfl

namespace Convert

open Markdown (Element Event Kind Span Tree)

/-- The texts in what an emission adds as a whole. -/
def Emission.texts : Emission → List (String × List Mark)
  | .run _ _ => []
  | .single node | .block node => node.texts

theorem listTexts_remains (c : Container) (elide : Bool) (content : List Node) :
    Node.listTexts (remains c elide content) = Node.listTexts content := by
  unfold remains
  split
  · rename_i h
    obtain ⟨-, hempty⟩ := Bool.and_eq_true_iff.mp h
    rw [List.isEmpty_iff.mp hempty]
  · rw [Node.listTexts_singleton, Node.texts]

/-- Only the text that grows is another one, and it is not empty. -/
theorem mem_listTexts_extendLast {s : String} (hs : s ≠ "") {marks : List Mark} {nodes nodes' : List Node}
    (h : Assembly.extendLast? s marks nodes = some nodes') {t : String × List Mark}
    (ht : t ∈ Node.listTexts nodes') : t.1 ≠ "" ∨ t ∈ Node.listTexts nodes := by
  -- the cases are those of the search: no node, a text at the end, or a node with others behind it
  induction nodes generalizing nodes' with
  | nil => contradiction
  | cons node rest ih =>
    unfold Assembly.extendLast? at h
    split at h
    · contradiction
    · split at h
      · obtain rfl := Option.some.inj h
        rw [Node.listTexts_singleton, Node.texts_text] at ht
        obtain rfl := List.mem_singleton.mp ht
        exact Or.inl fun hempty => hs (String.append_eq_empty_iff.mp hempty).2
      · contradiction
    · rename_i node' rest' _ heq
      obtain ⟨rfl, rfl⟩ := List.cons.inj heq
      obtain ⟨rest'', hrest, rfl⟩ := Option.map_eq_some_iff.mp h
      rw [Node.listTexts] at ht ⊢
      rcases List.mem_append.mp ht with hfirst | hlater
      · exact Or.inr (List.mem_append_left _ hfirst)
      · exact (ih hrest hlater).imp_right (List.mem_append_right _)

namespace Assembly

/-! ## The texts of an assembly -/

/-- The texts in the document and in the open scopes. -/
def texts (a : Assembly) : List (String × List Mark) :=
  a.document.texts ++ a.scopes.flatMap fun s => Node.listTexts s.content

variable {t : String × List Mark}

theorem mem_texts_append {nodes : List Node} {a : Assembly} :
    t ∈ (a.append nodes).texts ↔ t ∈ a.texts ∨ t ∈ Node.listTexts nodes := by
  obtain ⟨document, scopes, marks, textRun, finished⟩ := a
  cases scopes with
  | nil => simp [append, texts, Document.texts]
  -- the nodes come to stand before the texts of the outer scopes, so only membership is kept
  | cons s rest => simp [append, texts, or_comm, or_left_comm]

theorem mem_texts_pushScope {s : Scope} {run : Bool} {a : Assembly} :
    t ∈ (a.pushScope s run).texts ↔ t ∈ a.texts ∨ t ∈ Node.listTexts s.content := by
  simp [pushScope, texts, or_comm, or_left_comm]

theorem mem_texts_addText {s : String} {a : Assembly} (h : t ∈ (a.addText s).texts) :
    t.1 ≠ "" ∨ t ∈ a.texts := by
  by_cases hs : s = ""
  · subst hs
    exact Or.inr h
  · obtain ⟨hempty, -⟩ | ⟨b, scope, content, rfl, hcontent, heq⟩ | heq := addText_cases s a
    · exact absurd (String.isEmpty_iff.mp hempty) hs
    · rw [heq, mem_texts_pushScope] at h
      rw [mem_texts_pushScope]
      rcases h with hb | hnew
      · exact Or.inr (Or.inl hb)
      · exact (mem_listTexts_extendLast hs hcontent hnew).imp_right Or.inr
    · have hnew : t ∈ (a.append [.text s a.marks]).texts := by
        rw [heq] at h
        exact h
      rw [mem_texts_append, Node.listTexts_singleton, Node.texts_text] at hnew
      rcases hnew with ha | hnew
      · exact Or.inr ha
      · obtain rfl := List.mem_singleton.mp hnew
        exact Or.inl hs

theorem mem_texts_closeScope {a : Assembly} (h : t ∈ a.closeScope.texts) : t ∈ a.texts := by
  obtain ⟨-, heq⟩ | ⟨b, s, run, rfl, heq⟩ := closeScope_cases a
  · rw [heq, mem_texts_append, Node.listTexts] at h
    simpa using h
  · rw [heq, mem_texts_append, listTexts_remains] at h
    exact mem_texts_pushScope.mpr h

theorem mem_texts_closeScopes (n : Nat) {a : Assembly} (h : t ∈ (a.closeScopes n).texts) : t ∈ a.texts := by
  induction n generalizing a with
  | zero => exact h
  | succ n ih => exact mem_texts_closeScope (ih h)

theorem mem_texts_closeAll {a : Assembly} (h : t ∈ a.closeAll.texts) : t ∈ a.texts := by
  rw [closeAll_eq] at h
  exact mem_texts_closeScopes _ h

theorem mem_texts_splice {block : Node} {a : Assembly} (h : t ∈ (a.splice block).texts) :
    t ∈ a.texts ∨ t ∈ block.texts := by
  obtain heq | ⟨b, s, run, rfl, -, heq⟩ := splice_cases block a
  · rw [heq, mem_texts_append, Node.listTexts_singleton] at h
    exact h
  · rw [heq, mem_texts_pushScope, mem_texts_append, Node.listTexts_append, listTexts_remains,
      Node.listTexts_singleton, Node.listTexts] at h
    rw [mem_texts_pushScope]
    simpa [or_assoc] using h

/-! ## What a step adds -/

theorem mem_texts_emit {e : Emission} {a : Assembly} (h : t ∈ (a.emit e).texts) :
    t.1 ≠ "" ∨ t ∈ a.texts ∨ t ∈ e.texts := by
  cases e with
  | run s marks => exact (mem_texts_addText h).imp_right Or.inl
  | single node =>
    rw [emit, add_eq_append, mem_texts_append, Node.listTexts_singleton] at h
    exact Or.inr h
  | block node => exact Or.inr (mem_texts_splice h)

theorem mem_texts_emitAll {es : List Emission} {a : Assembly} (h : t ∈ (a.emitAll es).texts) :
    t.1 ≠ "" ∨ t ∈ a.texts ∨ ∃ e ∈ es, t ∈ e.texts := by
  induction es generalizing a with
  | nil => exact Or.inr (Or.inl h)
  | cons e es ih =>
    rcases ih h with hfull | hbefore | ⟨e', he', ht⟩
    · exact Or.inl hfull
    · exact (mem_texts_emit hbefore).imp_right (Or.imp_right fun ht => ⟨e, List.mem_cons_self, ht⟩)
    · exact Or.inr (Or.inr ⟨e', List.mem_cons_of_mem _ he', ht⟩)

theorem texts_openScopes (cs : List Container) (a : Assembly) :
    (cs.foldl (fun a c => a.openScope c) a).texts = a.texts := by
  induction cs generalizing a with
  | nil => rfl
  | cons c cs ih => exact (ih (a.openScope c)).trans (by simp [openScope, texts, Node.listTexts])

theorem texts_finish (a : Assembly) : a.finish.texts = [] := by
  simp [finish, texts, scopes_closeAll, Document.texts, Document.empty, Node.listTexts]

/-- **A step.** An empty text was there before, or it is in what the step adds as a whole. -/
theorem mem_texts_feed {config : Config} {event : Event} {a : Assembly} (h : t ∈ (feed config a event).texts) :
    t.1 ≠ "" ∨ t ∈ a.texts ∨ ∃ e ∈ emissions config a.marks event, t ∈ e.texts := by
  -- entering a document begins with nothing, and leaving one puts everything away
  cases event with
  | enter e =>
    by_cases he : e = .document
    · subst he
      contradiction
    · rw [feed, enter_eq config a he, texts_openScopes] at h
      exact mem_texts_emitAll h
  | exit e =>
    by_cases he : e = .document
    · subst he
      rw [feed, exit, texts_finish] at h
      contradiction
    · rw [feed, exit_eq config a he] at h
      exact Or.inr (Or.inl (mem_texts_closeScopes _ h))

/-- **A run.** An empty text was there at the beginning, or it is in what one of the steps adds. -/
theorem mem_texts_feedAll {config : Config} {events : List Event} {a : Assembly}
    (h : t ∈ (feedAll config events a).texts) :
    t.1 ≠ "" ∨ t ∈ a.texts ∨ ∃ event ∈ events, ∃ marks, ∃ e ∈ emissions config marks event, t ∈ e.texts := by
  induction events generalizing a with
  | nil => exact Or.inr (Or.inl h)
  | cons event events ih =>
    rcases ih h with hfull | hbefore | ⟨later, hmem, hadded⟩
    · exact Or.inl hfull
    · refine (mem_texts_feed hbefore).imp_right (Or.imp_right fun ht => ?_)
      exact ⟨event, List.mem_cons_self, a.marks, ht⟩
    · exact Or.inr (Or.inr ⟨later, List.mem_cons_of_mem _ hmem, hadded⟩)

end Assembly

/-! ## What an element brings with it -/

section

variable {config : Config} {t : String × List Mark}

theorem not_mem_texts_textContent {s : String} {marks : List Mark} {e : Emission}
    (h : e ∈ textContent s marks) : t ∉ e.texts := by
  unfold textContent at h
  split at h
  · contradiction
  · obtain rfl := List.mem_singleton.mp h
    exact List.not_mem_nil

theorem mem_texts_codeBlock {fenced : Bool} {language : Option String} {lines : List String}
    (h : t ∈ (Assembly.codeBlock fenced language lines).texts) : t.1 ≠ "" := by
  rw [Assembly.codeBlock, Node.texts] at h
  split at h
  · contradiction
  · rename_i hs
    rw [Node.listTexts_singleton, Node.texts_text] at h
    obtain rfl := List.mem_singleton.mp h
    exact fun hempty => hs (String.isEmpty_iff.mpr hempty)

theorem mem_texts_imageEmission (hhandler : config.imageHandler = none) {destination title alt : String}
    (h : t ∈ (imageEmission config destination title alt).texts) :
    t.1 ≠ "" ∨ config.externalMedia = false ∧ destination = "" ∧ alt = "" ∧ t = ("", [.linkTo "" title]) := by
  simp only [imageEmission, hhandler] at h
  cases hmedia : config.externalMedia with
  | true =>
    simp only [hmedia, if_true, Emission.texts, Node.texts, Node.listTexts, Node.externalMedia,
      List.nil_append] at h
    split at h
    · contradiction
    · rename_i htitle
      rw [Node.listTexts_singleton, Node.caption, Node.texts, Node.listTexts_singleton,
        Node.texts_text] at h
      obtain rfl := List.mem_singleton.mp h
      exact Or.inl fun hempty => htitle (String.isEmpty_iff.mpr hempty)
  | false =>
    simp only [hmedia, Bool.false_eq_true, if_false, Emission.texts, Node.texts_text] at h
    obtain rfl := List.mem_singleton.mp h
    -- an image shows its address only where it has no description
    by_cases halt : alt = ""
    · by_cases hdestination : destination = ""
      · exact Or.inr ⟨rfl, hdestination, halt, by simp [halt, hdestination]⟩
      · exact Or.inl (by simpa [halt] using hdestination)
    · exact Or.inl (by simp [halt])

/-- The texts that an element brings with it and that may be empty: the label of a link to itself, and what
stands for an image. -/
theorem mem_texts_emissions (hhandler : config.imageHandler = none) {marks : List Mark} {event : Event}
    {e : Emission} (he : e ∈ emissions config marks event) (h : t ∈ e.texts) :
    t.1 ≠ "" ∨ (∃ url label, event = .enter (.autoLink url label) ∧ t.1 = label) ∨
      ∃ title, event = .enter (.image "" title "") ∧ config.externalMedia = false ∧
        t = ("", [.linkTo "" title]) := by
  cases event with
  | exit element => contradiction
  | enter element =>
    cases element with
    | text segment hard =>
      rcases List.mem_append.mp he with htext | hbreak
      · exact absurd h (not_mem_texts_textContent htext)
      · cases hard with
        | false => contradiction
        | true =>
          obtain rfl := List.mem_singleton.mp hbreak
          contradiction
    | literal value => exact absurd h (not_mem_texts_textContent he)
    | autoLink url label =>
      obtain rfl := List.mem_singleton.mp he
      obtain rfl := List.mem_singleton.mp h
      exact Or.inr (Or.inl ⟨url, label, rfl, rfl⟩)
    | image destination title alt =>
      obtain rfl := List.mem_singleton.mp he
      rcases mem_texts_imageEmission hhandler h with hfull | ⟨hmedia, rfl, rfl, ht⟩
      · exact Or.inl hfull
      · exact Or.inr (Or.inr ⟨title, rfl, hmedia, ht⟩)
    | taskCheckBox checked =>
      obtain rfl := List.mem_singleton.mp he
      obtain rfl := List.mem_singleton.mp h
      exact Or.inl (by cases checked <;> decide)
    | thematicBreak =>
      obtain rfl := List.mem_singleton.mp he
      contradiction
    | codeBlock fenced language lines =>
      obtain rfl := List.mem_singleton.mp he
      have hblock : t ∈ (Assembly.codeBlock fenced language lines).texts := h
      exact Or.inl (mem_texts_codeBlock hblock)
    | _ => contradiction

theorem not_isEmpty_of_describe {inHeader : Bool} {span : Span} {children : List Tree} {kind : Kind}
    {url label : String} (h : Tree.describe inHeader span children kind = some (.autoLink url label)) :
    ¬label.isEmpty := by
  cases kind with
  | link destination title =>
    rw [Tree.describe] at h
    split at h
    · rename_i found hfound
      obtain ⟨-, rfl⟩ := Element.autoLink.inj (Option.some.inj h)
      exact not_isEmpty_of_autolink? hfound
    · simp at h
  | tableRow header => cases header <;> simp [Tree.describe] at h
  | _ => simp [Tree.describe] at h

theorem image_of_describe {inHeader : Bool} {span : Span} {children : List Tree} {kind : Kind}
    {destination title alt : String}
    (h : Tree.describe inHeader span children kind = some (.image destination title alt)) :
    kind = .image destination title ∧ Tree.plainTexts children = alt := by
  cases kind with
  | image url title' =>
    obtain ⟨rfl, rfl, halt⟩ := Element.image.inj (Option.some.inj h)
    exact ⟨rfl, halt⟩
  | link url title' =>
    rw [Tree.describe] at h
    split at h <;> simp at h
  | tableRow header => cases header <;> simp [Tree.describe] at h
  | _ => simp [Tree.describe] at h

/-- The node is an image with the given title, and it has no address and no description. -/
def IsBlankImage (title : String) (node : Tree) : Prop :=
  node.kind = .image "" title ∧ Tree.plainTexts node.children = ""

/-- What the steps of a walk bring with them: of all nodes of the tree only an image that has nothing to show
brings an empty text. -/
theorem mem_texts_emissions_of_mem_events (hhandler : config.imageHandler = none) {tree : Tree}
    {event : Event} (hevent : event ∈ tree.events Assembly.status) {marks : List Mark} {e : Emission}
    (he : e ∈ emissions config marks event) (h : t ∈ e.texts) :
    t.1 ≠ "" ∨ config.externalMedia = false ∧
      ∃ node ∈ tree.nodes, ∃ title, IsBlankImage title node ∧ t = ("", [.linkTo "" title]) := by
  rcases mem_texts_emissions hhandler he h with hfull | ⟨url, label, rfl, hlabel⟩ | ⟨title, rfl, hmedia, ht⟩
  · exact Or.inl hfull
  · cases Tree.entered_of_mem_events _ hevent with
    | described mem hdescribe =>
      have hne := not_isEmpty_of_describe hdescribe
      exact Or.inl fun hempty => hne (String.isEmpty_iff.mpr (hlabel.symm.trans hempty))
  · cases Tree.entered_of_mem_events _ hevent with
    | @described node _ _ mem hdescribe =>
      exact Or.inr ⟨hmedia, node, mem, title, image_of_describe hdescribe, ht⟩

end

/-! ## Rendering -/

/-- **No text is empty** in a rendered document, and so each is written with what it holds, except for what
stands for an image that has no address and no description, where there are no external media. -/
theorem texts_render {config : Config} (hhandler : config.imageHandler = none) {tree : Tree}
    (hroot : tree.kind = .document) :
    ∃ d, render config tree = .ok d ∧ ∀ s marks, (s, marks) ∈ d.texts →
      s ≠ "" ∧ (Node.text s marks).toJson.get? "text" = some (.str s) ∨
        s = "" ∧ config.externalMedia = false ∧
          ∃ node ∈ tree.nodes, ∃ title, IsBlankImage title node ∧ marks = [.linkTo "" title] := by
  obtain ⟨kind, span, children⟩ := tree
  obtain rfl : kind = .document := hroot
  let body := Tree.childrenEvents Assembly.status false children
  have hevents : Tree.events Assembly.status (.node .document span children) =
      .enter .document :: body ++ [.exit .document] := rfl
  refine ⟨(Assembly.feedAll config body .start).closeAll.document, ?_, ?_⟩
  · rw [render, Assembly.assemble_eq_feedAll, hevents, Assembly.result_feedAll_document]
  · intro s marks hmem
    -- closing the scopes only moves texts, so those of the document were there when the body ended
    have hassembly : (s, marks) ∈ (Assembly.feedAll config body .start).texts :=
      Assembly.mem_texts_closeAll (List.mem_append_left _ hmem)
    have hfull (hs : s ≠ "") : s ≠ "" ∧ (Node.text s marks).toJson.get? "text" = some (.str s) :=
      ⟨hs, Node.get?_text_toJson hs marks⟩
    rcases Assembly.mem_texts_feedAll hassembly with hs | hstart | ⟨event, hevent, open', e, he, ht⟩
    · exact Or.inl (hfull hs)
    · contradiction
    · have hstep : event ∈ Tree.events Assembly.status (.node .document span children) := by
        rw [hevents]
        exact List.mem_append_left _ (List.mem_cons_of_mem _ hevent)
      rcases mem_texts_emissions_of_mem_events hhandler hstep he ht with hs | ⟨hmedia, hblank⟩
      · exact Or.inl (hfull hs)
      · obtain ⟨node, mem, title, himage, heq⟩ := hblank
        obtain ⟨rfl, rfl⟩ := Prod.mk.inj heq
        exact Or.inr ⟨rfl, hmedia, node, mem, title, himage, rfl⟩

/-- A paragraph with an image that has nothing to show. -/
def blankImage : Tree := .of .document [.of .paragraph [.of (.text "a") [], .of (.image "" "") []]]

theorem render_blankImage :
    render {} blankImage =
      .ok ⟨[.container .paragraph [.text "a" [], .text "" [.linkTo "" ""]]]⟩ := rfl

theorem texts_render_blankImage :
    ({} : Config).imageHandler = none ∧ blankImage.kind = .document ∧
      ∃ d, render {} blankImage = .ok d ∧ ∀ s marks, (s, marks) ∈ d.texts →
        s ≠ "" ∧ (Node.text s marks).toJson.get? "text" = some (.str s) ∨
          s = "" ∧ ({} : Config).externalMedia = false ∧
            ∃ node ∈ blankImage.nodes, ∃ title, IsBlankImage title node ∧ marks = [.linkTo "" title] :=
  ⟨rfl, rfl, texts_render rfl rfl⟩

/-- The text of the image is empty. -/
theorem not_forall_texts_nonempty :
    ¬∀ (config : Config) (tree : Tree), config.imageHandler = none → tree.kind = .document →
      ∀ d, render config tree = .ok d → ∀ s marks, (s, marks) ∈ d.texts → s ≠ "" := by
  intro h
  have hmem : ("", [.linkTo "" ""]) ∈
      Document.texts ⟨[.container .paragraph [.text "a" [], .text "" [.linkTo "" ""]]]⟩ :=
    List.mem_cons_of_mem _ List.mem_cons_self
  exact h {} blankImage rfl rfl _ render_blankImage "" _ hmem rfl

end Convert

end Adf
