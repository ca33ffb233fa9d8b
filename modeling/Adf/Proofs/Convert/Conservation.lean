import Adf.Proofs.Convert.Emission

/-!
# Conservation of content

A document is read from left to right as a list of tokens. `tokens_feedAll` says that an assembly, read in
the same way through all scopes that are open, always holds the tokens that the steps so far have emitted,
in the order of the steps, whatever these steps are. Nothing is lost, doubled or moved when texts grow,
scopes end or are dropped, or a block ends the inline content around it.
-/

namespace Adf

/-! ## Reading a document -/

/-- What a reader of a document meets: a character with its marks, or a node taken as a whole. -/
inductive Token where
  | char (c : Char) (marks : List Mark)
  | node (node : Node)
deriving DecidableEq

/-- Whether a reader goes into a container and reads its content. -/
def Container.isRead : Container → Bool
  | .paragraph | .heading _ | .blockquote | .bulletList | .orderedList _ | .listItem | .table _ _
  | .tableRow | .tableHeader | .tableCell => true
  | .codeBlock _ | .mediaSingle _ | .caption => false

def textTokens (s : String) (marks : List Mark) : List Token := s.toList.map (Token.char · marks)

mutual

def Node.tokens : Node → List Token
  | .leaf (.text s marks) => textTokens s marks
  | .leaf l => [.node (.leaf l)]
  | .container c content =>
    if c.isRead then Node.listTokens content else [.node (.container c content)]

def Node.listTokens : List Node → List Token
  | [] => []
  | node :: rest => node.tokens ++ Node.listTokens rest

end

def Document.tokens (d : Document) : List Token := Node.listTokens d.content

theorem textTokens_append (s t : String) (marks : List Mark) :
    textTokens (s ++ t) marks = textTokens s marks ++ textTokens t marks := by
  simp [textTokens]

@[simp] theorem Node.tokens_text (s : String) (marks : List Mark) :
    (Node.text s marks).tokens = textTokens s marks := by
  rw [Node.text, Node.tokens]

theorem Node.listTokens_append (xs ys : List Node) :
    Node.listTokens (xs ++ ys) = Node.listTokens xs ++ Node.listTokens ys := by
  induction xs with
  | nil => rw [List.nil_append, Node.listTokens, List.nil_append]
  | cons x xs ih => rw [List.cons_append, Node.listTokens, Node.listTokens, ih, List.append_assoc]

@[simp] theorem Node.listTokens_singleton (node : Node) : Node.listTokens [node] = node.tokens := by
  rw [Node.listTokens, Node.listTokens, List.append_nil]

namespace Convert

open Markdown (Element Event)

/-- What a reader meets of an emission. -/
def Emission.tokens : Emission → List Token
  | .run s marks => textTokens s marks
  | .single node | .block node => node.tokens

/-- A scope that ends keeps its content, for nothing but an empty scope is ever dropped. -/
theorem listTokens_remains {c : Container} (hc : c.isRead) (elide : Bool) (content : List Node) :
    Node.listTokens (remains c elide content) = Node.listTokens content := by
  unfold remains
  split
  · rename_i h
    obtain ⟨-, hempty⟩ := Bool.and_eq_true_iff.mp h
    rw [List.isEmpty_iff.mp hempty]
  · rw [Node.listTokens_singleton, Node.tokens, if_pos hc]

theorem listTokens_extendLast {s : String} {marks : List Mark} {nodes nodes' : List Node}
    (h : Assembly.extendLast? s marks nodes = some nodes') :
    Node.listTokens nodes' = Node.listTokens nodes ++ textTokens s marks := by
  induction nodes generalizing nodes' with
  | nil => simp [Assembly.extendLast?] at h
  | cons node rest ih =>
    unfold Assembly.extendLast? at h
    split at h
    · contradiction
    · rename_i before m heq
      obtain ⟨rfl, rfl⟩ := List.cons.inj heq
      split at h
      · rename_i hm
        obtain rfl := Option.some.inj h
        subst hm
        rw [Node.listTokens_singleton, Node.listTokens_singleton, Node.tokens_text, textTokens_append,
          Node.tokens]
      · contradiction
    · rename_i node' rest' _ heq
      obtain ⟨rfl, rfl⟩ := List.cons.inj heq
      obtain ⟨rest'', hrest, rfl⟩ := Option.map_eq_some_iff.mp h
      rw [Node.listTokens, Node.listTokens, ih hrest, List.append_assoc]

namespace Assembly

/-! ## Reading an assembly -/

/-- The content of the open scopes, from the outermost to the innermost. -/
def scopeTokens : List Scope → List Token
  | [] => []
  | s :: rest => scopeTokens rest ++ Node.listTokens s.content

/-- What has been put into an assembly so far: the document, and behind it the open scopes. -/
def tokens (a : Assembly) : List Token := a.document.tokens ++ scopeTokens a.scopes

/-- Every open scope is one that a reader goes into. -/
def Readable (a : Assembly) : Prop := ∀ c ∈ a.openContainers, c.isRead

theorem tokens_append (nodes : List Node) (a : Assembly) :
    (a.append nodes).tokens = a.tokens ++ Node.listTokens nodes := by
  obtain ⟨document, scopes, marks, textRun, finished⟩ := a
  cases scopes <;> simp [append, tokens, scopeTokens, Document.tokens, Node.listTokens_append]

theorem tokens_pushScope (s : Scope) (run : Bool) (a : Assembly) :
    (a.pushScope s run).tokens = a.tokens ++ Node.listTokens s.content := by
  simp [pushScope, tokens, scopeTokens]

theorem tokens_addText (s : String) (a : Assembly) :
    (a.addText s).tokens = a.tokens ++ textTokens s a.marks := by
  obtain ⟨hs, h⟩ | ⟨b, scope, content, rfl, hcontent, h⟩ | h := addText_cases s a
  · rw [h, String.isEmpty_iff.mp hs]
    simp [textTokens]
  · rw [h, tokens_pushScope, tokens_pushScope, listTokens_extendLast hcontent, List.append_assoc]
  · rw [h, ← Node.tokens_text, ← Node.listTokens_singleton]
    exact tokens_append [.text s a.marks] a

theorem tokens_closeScope {a : Assembly} (ha : a.Readable) : a.closeScope.tokens = a.tokens := by
  obtain ⟨-, h⟩ | ⟨b, s, run, rfl, h⟩ := closeScope_cases a
  · rw [h, tokens_append, Node.listTokens, List.append_nil]
  · have hs : s.container.isRead := ha _ (by simp)
    rw [h, tokens_append, tokens_pushScope, listTokens_remains hs]

theorem tokens_splice (block : Node) {a : Assembly} (ha : a.Readable) :
    (a.splice block).tokens = a.tokens ++ block.tokens := by
  obtain h | ⟨b, s, run, rfl, -, h⟩ := splice_cases block a
  · rw [h, tokens_append, Node.listTokens_singleton]
  · have hs : s.container.isRead := ha _ (by simp)
    rw [h, tokens_pushScope, tokens_append, tokens_pushScope, Node.listTokens_append,
      listTokens_remains hs, Node.listTokens_singleton, Node.listTokens, List.append_nil,
      List.append_assoc]

/-! ## What a step adds -/

theorem Readable.of_openContainers_eq {a b : Assembly} (ha : a.Readable)
    (h : b.openContainers = a.openContainers) : b.Readable := by
  unfold Readable
  rw [h]
  exact ha

theorem tokens_emit {a : Assembly} (ha : a.Readable) (e : Emission) :
    (a.emit e).tokens = a.tokens ++ e.tokens := by
  cases e with
  | run s marks => exact tokens_addText s (a.withMarks marks)
  | single node =>
    rw [emit, add_eq_append, tokens_append, Node.listTokens_singleton, Emission.tokens]
  | block node => exact tokens_splice node ha

theorem tokens_emitAll {a : Assembly} (ha : a.Readable) (es : List Emission) :
    (a.emitAll es).tokens = a.tokens ++ es.flatMap Emission.tokens := by
  induction es generalizing a with
  | nil => simp
  | cons e es ih =>
    have hstep : (a.emit e).Readable := ha.of_openContainers_eq (openContainers_emit a e)
    rw [emitAll_cons, ih hstep, tokens_emit ha, List.flatMap_cons, List.append_assoc]

theorem tokens_openScopes (cs : List Container) (a : Assembly) :
    (cs.foldl (fun a c => a.openScope c) a).tokens = a.tokens := by
  induction cs generalizing a with
  | nil => rfl
  | cons c cs ih =>
    rw [List.foldl_cons, ih, openScope_eq_pushScope, tokens_pushScope, Node.listTokens, List.append_nil]

theorem readable_closeScope {a : Assembly} (ha : a.Readable) : a.closeScope.Readable := by
  intro c hc
  rw [openContainers_closeScope] at hc
  exact ha c (List.mem_of_mem_tail hc)

theorem tokens_closeScopes (n : Nat) {a : Assembly} (ha : a.Readable) :
    (a.closeScopes n).tokens = a.tokens := by
  induction n generalizing a with
  | zero => rfl
  | succ n ih => rw [closeScopes, ih (readable_closeScope ha), tokens_closeScope ha]

/-- A step adds what it emits, behind everything else. -/
theorem tokens_feed (config : Config) {a : Assembly} (ha : a.Readable) {event : Event}
    (h : event.element ≠ .document) :
    (feed config a event).tokens =
      a.tokens ++ (emissions config a.marks event).flatMap Emission.tokens := by
  cases event with
  | enter e =>
    have he : e ≠ .document := h
    rw [feed, enter_eq config a he, tokens_openScopes]
    exact tokens_emitAll ha _
  | exit e =>
    have he : e ≠ .document := h
    rw [feed, exit_eq config a he, emissions_exit, List.flatMap_nil, List.append_nil]
    exact tokens_closeScopes _ ha

theorem isRead_of_mem_containers {config : Config} {e : Element} {c : Container}
    (h : c ∈ containers config e) : c.isRead := by
  cases e with
  | list ordered start => cases ordered <;> simp_all [containers, Container.isRead]
  | tableCell header => cases header <;> simp_all [containers] <;> rcases h with rfl | rfl <;> rfl
  | _ => simp_all [containers, Container.isRead]

theorem readable_feed (config : Config) {a : Assembly} (ha : a.Readable) {event : Event}
    (h : event.element ≠ .document) : (feed config a event).Readable := by
  intro c hc
  rw [openContainers_feed config a h] at hc
  cases event with
  | enter e =>
    rcases List.mem_append.mp hc with hc | hc
    · exact isRead_of_mem_containers (List.mem_reverse.mp hc)
    · exact ha c hc
  | exit e => exact ha c (List.mem_of_mem_drop hc)

/-! ## What a run adds -/

theorem readable_start : start.Readable := by simp [Readable, openContainers, start]

theorem tokens_readable_feedAll (config : Config) {events : List Event}
    (h : ∀ event ∈ events, event.element ≠ .document) {a : Assembly} (ha : a.Readable) :
    (feedAll config events a).Readable ∧
      (feedAll config events a).tokens =
        a.tokens ++ (emitted config a.marks events).flatMap Emission.tokens := by
  induction events generalizing a with
  | nil => exact ⟨ha, by simp [feedAll, emitted]⟩
  | cons event events ih =>
    have hevent := h event List.mem_cons_self
    obtain ⟨hread, htokens⟩ :=
      ih (fun e he => h e (List.mem_cons_of_mem _ he)) (readable_feed config ha hevent)
    refine ⟨hread, ?_⟩
    calc (feedAll config (event :: events) a).tokens
        = (feed config a event).tokens ++
            (emitted config (feed config a event).marks events).flatMap Emission.tokens := htokens
      _ = a.tokens ++ (emitted config a.marks (event :: events)).flatMap Emission.tokens := by
          rw [tokens_feed config ha hevent, marks_feed config a hevent, emitted, List.flatMap_append,
            List.append_assoc]

/-- **Nothing is lost, doubled or moved.** From entering a document to leaving it, whatever comes in
between and in whatever order, the document holds exactly what was emitted, in this order. A character has
the marks that were open when it came. -/
theorem tokens_result_eq_emitted (config : Config) (events : List Event)
    (h : ∀ event ∈ events, event.element ≠ .document) (a : Assembly) :
    ∃ d, (feedAll config (.enter .document :: events ++ [.exit .document]) a).result = .ok d ∧
      d.tokens = (emitted config [] events).flatMap Emission.tokens := by
  obtain ⟨hread, htokens⟩ := tokens_readable_feedAll config h readable_start
  refine ⟨_, result_feedAll_document config events a, ?_⟩
  calc (feedAll config events start).closeAll.document.tokens
      = (feedAll config events start).closeAll.tokens := by
        rw [tokens, scopes_closeAll, scopeTokens, List.append_nil]
    _ = (feedAll config events start).tokens := by
        rw [closeAll_eq, tokens_closeScopes _ hread]
    _ = (emitted config [] events).flatMap Emission.tokens := htokens

/-- A mark that is never closed, a scope that was never opened, and an image in between. -/
theorem tokens_of_unbalanced_steps :
    ∃ d, (feedAll { externalMedia := true }
        (.enter .document ::
          [.exit .listItem, .enter .paragraph, .enter (.emphasis 1), .enter (.text "a" false),
            .exit .codeSpan, .enter (.text "b" false), .enter .codeSpan, .enter (.image "i" "" "x"),
            .enter (.text "c" true), .exit .blockquote, .exit .blockquote, .enter (.literal "d")] ++
          [.exit .document]) start).result = .ok d ∧
      d.tokens =
        [.char 'a' [.em], .char 'b' [],
          .node (.container (.mediaSingle .center) [.externalMedia "i" "x"]),
          .char 'c' [.code], .node .hardBreak, .char 'd' [.code]] := by
  obtain ⟨d, hd, htokens⟩ := tokens_result_eq_emitted { externalMedia := true }
    [.exit .listItem, .enter .paragraph, .enter (.emphasis 1), .enter (.text "a" false),
      .exit .codeSpan, .enter (.text "b" false), .enter .codeSpan, .enter (.image "i" "" "x"),
      .enter (.text "c" true), .exit .blockquote, .exit .blockquote, .enter (.literal "d")]
    (by decide) start
  exact ⟨d, hd, htokens.trans (by decide)⟩

end Assembly

end Convert

end Adf
