import Adf.Proofs.Convert.Flow

/-!
# Blocks inside inline content

What a paragraph, a heading or a table cell becomes when its content is inline and well nested, in whatever
place and with whatever marks open around it: the `flow` of what the content emits, put to the end of the
innermost scope. With external media every image is a block, and the text around it is cut there.
-/

namespace Adf.Convert

open Markdown (Element Event)

/-! ## Inline bodies -/

/-- An inline element that opens no mark. -/
def isInlineLeaf : Element → Bool
  | .text _ _ | .literal _ | .autoLink _ _ | .rawHtml | .taskCheckBox _ | .image _ _ _ => true
  | _ => false

/-- Well-nested steps of inline elements. An element that opens a mark is left again behind its content; it
makes no difference when the others are left. -/
inductive InlineBody : List Event → Prop
  | nil : InlineBody []
  | leaf {event : Event} {rest : List Event} : isInlineLeaf event.element → InlineBody rest →
      InlineBody (event :: rest)
  | span {e : Element} {inside rest : List Event} : (markOf? e).isSome → InlineBody inside →
      InlineBody rest → InlineBody (.enter e :: inside ++ .exit e :: rest)

/-- An element with the steps inside it. -/
def around (e : Element) (body : List Event) : List Event := .enter e :: body ++ [.exit e]

theorem markOf?_of_isInlineLeaf {e : Element} (h : isInlineLeaf e) : markOf? e = none := by
  cases e <;> simp_all [isInlineLeaf, markOf?]

theorem marksAfter_leaf {event : Event} (h : markOf? event.element = none) (marks : List Mark) :
    marksAfter marks event = marks := by
  cases event with
  | enter e =>
    have he : markOf? e = none := h
    simp [marksAfter, he]
  | exit e =>
    have he : markOf? e = none := h
    simp [marksAfter, he]

/-- The marks that are open behind a well-nested body are those that were open before it. -/
theorem InlineBody.foldl_marksAfter {body : List Event} (h : InlineBody body) (marks : List Mark) :
    body.foldl marksAfter marks = marks := by
  induction h generalizing marks with
  | nil => rfl
  | @leaf event rest hleaf _ ih =>
    rw [List.foldl_cons, marksAfter_leaf (markOf?_of_isInlineLeaf hleaf), ih]
  | @span e inside rest hmark _ _ ihInside ihRest =>
    obtain ⟨mark, hmark⟩ := Option.isSome_iff_exists.mp hmark
    rw [List.cons_append, List.foldl_cons, List.foldl_append, ihInside, List.foldl_cons, ihRest]
    simp [marksAfter, hmark]

/-- An inline element has no container. -/
def isInline (e : Element) : Bool := isInlineLeaf e || (markOf? e).isSome

theorem InlineBody.isInline_of_mem {body : List Event} (h : InlineBody body) :
    ∀ event ∈ body, isInline event.element := by
  induction h with
  | nil => exact fun event hevent => absurd hevent List.not_mem_nil
  | @leaf event rest hleaf _ ih =>
    intro event' hevent
    rcases List.mem_cons.mp hevent with rfl | hrest
    · simp [isInline, hleaf]
    · exact ih event' hrest
  | @span e inside rest hmark _ _ ihInside ihRest =>
    intro event hevent
    rcases List.mem_append.mp hevent with hevent | hevent <;> rcases List.mem_cons.mp hevent with rfl | hevent
    · simp [isInline, Event.element, hmark]
    · exact ihInside event hevent
    · simp [isInline, Event.element, hmark]
    · exact ihRest event hevent

theorem ne_document_of_isInline {e : Element} (h : isInline e) : e ≠ .document := by
  rintro rfl
  simp [isInline, isInlineLeaf, markOf?] at h

theorem containers_of_isInline (config : Config) {e : Element} (h : isInline e) : containers config e = [] := by
  cases e <;> simp_all [isInline, isInlineLeaf, markOf?, containers]

namespace Assembly

/-! ## Taking in an inline body -/

theorem splice_withMarks (block : Node) (marks : List Mark) (a : Assembly) :
    (a.withMarks marks).splice block = (a.splice block).withMarks marks := by
  obtain ⟨document, scopes, marks', textRun, finished⟩ := a
  cases scopes with
  | nil => rfl
  | cons s rest =>
    by_cases hs : s.container.holdsInlines <;> by_cases hc : s.content.isEmpty <;> cases rest <;>
      simp [splice, withMarks, hs, hc, add]

theorem emit_withMarks (e : Emission) (marks : List Mark) (a : Assembly) :
    (a.withMarks marks).emit e = (a.emit e).withMarks marks := by
  cases e with
  | run s m => rfl
  | single node =>
    obtain ⟨document, scopes, marks', textRun, finished⟩ := a
    cases scopes <;> rfl
  | block node => exact splice_withMarks node marks a

theorem emitAll_withMarks (es : List Emission) (marks : List Mark) (a : Assembly) :
    (a.withMarks marks).emitAll es = (a.emitAll es).withMarks marks := by
  induction es generalizing a with
  | nil => rfl
  | cons e es ih => rw [emitAll_cons, emit_withMarks, ih, emitAll_cons]

/-- A step of an inline element emits and changes the open marks, and nothing else. -/
theorem feed_inline (config : Config) (a : Assembly) {event : Event} (h : isInline event.element) :
    feed config a event =
      (a.emitAll (emissions config a.marks event)).withMarks (marksAfter a.marks event) := by
  cases event with
  | enter e =>
    have he : isInline e := h
    rw [feed, enter_eq config a (ne_document_of_isInline he), containers_of_isInline config he]
    rfl
  | exit e =>
    have he : isInline e := h
    rw [feed, exit_eq config a (ne_document_of_isInline he), containers_of_isInline config he]
    rfl

theorem feedAll_inline (config : Config) {body : List Event}
    (h : ∀ event ∈ body, isInline event.element) (a : Assembly) :
    feedAll config body a =
      (a.emitAll (emitted config a.marks body)).withMarks (body.foldl marksAfter a.marks) := by
  induction body generalizing a with
  | nil => rfl
  | cons event body ih =>
    have hstep := feed_inline config a (h event List.mem_cons_self)
    calc feedAll config (event :: body) a
        = feedAll config body (feed config a event) := rfl
      _ = _ := by
        rw [ih (fun e he => h e (List.mem_cons_of_mem _ he)), hstep, emitAll_withMarks, marks_withMarks,
          ← emitAll_append]
        rfl

/-- An inline body in a scope of its own becomes the flow of what it emits. -/
theorem closeScope_feedAll_inline (config : Config) {body : List Event} (hbody : InlineBody body)
    {c : Container} (hc : c.holdsInlines) (a : Assembly) :
    (feedAll config body (a.openScope c)).closeScope =
      a.append (flow c (emitted config a.marks body)) := by
  have hmarks : (a.openScope c).marks = a.marks := rfl
  have hopen : a.openScope c = growing c false [] none a := rfl
  have hbalanced : ((a.openScope c).emitAll (emitted config a.marks body)).marks = a.marks := by
    rw [marks_emitAll, hmarks]
  rw [feedAll_inline config hbody.isInline_of_mem, hbody.foldl_marksAfter, hmarks,
    withMarks_eq_self hbalanced, hopen, closeScope_emitAll c false [] a hc, flow_eq]
  rfl

theorem feedAll_around (config : Config) (e : Element) (body : List Event) (a : Assembly) :
    feedAll config (around e body) a = (feedAll config body (enter config a e)).exit e := by
  rw [around, feedAll, List.cons_append, List.foldl_cons, List.foldl_append]
  rfl

/-- An element with one container for inline content adds the flow of its body. -/
theorem feedAll_around_text (config : Config) {e : Element} {c : Container} (hc : c.holdsInlines)
    (henter : ∀ a : Assembly, a.enter config e = a.openScope c)
    (hexit : ∀ a : Assembly, a.exit e = a.closeScope) {body : List Event} (hbody : InlineBody body)
    (a : Assembly) :
    feedAll config (around e body) a = a.append (flow c (emitted config a.marks body)) := by
  have hopen : enter config a e = a.openScope c := henter a
  rw [feedAll_around, hopen, hexit]
  exact closeScope_feedAll_inline config hbody hc a

/-- A cell adds the flow of its body in a paragraph of its own. -/
theorem feedAll_around_cell (config : Config) (header : Bool) {body : List Event} (hbody : InlineBody body)
    (a : Assembly) :
    feedAll config (around (.tableCell header) body) a =
      a.append [.container (if header then .tableHeader else .tableCell)
        (flow .paragraph (emitted config a.marks body))] := by
  let cell : Container := if header then .tableHeader else .tableCell
  have hcell := closeScope_feedAll_inline config hbody (c := .paragraph) rfl (a.openScope cell)
  rw [feedAll_around]
  show (feedAll config body ((a.openScope cell).openScope .paragraph)).closeScope.closeScope = _
  rw [hcell, openScope_eq_pushScope, append_pushScope, closeScope_pushScope]
  rfl

end Assembly

end Adf.Convert
