import Adf.Convert.Render
import Adf.Proofs.Convert.Scopes

/-!
# Emissions

What a step of a walk does to an assembly, said once: entering an element adds its *emissions*, opens the
containers it has, and opens its mark; leaving it closes as many scopes and its mark. `enter_eq` and
`exit_eq` say so for every element but the document, and everything else about assemblies is derived from
the three small operations (`emit`, `openScope`, `closeScope`) that occur in them.
-/

namespace Adf

/-- The element that is entered or left. -/
def Markdown.Event.element : Markdown.Event → Markdown.Element
  | .enter e | .exit e => e

theorem Markdown.Event.eq_enter_or_exit {event : Markdown.Event} {e : Markdown.Element}
    (h : event.element = e) : event = .enter e ∨ event = .exit e := by
  cases event with
  | enter e' => exact Or.inl (congrArg enter h)
  | exit e' => exact Or.inr (congrArg exit h)

namespace Convert

open Markdown (Element Event)

/-! ## What an element stands for -/

/-- A piece of content that an element adds when it is entered. -/
inductive Emission where
  /-- A text that the next one continues if their marks are the same. An empty one adds nothing. -/
  | run (s : String) (marks : List Mark)
  /-- A node that stands on its own. -/
  | single (node : Node)
  /-- A block; inline content around it ends there. -/
  | block (node : Node)
deriving DecidableEq

/-- The mark that is open inside an element. -/
def markOf? : Element → Option Mark
  | .codeSpan => some .code
  | .emphasis level => some (if level = 2 then .strong else .em)
  | .link destination title => some (.linkTo destination title)
  | .strikethrough => some .strike
  | .superscript => some (.subsup .sup)
  | .document | .heading _ | .blockquote | .codeBlock _ _ _ | .htmlBlock | .list _ _ | .listItem | .paragraph
  | .textBlock | .thematicBreak | .autoLink _ _ | .image _ _ _ | .rawHtml | .text _ _ | .literal _ | .table
  | .tableHeader | .tableRow | .tableCell _ | .taskCheckBox _ => none

/-- What becomes of an image: what the handler makes of it, or external media with the title as their
caption, or a text that links to it. -/
def imageEmission (config : Config) (destination title alt : String) : Emission :=
  match config.imageHandler with
  | some handler => .single (handler ⟨destination, if alt.isEmpty then destination else alt, title⟩)
  | none =>
    if config.externalMedia then
      .block (.container (.mediaSingle config.imageLayout)
        (.externalMedia destination alt :: if title.isEmpty then [] else [.caption title]))
    else .single (.text (if alt.isEmpty then destination else alt) [.linkTo destination title])

/-- What a check box shows. -/
def boxText (checked : Bool) : String := if checked then "[x] " else "[ ] "

/-- The content of a text; an empty one has none. -/
def textContent (s : String) (marks : List Mark) : List Emission :=
  if s.isEmpty then [] else [.run s marks]

/-- The content that a step adds where these marks are open. -/
def emissions (config : Config) (marks : List Mark) : Event → List Emission
  | .enter (.text segment hard) => textContent segment marks ++ if hard then [.single .hardBreak] else []
  | .enter (.literal value) => textContent value marks
  | .enter (.autoLink url label) => [.single (.text label [.linkTo url ""])]
  | .enter (.image destination title alt) => [imageEmission config destination title alt]
  | .enter (.taskCheckBox checked) => [.single (.text (boxText checked) [])]
  | .enter .thematicBreak => [.single .rule]
  | .enter (.codeBlock fenced language lines) => [.single (Assembly.codeBlock fenced language lines)]
  | _ => []

theorem emissions_exit (config : Config) (marks : List Mark) (e : Element) :
    emissions config marks (.exit e) = [] := rfl

/-- The marks that are open after a step. -/
def marksAfter (marks : List Mark) : Event → List Mark
  | .enter e => marks ++ (markOf? e).toList
  | .exit e => if (markOf? e).isSome then marks.dropLast else marks

/-- The content that a list of steps adds, in the order of the steps. -/
def emitted (config : Config) (marks : List Mark) : List Event → List Emission
  | [] => []
  | event :: rest => emissions config marks event ++ emitted config (marksAfter marks event) rest

/-- The containers that an element opens, the outer one first. A cell holds blocks, so its inlines get a
paragraph of their own. -/
def containers (config : Config) : Element → List Container
  | .heading level => [.heading level]
  | .blockquote => [.blockquote]
  | .list true start => [.orderedList start]
  | .list false _ => [.bulletList]
  | .listItem => [.listItem]
  | .paragraph | .textBlock => [.paragraph]
  | .table => [.table false config.tableLayout]
  | .tableHeader | .tableRow => [.tableRow]
  | .tableCell header => [if header then .tableHeader else .tableCell, .paragraph]
  | .document | .codeBlock _ _ _ | .htmlBlock | .thematicBreak | .autoLink _ _ | .codeSpan | .emphasis _
  | .image _ _ _ | .link _ _ | .rawHtml | .text _ _ | .literal _ | .strikethrough | .superscript
  | .taskCheckBox _ => []

/-- The containers that are open after a step, the innermost one first. -/
def openAfter (config : Config) (opened : List Container) : Event → List Container
  | .enter e => (containers config e).reverse ++ opened
  | .exit e => opened.drop (containers config e).length

theorem emitted_append (config : Config) (marks : List Mark) (xs ys : List Event) :
    emitted config marks (xs ++ ys) =
      emitted config marks xs ++ emitted config (xs.foldl marksAfter marks) ys := by
  induction xs generalizing marks with
  | nil => rfl
  | cons event xs ih => simp only [List.cons_append, emitted, List.foldl_cons, ih, List.append_assoc]

namespace Assembly

/-! ## The steps of an assembly -/

/-- Adds an emission. The marks that are open play no part in it. -/
def emit (a : Assembly) : Emission → Assembly
  | .run s marks => ((a.withMarks marks).addText s).withMarks a.marks
  | .single node => a.add node
  | .block node => a.splice node

def emitAll (emissions : List Emission) (a : Assembly) : Assembly := emissions.foldl emit a

/-- Ends so many of the innermost scopes. -/
def closeScopes : Nat → Assembly → Assembly
  | 0, a => a
  | n + 1, a => closeScopes n a.closeScope

@[simp] theorem emitAll_nil (a : Assembly) : a.emitAll [] = a := rfl

@[simp] theorem emitAll_cons (e : Emission) (es : List Emission) (a : Assembly) :
    a.emitAll (e :: es) = (a.emit e).emitAll es := rfl

theorem emitAll_append (xs ys : List Emission) (a : Assembly) :
    a.emitAll (xs ++ ys) = (a.emitAll xs).emitAll ys :=
  List.foldl_append

/-! ### Marks -/

@[simp] theorem marks_withMarks (marks : List Mark) (a : Assembly) : (a.withMarks marks).marks = marks := rfl

theorem withMarks_eq_self {marks : List Mark} {a : Assembly} (h : a.marks = marks) :
    a.withMarks marks = a := by
  subst h
  rfl

@[simp] theorem withMarks_marks (a : Assembly) : a.withMarks a.marks = a := rfl

@[simp] theorem marks_emit (a : Assembly) (e : Emission) : (a.emit e).marks = a.marks := by
  cases e <;> simp [emit]

@[simp] theorem marks_emitAll (es : List Emission) (a : Assembly) : (a.emitAll es).marks = a.marks := by
  induction es generalizing a with
  | nil => rfl
  | cons e es ih => rw [emitAll_cons, ih, marks_emit]

/-- A text that carries the open marks is added as it is. -/
theorem emitAll_textContent (s : String) (a : Assembly) :
    a.emitAll (textContent s a.marks) = a.addText s := by
  unfold textContent
  split
  · rename_i hs
    rw [emitAll_nil, addText, if_pos hs]
  · rw [emitAll_cons, emitAll_nil, emit, withMarks_marks, withMarks_eq_self (marks_addText s a)]

/-! ### Open containers -/

@[simp] theorem openContainers_withMarks (marks : List Mark) (a : Assembly) :
    (a.withMarks marks).openContainers = a.openContainers := rfl

@[simp] theorem openContainers_emit (a : Assembly) (e : Emission) :
    (a.emit e).openContainers = a.openContainers := by
  cases e <;> simp [emit]

@[simp] theorem openContainers_emitAll (es : List Emission) (a : Assembly) :
    (a.emitAll es).openContainers = a.openContainers := by
  induction es generalizing a with
  | nil => rfl
  | cons e es ih => rw [emitAll_cons, ih, openContainers_emit]

theorem openContainers_closeScopes (n : Nat) (a : Assembly) :
    (a.closeScopes n).openContainers = a.openContainers.drop n := by
  induction n generalizing a with
  | zero => rfl
  | succ n ih => rw [closeScopes, ih, openContainers_closeScope, List.drop_tail]

/-! ### Entering and leaving -/

theorem addImage_eq (config : Config) (destination title alt : String) (a : Assembly) :
    a.addImage config destination title alt = a.emit (imageEmission config destination title alt) := by
  simp only [addImage, imageEmission]
  cases config.imageHandler with
  | some handler => rfl
  | none => cases config.externalMedia <;> rfl

/-- **Entering an element** adds its emissions, opens its mark and then its containers. -/
theorem enter_eq (config : Config) (a : Assembly) {e : Element} (he : e ≠ .document) :
    enter config a e =
      (containers config e).foldl (fun a c => a.openScope c)
        ((a.emitAll (emissions config a.marks (.enter e))).withMarks
          (marksAfter a.marks (.enter e))) := by
  cases e with
  | document => exact absurd rfl he
  | text segment hard =>
    cases hard <;>
      simp [enter, emissions, marksAfter, markOf?, containers, emitAll_append, emitAll_textContent,
        withMarks_eq_self, emit]
  | literal value =>
    simp [enter, emissions, marksAfter, markOf?, containers, emitAll_textContent, withMarks_eq_self]
  | image destination title alt =>
    simp [enter, emissions, marksAfter, markOf?, containers, addImage_eq, withMarks_eq_self]
  | list ordered start =>
    cases ordered <;> simp [enter, emissions, marksAfter, markOf?, containers]
  | codeSpan | emphasis | link | strikethrough | superscript =>
    simp [enter, emissions, marksAfter, markOf?, containers, openMark, withMarks]
  | _ =>
    simp [enter, emissions, marksAfter, markOf?, containers, emit, withMarks_eq_self, boxText]

/-- **Leaving an element** closes a scope for each of its containers, and its mark. -/
theorem exit_eq (config : Config) (a : Assembly) {e : Element} (he : e ≠ .document) :
    a.exit e =
      (a.closeScopes (containers config e).length).withMarks (marksAfter a.marks (.exit e)) := by
  cases e with
  | document => exact absurd rfl he
  | list ordered start =>
    cases ordered <;>
      simp [exit, marksAfter, markOf?, containers, closeScopes, withMarks_eq_self]
  | codeSpan | emphasis | link | strikethrough | superscript =>
    simp [exit, marksAfter, markOf?, containers, closeScopes, closeMark, withMarks]
  | _ => simp [exit, marksAfter, markOf?, containers, closeScopes, withMarks_eq_self]

theorem marks_openScopes (cs : List Container) (a : Assembly) :
    (cs.foldl (fun a c => a.openScope c) a).marks = a.marks := by
  induction cs generalizing a with
  | nil => rfl
  | cons c cs ih => exact ih (a.openScope c)

theorem openContainers_openScopes (cs : List Container) (a : Assembly) :
    (cs.foldl (fun a c => a.openScope c) a).openContainers = cs.reverse ++ a.openContainers := by
  induction cs generalizing a with
  | nil => rfl
  | cons c cs ih =>
    rw [List.foldl_cons, ih, openScope_eq_pushScope, openContainers_pushScope, List.reverse_cons,
      List.append_assoc, List.singleton_append]

theorem marks_feed (config : Config) (a : Assembly) {event : Event} (h : event.element ≠ .document) :
    (feed config a event).marks = marksAfter a.marks event := by
  cases event with
  | enter e =>
    have he : e ≠ .document := h
    rw [feed, enter_eq config a he, marks_openScopes, marks_withMarks]
  | exit e =>
    have he : e ≠ .document := h
    rw [feed, exit_eq config a he, marks_withMarks]

theorem openContainers_feed (config : Config) (a : Assembly) {event : Event}
    (h : event.element ≠ .document) :
    (feed config a event).openContainers = openAfter config a.openContainers event := by
  cases event with
  | enter e =>
    have he : e ≠ .document := h
    rw [feed, enter_eq config a he, openContainers_openScopes, openContainers_withMarks,
      openContainers_emitAll, openAfter]
  | exit e =>
    have he : e ≠ .document := h
    rw [feed, exit_eq config a he, openContainers_withMarks, openContainers_closeScopes, openAfter]

theorem feedAll_append (config : Config) (xs ys : List Event) (a : Assembly) :
    feedAll config (xs ++ ys) a = feedAll config ys (feedAll config xs a) :=
  List.foldl_append

/-! ### The end of a document -/

theorem closeAll_eq (a : Assembly) : a.closeAll = a.closeScopes a.scopes.length := by
  suffices h : ∀ (scopes : List Scope) (a : Assembly),
      scopes.foldl (fun a _ => a.closeScope) a = a.closeScopes scopes.length from h a.scopes a
  intro scopes
  induction scopes with
  | nil => exact fun _ => rfl
  | cons s scopes ih => exact fun a => ih a.closeScope

theorem scopes_closeAll (a : Assembly) : a.closeAll.scopes = [] := by
  have h : a.closeAll.openContainers = [] := by
    have hlength : a.openContainers.length = a.scopes.length := List.length_map _
    rw [closeAll_eq, openContainers_closeScopes]
    exact List.drop_eq_nil_iff.mpr (Nat.le_of_eq hlength)
  exact List.map_eq_nil_iff.mp h

/-- Whatever came before, a document begins anew, and the end of it is its result. -/
theorem result_feedAll_document (config : Config) (events : List Event) (a : Assembly) :
    (feedAll config (.enter .document :: events ++ [.exit .document]) a).result =
      .ok (feedAll config events start).closeAll.document := by
  rw [feedAll_append]
  rfl

end Assembly

end Convert

end Adf
