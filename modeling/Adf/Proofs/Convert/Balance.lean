import Mathlib.Data.List.Forall2
import Adf.Proofs.Convert.Emission
import Adf.Proofs.Markdown.Balance

/-!
# Balanced steps leave the stacks as they were

Balanced steps end every scope and every mark that they open, and no other. What was open before them is open
behind them, and below the innermost scope nothing that was there before is changed: children are only added
behind the others (`feedAll_balanced`). The innermost scope itself may have ended at an image, and its last text
may have grown.
-/

namespace Adf.Convert

open Markdown (Balanced Element Event)

namespace Assembly

/-! ## What may change -/

/-- The scope still has its container and its children, and maybe more of them. -/
def Extends (s t : Scope) : Prop := t.container = s.container ∧ s.content <+: t.content

/-- In the document and in every scope children have at most been added at the end. -/
structure Grows (a b : Assembly) : Prop where
  document : a.document.content <+: b.document.content
  scopes : List.Forall₂ Extends a.scopes b.scopes

/-- The same scopes are open, and in all but the innermost one, and in the document, children have at most
been added at the end. -/
structure GrowsBelow (a b : Assembly) : Prop where
  containers : b.openContainers = a.openContainers
  document : a.document.content <+: b.document.content
  scopes : List.Forall₂ Extends a.scopes.tail b.scopes.tail

variable {a b c : Assembly} {s t : Scope} {run run' : Bool}

theorem Extends.refl (s : Scope) : Extends s s := ⟨rfl, List.prefix_rfl⟩

theorem Extends.trans {u : Scope} (h : Extends s t) (h' : Extends t u) : Extends s u :=
  ⟨h'.1.trans h.1, h.2.trans h'.2⟩

theorem forall₂_extends_refl (scopes : List Scope) : List.Forall₂ Extends scopes scopes :=
  List.forall₂_same.mpr fun s _ => .refl s

theorem forall₂_extends_trans {xs ys zs : List Scope} (h : List.Forall₂ Extends xs ys)
    (h' : List.Forall₂ Extends ys zs) : List.Forall₂ Extends xs zs := by
  induction h generalizing zs with
  | nil => exact h'
  | cons hst _ ih =>
    obtain ⟨u, rest, htu, hrest, rfl⟩ := List.forall₂_cons_left_iff.mp h'
    exact .cons (hst.trans htu) (ih hrest)

theorem forall₂_extends_tail {xs ys : List Scope} (h : List.Forall₂ Extends xs ys) :
    List.Forall₂ Extends xs.tail ys.tail := by
  cases h with
  | nil => exact .nil
  | cons _ hrest => exact hrest

theorem map_container_eq {xs ys : List Scope} (h : List.Forall₂ Extends xs ys) :
    ys.map Scope.container = xs.map Scope.container := by
  induction h with
  | nil => rfl
  | cons hst _ ih => rw [List.map_cons, List.map_cons, hst.1, ih]

theorem Grows.refl (a : Assembly) : Grows a a := ⟨List.prefix_rfl, forall₂_extends_refl _⟩

theorem Grows.trans (h : Grows a b) (h' : Grows b c) : Grows a c :=
  ⟨h.document.trans h'.document, forall₂_extends_trans h.scopes h'.scopes⟩

theorem GrowsBelow.trans (h : GrowsBelow a b) (h' : GrowsBelow b c) : GrowsBelow a c :=
  ⟨h'.containers.trans h.containers, h.document.trans h'.document,
    forall₂_extends_trans h.scopes h'.scopes⟩

theorem Grows.openContainers_eq (h : Grows a b) : b.openContainers = a.openContainers :=
  map_container_eq h.scopes

theorem Grows.below (h : Grows a b) : GrowsBelow a b where
  containers := h.openContainers_eq
  document := h.document
  scopes := forall₂_extends_tail h.scopes

theorem grows_append (nodes : List Node) (a : Assembly) : Grows a (a.append nodes) := by
  obtain ⟨document, scopes, marks, textRun, finished⟩ := a
  cases scopes with
  | nil => exact ⟨List.prefix_append _ _, .nil⟩
  | cons s rest => exact ⟨List.prefix_rfl, .cons ⟨rfl, List.prefix_append _ _⟩ (forall₂_extends_refl rest)⟩

/-- Of the innermost scope nothing is asked but its container. -/
theorem Grows.below_pushScope (h : Grows a b) (hc : t.container = s.container) :
    GrowsBelow (a.pushScope s run) (b.pushScope t run') where
  containers := by rw [openContainers_pushScope, openContainers_pushScope, hc, h.openContainers_eq]
  document := h.document
  scopes := h.scopes

/-! ## Content -/

theorem growsBelow_addText (s : String) (a : Assembly) : GrowsBelow a (a.addText s) := by
  obtain ⟨-, h⟩ | ⟨b, scope, content, rfl, -, h⟩ | h := addText_cases s a
  · rw [h]
    exact (Grows.refl a).below
  · -- a text at the end of the innermost scope grows
    rw [h]
    exact (Grows.refl b).below_pushScope rfl
  · rw [h]
    exact Grows.below ⟨(grows_append _ a).document, (grows_append _ a).scopes⟩

theorem growsBelow_splice (block : Node) (a : Assembly) : GrowsBelow a (a.splice block) := by
  obtain h | ⟨b, s, run, rfl, -, h⟩ := splice_cases block a
  · rw [h]
    exact (grows_append _ a).below
  · rw [h]
    exact (grows_append _ b).below_pushScope rfl

theorem growsBelow_emit (e : Emission) (a : Assembly) : GrowsBelow a (a.emit e) := by
  cases e with
  | run s marks =>
    have h := growsBelow_addText s (a.withMarks marks)
    exact ⟨h.containers, h.document, h.scopes⟩
  | single node => exact (grows_append [node] a).below
  | block node => exact growsBelow_splice node a

theorem growsBelow_emitAll (es : List Emission) (a : Assembly) : GrowsBelow a (a.emitAll es) := by
  induction es generalizing a with
  | nil => exact (Grows.refl a).below
  | cons e es ih => exact (growsBelow_emit e a).trans (ih (a.emit e))

/-! ## Scopes that are opened and closed again -/

/-- Whatever has become of the innermost scope, when it ends the assembly around it has grown. -/
theorem GrowsBelow.closeScope (h : GrowsBelow (a.pushScope s run) b) : Grows a b.closeScope := by
  obtain ⟨hnil, -⟩ | ⟨b', t, run', rfl, hclose⟩ := closeScope_cases b
  · have hcontainers := h.containers
    rw [openContainers_pushScope, openContainers, hnil] at hcontainers
    contradiction
  · have hgrows : Grows a b' := ⟨h.document, h.scopes⟩
    rw [hclose]
    exact hgrows.trans (grows_append _ b')

theorem closeScopes_succ (n : Nat) (a : Assembly) : a.closeScopes (n + 1) = (a.closeScopes n).closeScope := by
  induction n generalizing a with
  | zero => rfl
  | succ n ih => exact ih a.closeScope

theorem GrowsBelow.closeScopes {c : Container} {cs : List Container}
    (h : GrowsBelow ((c :: cs).foldl (fun a c => a.openScope c) a) b) :
    Grows a (b.closeScopes (c :: cs).length) := by
  rw [List.length_cons, closeScopes_succ]
  induction cs generalizing a c with
  | nil => exact h.closeScope
  | cons d cs ih =>
    rw [List.length_cons, closeScopes_succ]
    have hgrows : Grows (a.openScope c) ((b.closeScopes cs.length).closeScope) := ih h
    exact hgrows.below.closeScope

/-! ## Balanced steps -/

theorem foldl_marksAfter_balanced {events : List Event} (h : Balanced Event.Ends events)
    (marks : List Mark) : events.foldl marksAfter marks = marks := by
  induction h generalizing marks with
  | nil => rfl
  | @around x y inside rest hends _ _ ihInside ihRest =>
    obtain ⟨e⟩ := hends
    rw [List.cons_append, List.foldl_cons, List.foldl_append, ihInside, List.foldl_cons, ihRest]
    cases hmark : markOf? e <;> simp [marksAfter, hmark]

theorem marks_feedAll (config : Config) {events : List Event}
    (h : ∀ event ∈ events, event.element ≠ .document) (a : Assembly) :
    (feedAll config events a).marks = events.foldl marksAfter a.marks := by
  induction events generalizing a with
  | nil => rfl
  | cons event events ih =>
    have hrest := ih (fun e he => h e (List.mem_cons_of_mem _ he)) (feed config a event)
    rw [marks_feed config a (h event List.mem_cons_self)] at hrest
    exact hrest

/-- An element with balanced steps in it. -/
theorem growsBelow_around (config : Config) {e : Element} (he : e ≠ .document) {inside : List Event}
    (hinside : ∀ a, GrowsBelow a (feedAll config inside a)) (a : Assembly) :
    GrowsBelow a ((feedAll config inside (enter config a e)).exit e) := by
  rw [enter_eq config a he, exit_eq config _ he]
  have hemit := growsBelow_emitAll (emissions config a.marks (.enter e)) a
  generalize a.emitAll (emissions config a.marks (.enter e)) = emitted at hemit ⊢
  cases hcs : containers config e with
  | nil =>
    have h := hinside (emitted.withMarks (marksAfter a.marks (.enter e)))
    exact hemit.trans ⟨h.containers, h.document, h.scopes⟩
  | cons c cs =>
    have h := (hinside ((c :: cs).foldl (fun a c => a.openScope c)
      (emitted.withMarks (marksAfter a.marks (.enter e))))).closeScopes
    exact hemit.trans (Grows.below ⟨h.document, h.scopes⟩)

theorem growsBelow_feedAll (config : Config) {events : List Event} (h : Balanced Event.Ends events)
    (hdocument : ∀ event ∈ events, event.element ≠ .document) (a : Assembly) :
    GrowsBelow a (feedAll config events a) := by
  induction h generalizing a with
  | nil => exact (Grows.refl a).below
  | @around x y inside rest hends _ _ ihInside ihRest =>
    obtain ⟨e⟩ := hends
    have he : e ≠ .document := hdocument (.enter e) List.mem_cons_self
    have hinside : ∀ event ∈ inside, event.element ≠ .document := fun event hevent =>
      hdocument event (List.mem_append_left _ (List.mem_cons_of_mem _ hevent))
    have hrest : ∀ event ∈ rest, event.element ≠ .document := fun event hevent =>
      hdocument event (List.mem_append_right _ (List.mem_cons_of_mem _ hevent))
    rw [List.cons_append, feedAll, List.foldl_cons, List.foldl_append, List.foldl_cons]
    exact (growsBelow_around config he (ihInside hinside) a).trans (ihRest hrest _)

/-- **Balanced steps are neutral.** Behind them the same marks are open and the same scopes, each with its kind
and attributes. In the document and in every scope below the innermost one, the children from before stand
unchanged in front of what has been added. -/
theorem feedAll_balanced (config : Config) (events : List Event) (h : Balanced Event.Ends events)
    (hdocument : ∀ event ∈ events, event.element ≠ .document) (a : Assembly) :
    (feedAll config events a).marks = a.marks ∧
    (feedAll config events a).openContainers = a.openContainers ∧
    a.document.content <+: (feedAll config events a).document.content ∧
    List.Forall₂ (fun s t => s.content <+: t.content) a.scopes.tail
      (feedAll config events a).scopes.tail := by
  have hgrows := growsBelow_feedAll config h hdocument a
  refine ⟨?_, hgrows.containers, hgrows.document, hgrows.scopes.imp fun _ _ hst => hst.2⟩
  rw [marks_feedAll config hdocument a, foldl_marksAfter_balanced h]

/-- Behind the text of an item come an image inside emphasis, which splits the paragraph, and a quote. -/
theorem feedAll_balanced_image_and_quote :
    let events : List Event :=
      [.enter (.emphasis 1), .enter (.image "i" "" ""), .exit (.image "i" "" ""), .exit (.emphasis 1),
        .enter .blockquote, .exit .blockquote]
    let a := (((start.openScope .listItem).add .rule).openScope .paragraph).addText "x"
    let b := feedAll { externalMedia := true } events a
    Balanced Event.Ends events ∧ (∀ event ∈ events, event.element ≠ .document) ∧
      b.marks = a.marks ∧ b.openContainers = a.openContainers ∧
        a.document.content <+: b.document.content ∧
          List.Forall₂ (fun s t => s.content <+: t.content) a.scopes.tail b.scopes.tail := by
  intro events a b
  have himage : Balanced Event.Ends [.enter (.image "i" "" ""), .exit (.image "i" "" "")] :=
    Balanced.nil.pair (.leave _)
  have hemphasis := himage.pair (.leave (.emphasis 1))
  have hquote := Balanced.nil.pair (Event.Ends.leave .blockquote)
  have hevents : Balanced Event.Ends events := hemphasis.append hquote
  have hdocument : ∀ event ∈ events, event.element ≠ .document := by decide
  exact ⟨hevents, hdocument, feedAll_balanced _ events hevents hdocument a⟩

end Assembly

end Adf.Convert
