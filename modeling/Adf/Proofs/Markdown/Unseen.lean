import Adf.Proofs.Markdown.Labels
import Adf.Proofs.Markdown.Events
import Adf.Proofs.Markdown.Structure

/-!
# Nodes that leave no trace

Raw markup is reported and then passed over, and an inline construct that has no counterpart in a document
gives way to what is in it. `Tree.Unseen` puts one such node into a tree, anywhere but right inside a link,
which might be taken for an autolink without it. A walk then takes the same steps as before, apart from those
of raw markup (`Unseen.shown_events`).
-/

namespace Adf.Markdown

def Kind.isMarkup : Kind → Bool
  | .htmlBlock _ | .htmlInline _ => true
  | _ => false

def Kind.isLink : Kind → Bool
  | .link _ _ => true
  | _ => false

/-- The step enters or leaves raw markup. -/
def Event.isMarkup : Event → Bool
  | .enter .htmlBlock | .enter .rawHtml | .exit .htmlBlock | .exit .rawHtml => true
  | _ => false

/-- The steps without those of raw markup. -/
def shown (events : List Event) : List Event := events.filter (!·.isMarkup)

@[simp] theorem shown_append (xs ys : List Event) : shown (xs ++ ys) = shown xs ++ shown ys :=
  List.filter_append xs ys

theorem shown_around_congr (e : Element) {inside inside' : List Event} (h : shown inside = shown inside') :
    shown (.enter e :: inside ++ [.exit e]) = shown (.enter e :: inside' ++ [.exit e]) := by
  have haround (events : List Event) :
      shown (.enter e :: events ++ [.exit e]) = shown [.enter e] ++ shown events ++ shown [.exit e] := by
    rw [← shown_append, ← shown_append]
    rfl
  rw [haround, haround, h]

namespace Tree

/-- The second tree is the first one with one more node, which has no counterpart in a document. -/
inductive Unseen : Tree → Tree → Prop
  /-- The new node is raw markup. -/
  | markup {kind : Kind} {span : Span} (before after : List Tree) (raw : Kind) (place : Span)
      (hkind : ¬kind.isLink) (hraw : raw.isMarkup) :
      Unseen (.node kind span (before ++ after)) (.node kind span (before ++ .node raw place [] :: after))
  /-- The new node is an inline construct around some of the inlines. -/
  | wrapper {kind : Kind} {span : Span} (before run after : List Tree) (construct : Extension)
      (place : Span) (hkind : ¬kind.isLink) (hconstruct : ¬construct.isBlock)
      (hrun : ∀ tree ∈ run, tree.kind.isInline) :
      Unseen (.node kind span (before ++ (run ++ after)))
        (.node kind span (before ++ .node (.extension construct) place run :: after))
  /-- The new node is inside one of the children. -/
  | inside {kind : Kind} {span : Span} (before after : List Tree) {tree tree' : Tree}
      (h : Unseen tree tree') :
      Unseen (.node kind span (before ++ tree :: after)) (.node kind span (before ++ tree' :: after))

/-! ## Texts and elements -/

theorem plainTexts_append (xs ys : List Tree) : plainTexts (xs ++ ys) = plainTexts xs ++ plainTexts ys := by
  induction xs with
  | nil => rw [List.nil_append, plainTexts, String.empty_append]
  | cons tree xs ih => rw [List.cons_append, plainTexts, plainTexts, ih, String.append_assoc]

theorem plainText_congr (kind : Kind) (span : Span) {children children' : List Tree}
    (h : plainTexts children = plainTexts children') :
    plainText (.node kind span children) = plainText (.node kind span children') := by
  cases kind <;> simp only [plainText, h]

/-- Only a link looks at more of its children than their text. -/
theorem describe_congr (inHeader : Bool) (span : Span) {kind : Kind} {children children' : List Tree}
    (hkind : ¬kind.isLink) (h : plainTexts children = plainTexts children') :
    describe inHeader span children kind = describe inHeader span children' kind := by
  cases kind with
  | link url title => exact absurd rfl hkind
  | image url title => rw [describe, describe, h]
  | tableRow header => cases header <;> rfl
  | _ => rfl

/-- Whether a link is taken for an autolink does not depend on what is inside its child. -/
theorem autolink?_congr (url title : String) (span : Span) (before after : List Tree) {tree tree' : Tree}
    (h : tree.kind = tree'.kind) :
    autolink? url title span (before ++ tree :: after) = autolink? url title span (before ++ tree' :: after) := by
  have hlabel {t t' : Tree} (hkind : t.kind = t'.kind) (label : String) :
      autolink? url title span (before ++ t :: after) = some label →
        autolink? url title span (before ++ t' :: after) = some label := by
    intro hsome
    obtain ⟨htitle, hne, hurl, hfits, place, below, hchildren⟩ := autolink?_eq_some_iff.mp hsome
    obtain ⟨rfl, hrest⟩ | ⟨first, -, hnil⟩ := List.append_eq_cons_iff.mp hchildren
    · obtain ⟨rfl, rfl⟩ := List.cons.inj hrest.symm
      obtain ⟨kind', place', below'⟩ := t'
      obtain rfl : Kind.text label = kind' := hkind
      exact autolink?_eq_some_iff.mpr ⟨htitle, hne, hurl, hfits, place', below', rfl⟩
    · simp at hnil
  exact Option.ext fun label => ⟨hlabel h label, hlabel h.symm label⟩

/-! ## Steps through children -/

variable {status : Element → Status}

theorem childrenEvents_append (inHeader : Bool) (xs ys : List Tree) :
    childrenEvents status inHeader (xs ++ ys) =
      childrenEvents status inHeader xs ++ childrenEvents status inHeader ys := by
  induction xs with
  | nil => rfl
  | cons tree xs ih => rw [List.cons_append, childrenEvents, childrenEvents, ih, List.append_assoc]

/-- Raw markup takes no steps but its own. -/
theorem shown_eventsFrom_markup (inHeader : Bool) (place : Span) {raw : Kind} (h : raw.isMarkup) :
    shown (eventsFrom status inHeader none (.node raw place [])) = [] := by
  cases raw with
  | htmlBlock s | htmlInline s =>
    rw [eventsFrom.eq_def]
    dsimp only [describe]
    split <;> rfl
  | _ => contradiction

/-- Only a cell is told whether it is in a header row. -/
theorem eventsFrom_of_isInline (inHeader : Bool) {tree : Tree} (h : tree.kind.isInline) :
    eventsFrom status inHeader none tree = eventsFrom status false none tree := by
  obtain ⟨kind, span, children⟩ := tree
  have hdescribe : describe inHeader span children kind = describe false span children kind := by
    cases kind with
    | tableCell | tableRow => contradiction
    | _ => rfl
  rw [eventsFrom.eq_def, eventsFrom.eq_def]
  dsimp only
  rw [hdescribe]

theorem childrenEvents_of_isInline (inHeader : Bool) {run : List Tree} (h : ∀ tree ∈ run, tree.kind.isInline) :
    childrenEvents status inHeader run = childrenEvents status false run := by
  induction run with
  | nil => rfl
  | cons tree run ih =>
    obtain ⟨htree, hrun⟩ := List.forall_mem_cons.mp h
    rw [childrenEvents, childrenEvents, eventsFrom_of_isInline inHeader htree, ih hrun]

/-- Inlines do not take the check box of their item. -/
theorem itemEvents_append_of_isInline (checked : Bool) {run : List Tree} (rest : List Tree)
    (h : ∀ tree ∈ run, tree.kind.isInline) :
    itemEvents status checked (run ++ rest) =
      childrenEvents status false run ++ itemEvents status checked rest := by
  induction run with
  | nil => rfl
  | cons tree run ih =>
    obtain ⟨htree, hrun⟩ := List.forall_mem_cons.mp h
    have hkind : tree.kind ≠ .paragraph := by
      intro hparagraph
      rw [hparagraph] at htree
      contradiction
    rw [List.cons_append, itemEvents, if_neg hkind, ih hrun, childrenEvents, List.append_assoc]

variable (status) in
/-- Walks through the two lists take the same steps, apart from those of raw markup, and collect the same text. -/
structure SameSteps (xs ys : List Tree) : Prop where
  children : ∀ inHeader, shown (childrenEvents status inHeader xs) = shown (childrenEvents status inHeader ys)
  item : ∀ checked, shown (itemEvents status checked xs) = shown (itemEvents status checked ys)
  text : plainTexts xs = plainTexts ys

theorem SameSteps.append_left {xs ys : List Tree} (h : SameSteps status xs ys) (before : List Tree) :
    SameSteps status (before ++ xs) (before ++ ys) := by
  induction before with
  | nil => exact h
  | cons tree before ih =>
    refine ⟨fun inHeader => ?_, fun checked => ?_, ?_⟩
    · rw [List.cons_append, List.cons_append, childrenEvents, childrenEvents, shown_append, shown_append,
        ih.children]
    · rw [List.cons_append, List.cons_append, itemEvents, itemEvents]
      split
      · rw [shown_append, shown_append, ih.children]
      · rw [shown_append, shown_append, ih.item]
    · rw [List.cons_append, List.cons_append, plainTexts, plainTexts, ih.text]

theorem sameSteps_markup (after : List Tree) (place : Span) {raw : Kind} (h : raw.isMarkup) :
    SameSteps status after (.node raw place [] :: after) where
  children inHeader := by
    rw [childrenEvents, shown_append, shown_eventsFrom_markup inHeader place h, List.nil_append]
  item checked := by
    have hkind : raw ≠ .paragraph := by
      rintro rfl
      contradiction
    rw [itemEvents, kind, if_neg hkind, shown_append, shown_eventsFrom_markup false place h, List.nil_append]
  text := by
    cases raw with
    | htmlBlock | htmlInline => simp only [plainTexts, plainText, String.empty_append]
    | _ => contradiction

theorem eventsFrom_wrapper (inHeader : Bool) (place : Span) {construct : Extension} (run : List Tree)
    (h : ¬construct.isBlock) :
    eventsFrom status inHeader none (.node (.extension construct) place run) = childrenEvents status false run := by
  rw [eventsFrom.eq_def]
  simp [describe, h]

theorem sameSteps_wrapper (run after : List Tree) (place : Span) {construct : Extension}
    (hconstruct : ¬construct.isBlock) (hrun : ∀ tree ∈ run, tree.kind.isInline) :
    SameSteps status (run ++ after) (.node (.extension construct) place run :: after) where
  children inHeader := by
    rw [childrenEvents_append, childrenEvents_of_isInline inHeader hrun, childrenEvents,
      eventsFrom_wrapper inHeader place run hconstruct]
  item checked := by
    have hkind : Kind.extension construct ≠ .paragraph := by rintro ⟨⟩
    rw [itemEvents_append_of_isInline checked after hrun, itemEvents, kind, if_neg hkind,
      eventsFrom_wrapper false place run hconstruct]
  text := by simp only [plainTexts_append, plainTexts, plainText]

variable (status) in
/-- Walks through the two trees take the same steps, apart from those of raw markup, and collect the same text. -/
structure Alike (tree tree' : Tree) : Prop where
  kind : tree.kind = tree'.kind
  steps : ∀ inHeader box,
    shown (eventsFrom status inHeader box tree) = shown (eventsFrom status inHeader box tree')
  text : plainText tree = plainText tree'

theorem sameSteps_inside (after : List Tree) {tree tree' : Tree} (h : Alike status tree tree') :
    SameSteps status (tree :: after) (tree' :: after) where
  children inHeader := by
    rw [childrenEvents, childrenEvents, shown_append, shown_append, h.steps]
  item checked := by
    rw [itemEvents, itemEvents, ← h.kind]
    split
    · rw [shown_append, shown_append, h.steps]
    · rw [shown_append, shown_append, h.steps]
  text := by rw [plainTexts, plainTexts, h.text]

/-! ## Steps through a tree -/

theorem shown_eventsFrom_congr (inHeader : Bool) (box : Option Bool) (span : Span) {kind : Kind}
    {children children' : List Tree} (h : SameSteps status children children')
    (hdescribe : describe inHeader span children kind = describe inHeader span children' kind) :
    shown (eventsFrom status inHeader box (.node kind span children)) =
      shown (eventsFrom status inHeader box (.node kind span children')) := by
  rw [eventsFrom.eq_def, eventsFrom.eq_def]
  dsimp only
  rw [← hdescribe]
  cases describe inHeader span children kind with
  | none =>
    cases kind with
    | extension e =>
      dsimp only
      split
      · rfl
      · exact h.children false
    | _ => rfl
  | some element =>
    refine shown_around_congr element ?_
    cases status element with
    | skip => rfl
    | descend =>
      dsimp only
      rw [shown_append, shown_append]
      refine congrArg (shown (boxEvents box) ++ ·) ?_
      split
      · rfl
      · exact h.item _
      · exact h.children _

theorem alike_node (kind : Kind) (span : Span) {children children' : List Tree}
    (h : SameSteps status children children')
    (hdescribe : ∀ inHeader, describe inHeader span children kind = describe inHeader span children' kind) :
    Alike status (.node kind span children) (.node kind span children') where
  kind := rfl
  steps inHeader box := shown_eventsFrom_congr inHeader box span h (hdescribe inHeader)
  text := plainText_congr kind span h.text

theorem Unseen.alike {tree tree' : Tree} (h : Unseen tree tree') : Alike status tree tree' := by
  induction h with
  | markup before after raw place hkind hraw =>
    have hsame : SameSteps status _ _ := (sameSteps_markup after place hraw).append_left before
    exact alike_node _ _ hsame fun inHeader => describe_congr inHeader _ hkind hsame.text
  | wrapper before run after construct place hkind hconstruct hrun =>
    have hsame : SameSteps status _ _ := (sameSteps_wrapper run after place hconstruct hrun).append_left before
    exact alike_node _ _ hsame fun inHeader => describe_congr inHeader _ hkind hsame.text
  | @inside kind span before after tree tree' h ih =>
    have hsame : SameSteps status _ _ := (sameSteps_inside after ih).append_left before
    refine alike_node _ _ hsame fun inHeader => ?_
    -- a link looks at its child, but not at what is inside of it
    cases kind with
    | link url title => rw [describe, describe, autolink?_congr url title span before after ih.kind]
    | _ => exact describe_congr inHeader _ (by simp [Kind.isLink]) hsame.text

/-- **The new node is passed over.** A walk takes the same steps with it, apart from those of raw markup. -/
theorem Unseen.shown_events (status : Element → Status) {tree tree' : Tree} (h : Unseen tree tree') :
    shown (tree.events status) = shown (tree'.events status) :=
  h.alike.steps false none

end Tree

end Adf.Markdown
