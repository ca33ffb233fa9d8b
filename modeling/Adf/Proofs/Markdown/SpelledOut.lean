import Adf.Proofs.Markdown.Events
import Adf.Proofs.Markdown.Labels
import Adf.Proofs.Markdown.Structure

/-!
# Links that spell out their labels

A link that stands in a wide place is never taken for an autolink. `Tree.spelledOut` is the tree with every
link in such a place. A walk through it takes the same steps, except that an autolink is a link with its
label as a text in it (`events_spelledOut`).
-/

namespace Adf.Markdown

/-- There is nothing in a text. -/
def Kind.isTextLeaf (kind : Kind) (children : List Tree) : Bool :=
  match kind with
  | .text _ => children.isEmpty
  | _ => true

/-- The element without a label of its own. -/
def Element.spelledOut : Element → Element
  | .autoLink url _ => .link url ""
  | e => e

/-- The steps that there are instead of a step, where an autolink is a link with its label as a text in it. -/
def Event.spelledOut : Event → List Event
  | .enter (.autoLink url label) =>
    [.enter (.link url ""), .enter (.text label false), .exit (.text label false), .exit (.link url "")]
  | .exit (.autoLink _ _) => []
  | event => [event]

namespace Tree

/-! ## Wide places -/

/-- The place of a node; that of a link goes over two lines, so that no autolink fits in. -/
def widened (kind : Kind) (span : Span) : Span :=
  match kind with
  | .link _ _ => ⟨1, 1, 2, 1⟩
  | _ => span

mutual

/-- The tree with every link in a place that is too wide for an autolink. -/
def spelledOut : Tree → Tree
  | .node kind span children => .node kind (widened kind span) (allSpelledOut children)

def allSpelledOut : List Tree → List Tree
  | [] => []
  | tree :: rest => spelledOut tree :: allSpelledOut rest

end

theorem kind_spelledOut : ∀ tree : Tree, tree.spelledOut.kind = tree.kind
  | .node _ _ _ => by rw [spelledOut]; rfl

mutual

theorem plainText_spelledOut : ∀ tree : Tree, tree.spelledOut.plainText = tree.plainText
  | .node kind span children => by
    rw [spelledOut]
    cases kind <;> simp only [plainText, plainTexts_allSpelledOut children]

theorem plainTexts_allSpelledOut : ∀ trees : List Tree, plainTexts (allSpelledOut trees) = plainTexts trees
  | [] => by rw [allSpelledOut]
  | tree :: rest => by
    rw [allSpelledOut, plainTexts, plainTexts, plainText_spelledOut tree, plainTexts_allSpelledOut rest]

end

theorem autolink?_widened (url title : String) (span : Span) (children : List Tree) :
    autolink? url title (widened (.link url title) span) children = none := by
  rw [Option.eq_none_iff_forall_ne_some]
  intro label h
  obtain ⟨-, -, -, hfits, -⟩ := autolink?_eq_some_iff.mp h
  contradiction

/-- Every link is reported as a link, and all other elements are the same. -/
theorem describe_spelledOut (inHeader : Bool) (span : Span) (children : List Tree) (kind : Kind) :
    describe inHeader (widened kind span) (allSpelledOut children) kind =
      (describe inHeader span children kind).map Element.spelledOut := by
  cases kind with
  | link url title =>
    rw [describe, describe, autolink?_widened]
    cases h : autolink? url title span children with
    | none => rfl
    | some label =>
      obtain ⟨rfl, -⟩ := autolink?_eq_some_iff.mp h
      rfl
  | image url title =>
    rw [describe, describe, plainTexts_allSpelledOut]
    rfl
  | tableRow header => cases header <;> rfl
  | _ => rfl

/-! ## Steps -/

theorem spelledOut_of_ne_autoLink {e : Element} (h : ∀ url label, e ≠ .autoLink url label) :
    e.spelledOut = e ∧ (Event.enter e).spelledOut = [.enter e] ∧ (Event.exit e).spelledOut = [.exit e] := by
  cases e with
  | autoLink url label => exact absurd rfl (h url label)
  | _ => exact ⟨rfl, rfl, rfl⟩

theorem flatMap_spelledOut_leafEvents {e : Element} (h : ∀ url label, e ≠ .autoLink url label) :
    (leafEvents e).flatMap Event.spelledOut = leafEvents e := by
  obtain ⟨-, henter, hexit⟩ := spelledOut_of_ne_autoLink h
  simp [leafEvents, henter, hexit]

theorem flatMap_spelledOut_boxEvents (box : Option Bool) :
    (boxEvents box).flatMap Event.spelledOut = boxEvents box := by
  cases box with
  | none => rfl
  | some checked => exact flatMap_spelledOut_leafEvents (e := .taskCheckBox checked) nofun

theorem link_of_describe {inHeader : Bool} {span : Span} {children : List Tree} {kind : Kind}
    {url label : String} (h : describe inHeader span children kind = some (.autoLink url label)) :
    kind = .link url "" ∧ autolink? url "" span children = some label := by
  cases kind with
  | link url' title =>
    rw [describe] at h
    split at h
    · rename_i label' hlabel
      obtain ⟨rfl, rfl⟩ := Element.autoLink.inj (Option.some.inj h)
      obtain ⟨rfl, -⟩ := autolink?_eq_some_iff.mp hlabel
      exact ⟨rfl, hlabel⟩
    · simp at h
  | tableRow header => cases header <;> simp [describe] at h
  | _ => simp [describe] at h

theorem childrenEvents_textLeaf (status : Element → Status) (inHeader : Bool) (label : String) (place : Span) :
    childrenEvents status inHeader [.node (.text label) place []] = leafEvents (.text label false) := by
  rw [childrenEvents, childrenEvents, eventsFrom.eq_def]
  cases h : status (.text label false) <;> simp [describe, h, leafEvents, boxEvents, childrenEvents]

/-- In an autolink there is nothing but its label. -/
theorem childrenEvents_of_autolink (status : Element → Status) {url title label : String} {span : Span}
    {children : List Tree} (h : autolink? url title span children = some label)
    (hall : allOf Kind.isTextLeaf children) :
    childrenEvents status false (allSpelledOut children) = leafEvents (.text label false) := by
  obtain ⟨-, -, -, -, place, below, rfl⟩ := autolink?_eq_some_iff.mp h
  obtain rfl : below = [] := List.isEmpty_iff.mp (all_node.mp (allOf_cons.mp hall).1).1
  exact childrenEvents_textLeaf status false label place

/-- The visitor asks for what is inside of a link, but not of an autolink. -/
structure EntersLinks (status : Element → Status) : Prop where
  link : ∀ url title, status (.link url title) = .descend
  autoLink : ∀ url label, status (.autoLink url label) = .skip

variable {status : Element → Status}

mutual

theorem eventsFrom_spelledOut (hstatus : EntersLinks status) (inHeader : Bool) (box : Option Bool) :
    ∀ tree : Tree, tree.all Kind.isTextLeaf → (∀ checked, box = some checked → tree.kind = .paragraph) →
    eventsFrom status inHeader box tree.spelledOut =
      (eventsFrom status inHeader box tree).flatMap Event.spelledOut
  | .node kind span children, htexts, hbox => by
    obtain ⟨-, hall⟩ := all_node.mp htexts
    rw [spelledOut, eventsFrom.eq_def, eventsFrom.eq_def]
    dsimp only
    rw [describe_spelledOut]
    cases hdescribe : describe inHeader span children kind with
    | none =>
      cases kind with
      | extension e =>
        dsimp only [Option.map]
        split
        · rfl
        · exact childrenEvents_spelledOut hstatus false children hall
      | _ => rfl
    | some element =>
      by_cases hlabel : ∃ url label, element = .autoLink url label
      · obtain ⟨url, label, rfl⟩ := hlabel
        obtain ⟨rfl, hlabel⟩ := link_of_describe hdescribe
        obtain rfl : box = none := by
          rw [Option.eq_none_iff_forall_ne_some]
          exact fun checked h => nomatch hbox checked h
        simp only [Option.map, Element.spelledOut, hstatus.link, hstatus.autoLink]
        show .enter (.link url "") :: childrenEvents status false (allSpelledOut children) ++
            [.exit (.link url "")] = _
        rw [childrenEvents_of_autolink status hlabel hall]
        rfl
      · have hne : ∀ url label, element ≠ .autoLink url label := fun url label h => hlabel ⟨url, label, h⟩
        obtain ⟨helement, henter, hexit⟩ := spelledOut_of_ne_autoLink hne
        dsimp only [Option.map]
        rw [helement, List.flatMap_append, List.flatMap_cons, henter, List.flatMap_singleton, hexit]
        refine congrArg (fun inside : List Event => Event.enter element :: inside ++ [Event.exit element]) ?_
        cases status element with
        | skip => rfl
        | descend =>
          dsimp only
          rw [List.flatMap_append, flatMap_spelledOut_boxEvents]
          refine congrArg (boxEvents box ++ ·) ?_
          split
          · exact (flatMap_spelledOut_leafEvents (e := .literal _) nofun).symm
          · exact itemEvents_spelledOut hstatus _ children hall
          · exact childrenEvents_spelledOut hstatus _ children hall

theorem childrenEvents_spelledOut (hstatus : EntersLinks status) (inHeader : Bool) : ∀ trees : List Tree,
    allOf Kind.isTextLeaf trees →
    childrenEvents status inHeader (allSpelledOut trees) =
      (childrenEvents status inHeader trees).flatMap Event.spelledOut
  | [], _ => rfl
  | tree :: rest, h => by
    obtain ⟨htree, hrest⟩ := allOf_cons.mp h
    rw [allSpelledOut, childrenEvents, childrenEvents, List.flatMap_append,
      eventsFrom_spelledOut hstatus inHeader none tree htree nofun,
      childrenEvents_spelledOut hstatus inHeader rest hrest]

theorem itemEvents_spelledOut (hstatus : EntersLinks status) (checked : Bool) : ∀ trees : List Tree,
    allOf Kind.isTextLeaf trees →
    itemEvents status checked (allSpelledOut trees) =
      (itemEvents status checked trees).flatMap Event.spelledOut
  | [], _ => rfl
  | tree :: rest, h => by
    obtain ⟨htree, hrest⟩ := allOf_cons.mp h
    rw [allSpelledOut, itemEvents, itemEvents, kind_spelledOut]
    split
    · rename_i hkind
      rw [List.flatMap_append, eventsFrom_spelledOut hstatus false (some checked) tree htree fun _ _ => hkind,
        childrenEvents_spelledOut hstatus false rest hrest]
    · rw [List.flatMap_append, eventsFrom_spelledOut hstatus false none tree htree nofun,
        itemEvents_spelledOut hstatus checked rest hrest]

end

end Tree

end Adf.Markdown
