import Adf.Markdown.Walk

/-!
# The steps of a walk

A visitor whose answers depend on nothing but the element is told the same steps whatever it does with them.
`Tree.events` lists these steps, and `walk_ofStep` says that a walk takes them in one after the other. Every
element that is entered comes from a node of the tree (`entered_of_mem_events`).
-/

namespace Adf.Markdown

/-- A visitor that answers by the element alone and takes in every step with `step`. -/
def Visitor.ofStep {σ : Type} (status : Element → Status) (step : σ → Event → σ) :
    Visitor (StateM σ) where
  enter e := do
    modify (step · (.enter e))
    return status e
  exit e := modify (step · (.exit e))

namespace Tree

/-- An element that is entered and left at once. -/
def leafEvents (e : Element) : List Event := [.enter e, .exit e]

def boxEvents (box : Option Bool) : List Event :=
  match box with
  | some checked => leafEvents (.taskCheckBox checked)
  | none => []

variable (status : Element → Status)

mutual

/-- The steps of a walk over a tree; `box` is the check box that is due at the beginning of it. -/
def eventsFrom (inHeader : Bool) (box : Option Bool) : Tree → List Event
  | .node kind span children =>
    match describe inHeader span children kind with
    | none =>
      match kind with
      | .extension e => if e.isBlock then [] else childrenEvents false children
      | _ => []
    | some element =>
      .enter element ::
        (match status element with
        | .skip => []
        | .descend =>
          boxEvents box ++
            match kind with
            | .code literal => leafEvents (.literal literal)
            | .taskItem checked => itemEvents checked children
            | _ => childrenEvents (kind = .tableRow true) children) ++
        [.exit element]

def childrenEvents (inHeader : Bool) : List Tree → List Event
  | [] => []
  | tree :: rest => eventsFrom inHeader none tree ++ childrenEvents inHeader rest

/-- The steps through the children of a task item until its check box has been placed, and on. -/
def itemEvents (checked : Bool) : List Tree → List Event
  | [] => []
  | tree :: rest =>
    if tree.kind = .paragraph then eventsFrom false (some checked) tree ++ childrenEvents false rest
    else eventsFrom false none tree ++ itemEvents checked rest

end

def events (tree : Tree) : List Event := eventsFrom status false none tree

/-! ## A walk is a fold over its steps -/

variable {σ : Type} (step : σ → Event → σ)

theorem visitLeaf_ofStep (e : Element) (s : σ) :
    (visitLeaf (.ofStep status step) e).run s = pure ((), (leafEvents e).foldl step s) := rfl

mutual

theorem walkFrom_ofStep (inHeader : Bool) (box : Option Bool) : ∀ (tree : Tree) (s : σ),
    (walkFrom (.ofStep status step) inHeader box tree).run s =
      pure ((), (eventsFrom status inHeader box tree).foldl step s)
  | .node kind span children, s => by
    rw [walkFrom.eq_def, eventsFrom.eq_def]
    dsimp only
    cases describe inHeader span children kind with
    | none =>
      cases kind with
      | extension e =>
        dsimp only
        cases e.isBlock
        · exact walkChildren_ofStep false children s
        · rfl
      | _ => rfl
    | some element =>
      have henter : ((Visitor.ofStep status step).enter element).run s =
          pure (status element, step s (.enter element)) := rfl
      dsimp only
      rw [StateT.run_bind, henter, pure_bind, List.foldl_append, List.foldl_cons]
      dsimp only
      cases status element with
      | skip => rfl
      | descend =>
        have hexit (t : σ) : ((Visitor.ofStep status step).exit element).run t =
            pure ((), step t (.exit element)) := rfl
        cases kind with
        | code literal => cases box <;> rfl
        | taskItem checked =>
          cases box <;>
            simp [boxEvents, List.foldl_append, visitLeaf_ofStep, walkItem_ofStep checked children, hexit]
        | _ =>
          cases box <;>
            simp [boxEvents, List.foldl_append, visitLeaf_ofStep, walkChildren_ofStep _ children, hexit]

theorem walkChildren_ofStep (inHeader : Bool) : ∀ (trees : List Tree) (s : σ),
    (walkChildren (.ofStep status step) inHeader trees).run s =
      pure ((), (childrenEvents status inHeader trees).foldl step s)
  | [], s => rfl
  | tree :: rest, s => by
    rw [walkChildren, childrenEvents, List.foldl_append, StateT.run_bind, walkFrom_ofStep, pure_bind,
      walkChildren_ofStep]

theorem walkItem_ofStep (checked : Bool) : ∀ (trees : List Tree) (s : σ),
    (walkItem (.ofStep status step) checked trees).run s =
      pure ((), (itemEvents status checked trees).foldl step s)
  | [], s => rfl
  | tree :: rest, s => by
    rw [walkItem, itemEvents]
    split
    · rw [StateT.run_bind, walkFrom_ofStep, pure_bind, walkChildren_ofStep, List.foldl_append]
    · rw [StateT.run_bind, walkFrom_ofStep, pure_bind, walkItem_ofStep, List.foldl_append]

end

theorem walk_ofStep (tree : Tree) (s : σ) :
    (walk (.ofStep status step) tree).run s = pure ((), (events status tree).foldl step s) :=
  walkFrom_ofStep status step false none tree s

/-! ## Where an element comes from -/

mutual

/-- A tree and all that are in it. -/
def nodes : Tree → List Tree
  | .node kind span children => .node kind span children :: listNodes children

def listNodes : List Tree → List Tree
  | [] => []
  | tree :: rest => nodes tree ++ listNodes rest

end

/-- The element describes one of the trees, or it is a part of one: a check box or what a code span holds. -/
inductive Entered (trees : List Tree) : Element → Prop
  | described {tree : Tree} {inHeader : Bool} {element : Element} (mem : tree ∈ trees)
      (h : describe inHeader tree.span tree.children tree.kind = some element) : Entered trees element
  | box (checked : Bool) : Entered trees (.taskCheckBox checked)
  | literal (value : String) : Entered trees (.literal value)

theorem Entered.mono {trees more : List Tree} {e : Element} (h : Entered trees e) (hsub : trees ⊆ more) :
    Entered more e := by
  cases h with
  | described mem h => exact .described (hsub mem) h
  | box checked => exact .box checked
  | literal value => exact .literal value

theorem entered_of_mem_leafEvents {trees : List Tree} {e leaf : Element} (h : .enter e ∈ leafEvents leaf)
    (hleaf : Entered trees leaf) : Entered trees e := by
  obtain rfl : e = leaf := by simpa [leafEvents] using h
  exact hleaf

theorem entered_of_mem_boxEvents {trees : List Tree} {e : Element} {box : Option Bool}
    (h : .enter e ∈ boxEvents box) : Entered trees e := by
  cases box with
  | none => contradiction
  | some checked => exact entered_of_mem_leafEvents h (.box checked)

mutual

theorem entered_of_mem_eventsFrom {e : Element} (inHeader : Bool) (box : Option Bool) : ∀ tree : Tree,
    .enter e ∈ eventsFrom status inHeader box tree → Entered tree.nodes e
  | .node kind span children, h => by
    have hinside : Entered (listNodes children) e → Entered (nodes (.node kind span children)) e := by
      intro hentered
      rw [nodes]
      exact hentered.mono (List.subset_cons_self _ _)
    rw [eventsFrom.eq_def] at h
    dsimp only at h
    cases hdescribe : describe inHeader span children kind with
    | none =>
      rw [hdescribe] at h
      cases kind with
      | extension x =>
        dsimp only at h
        split at h
        · contradiction
        · exact hinside (entered_of_mem_childrenEvents false children h)
      | _ => contradiction
    | some element =>
      rw [hdescribe] at h
      dsimp only at h
      -- the element itself, the check box, what is inside, and the exit, which enters nothing
      rcases List.mem_append.mp h with h | hexit
      · rcases List.mem_cons.mp h with henter | h
        · obtain rfl := Event.enter.inj henter
          rw [nodes]
          exact .described List.mem_cons_self hdescribe
        · split at h
          · contradiction
          · rcases List.mem_append.mp h with hbox | h
            · exact entered_of_mem_boxEvents hbox
            · split at h
              · exact entered_of_mem_leafEvents h (.literal _)
              · exact hinside (entered_of_mem_itemEvents _ children h)
              · exact hinside (entered_of_mem_childrenEvents _ children h)
      · exact nomatch List.mem_singleton.mp hexit

theorem entered_of_mem_childrenEvents {e : Element} (inHeader : Bool) : ∀ trees : List Tree,
    .enter e ∈ childrenEvents status inHeader trees → Entered (listNodes trees) e
  | [], h => nomatch h
  | tree :: rest, h => by
    rw [listNodes]
    rw [childrenEvents] at h
    rcases List.mem_append.mp h with hfirst | hrest
    · exact (entered_of_mem_eventsFrom inHeader none tree hfirst).mono (List.subset_append_left _ _)
    · exact (entered_of_mem_childrenEvents inHeader rest hrest).mono (List.subset_append_right _ _)

theorem entered_of_mem_itemEvents {e : Element} (checked : Bool) : ∀ trees : List Tree,
    .enter e ∈ itemEvents status checked trees → Entered (listNodes trees) e
  | [], h => nomatch h
  | tree :: rest, h => by
    rw [listNodes]
    rw [itemEvents] at h
    split at h
    · rcases List.mem_append.mp h with hfirst | hrest
      · exact (entered_of_mem_eventsFrom false _ tree hfirst).mono (List.subset_append_left _ _)
      · exact (entered_of_mem_childrenEvents false rest hrest).mono (List.subset_append_right _ _)
    · rcases List.mem_append.mp h with hfirst | hrest
      · exact (entered_of_mem_eventsFrom false _ tree hfirst).mono (List.subset_append_left _ _)
      · exact (entered_of_mem_itemEvents checked rest hrest).mono (List.subset_append_right _ _)

end

/-- **An element that is entered** describes a node of the tree, or it is a part of one. -/
theorem entered_of_mem_events {tree : Tree} {e : Element} (h : .enter e ∈ tree.events status) :
    Entered tree.nodes e :=
  entered_of_mem_eventsFrom status false none tree h

end Tree

end Adf.Markdown
