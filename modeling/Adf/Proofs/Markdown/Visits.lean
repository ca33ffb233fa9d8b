import Adf.Markdown.Walk
import Adf.Proofs.Indices
import Adf.Proofs.Markdown.Balance

/-!
# Visits to the nodes of a tree

Two nodes of a tree may have the same element, so the visits of a walk are told apart by positions: a visit is at
the position of a node, and it enters or leaves the element of the node, its check box or its literal. The
visits to a node are those to its root and those to its children, one child after the other (`joined`).
-/

namespace Adf.Markdown

/-! ## Places -/

/-- The way to a node: at every step the index of a child. -/
abbrev Position := List Nat

/-- A tree and what a walk takes over from its parent. -/
structure Place where
  /-- Whether the parent is the header row of a table. -/
  inHeader : Bool
  /-- The check box of the parent, if it is a task item and the tree is its first paragraph. -/
  box : Option Bool
  tree : Tree

namespace Place

/-- A tree without a parent. -/
def top (tree : Tree) : Place where
  inHeader := false
  box := none
  tree := tree

def element? (place : Place) : Option Element :=
  Tree.describe place.inHeader place.tree.span place.tree.children place.tree.kind

/-- What is reported of a node besides its element: the content of a code span, or a check box. -/
inductive Holds (place : Place) : Element → Prop
  | literal {value : String} (hkind : place.tree.kind = .code value) : Holds place (.literal value)
  | box {checked : Bool} (hbox : place.box = some checked) : Holds place (.taskCheckBox checked)

/-- The check box for the child at an index: that of a task item is for the first paragraph. -/
def boxFor (place : Place) (i : Nat) : Option Bool :=
  match place.tree.kind with
  | .taskItem checked =>
    if place.tree.children.findIdx (·.kind = .paragraph) = i then some checked else none
  | _ => none

/-- The child at an index, with what it takes over. -/
def below (place : Place) (i : Nat) (child : Tree) : Place where
  inHeader := place.tree.kind = .tableRow true
  box := place.boxFor i
  tree := child

def child? (place : Place) (i : Nat) : Option Place :=
  place.tree.children[i]?.map (place.below i)

/-- The children that are walked; those of a code span are not. -/
def inner (place : Place) : List Tree :=
  match place.tree.kind with
  | .code _ => []
  | _ => place.tree.children

def at? : Place → Position → Option Place
  | place, [] => some place
  | place, i :: p => (place.child? i).bind fun child => child.at? p

variable {place : Place}

@[simp] theorem at?_nil : place.at? [] = some place := rfl

@[simp] theorem at?_cons {i : Nat} {p : Position} :
    place.at? (i :: p) = (place.child? i).bind fun child => child.at? p := rfl

theorem isSome_child?_iff {i : Nat} : (place.child? i).isSome ↔ i < place.tree.children.length := by
  simp [child?]

theorem inner_eq (place : Place) :
    (∃ value, place.tree.kind = .code value) ∧ place.inner = [] ∨
      (∀ value, place.tree.kind ≠ .code value) ∧ place.inner = place.tree.children := by
  rw [inner]
  cases place.tree.kind with
  | code value => exact .inl ⟨⟨value, rfl⟩, rfl⟩
  | _ => exact .inr ⟨nofun, rfl⟩

theorem exists_child_of_lt_inner {i : Nat} (h : i < place.inner.length) :
    ∃ child, place.child? i = some child := by
  apply Option.isSome_iff_exists.mp
  apply isSome_child?_iff.mpr
  rcases place.inner_eq with ⟨-, hinner⟩ | ⟨-, hinner⟩
  · rw [hinner] at h
    contradiction
  · rwa [hinner] at h

/-- Nothing but extensions has no element. -/
theorem element?_eq_none_iff : place.element? = none ↔ ∃ x, place.tree.kind = .extension x := by
  rw [element?]
  cases place.tree.kind with
  | link url title =>
    rw [Tree.describe]
    split <;> simp
  | tableRow header => cases header <;> simp [Tree.describe]
  | _ => simp [Tree.describe]

/-- What a node holds is not the element of any node. -/
theorem Holds.ne_element {other : Place} {e own : Element} (h : place.Holds own)
    (helement : other.element? = some e) : e ≠ own := by
  rintro rfl
  rw [element?] at helement
  cases hkind : other.tree.kind with
  | link url title =>
    rw [hkind, Tree.describe] at helement
    split at helement <;> cases helement <;> cases h
  | tableRow header =>
    rw [hkind] at helement
    cases header <;> cases helement <;> cases h
  | _ =>
    rw [hkind] at helement
    cases helement <;> cases h

end Place

/-! ## Visits -/

inductive Visit where
  /-- The answer tells how the walk goes on. -/
  | enter (position : Position) (element : Element) (answer : Status)
  | exit (position : Position) (element : Element)

namespace Visit

def position : Visit → Position
  | enter p _ _ | exit p _ => p

/-- The visit as one to a tree of which the tree is the child at an index. -/
def within (i : Nat) : Visit → Visit
  | enter p e answer => enter (i :: p) e answer
  | exit p e => exit (i :: p) e

/-- What is entered, and where. -/
def entered? : Visit → Option (Position × Element)
  | enter p e _ => some (p, e)
  | exit _ _ => none

theorem position_within (i : Nat) (v : Visit) : (v.within i).position = i :: v.position := by
  cases v <;> rfl

theorem position_of_entered? {v : Visit} {a : Position × Element} (h : v.entered? = some a) :
    v.position = a.1 := by
  cases v with
  | enter p e answer => exact congrArg Prod.fst (Option.some.inj h)
  | exit p e => contradiction

/-- A visit that enters an element is ended by the one that leaves the same element at the same position. -/
inductive Ends : Visit → Visit → Prop
  | leave (p : Position) (e : Element) (answer : Status) : Ends (enter p e answer) (exit p e)

theorem Ends.within {x y : Visit} (i : Nat) (h : Ends x y) : Ends (x.within i) (y.within i) := by
  cases h
  exact .leave ..

end Visit

/-- Visits to an element that is left at once. -/
def leafVisits (e : Element) (answer : Status) : List Visit := [.enter [] e answer, .exit [] e]

/-- Visits around those to what is inside of an element. -/
def around (e : Element) (inside : List Visit) : List Visit :=
  .enter [] e .descend :: inside ++ [.exit [] e]

/-- The visits to the children of a node, one child after the other. -/
def joined (parts : List (List Visit)) : List Visit :=
  parts.zipIdx.flatMap fun (part, i) => part.map (Visit.within i)

theorem mem_joined {v : Visit} {parts : List (List Visit)} :
    v ∈ joined parts ↔
      ∃ (i : Nat) (part : List Visit), parts[i]? = some part ∧ ∃ w ∈ part, w.within i = v := by
  simp only [joined, List.mem_flatMap, List.mem_map, Prod.exists, List.mem_zipIdx_iff_getElem?]
  exact exists_comm

theorem enter_nil_not_mem_joined {e : Element} {answer : Status} {parts : List (List Visit)} :
    .enter [] e answer ∉ joined parts := by
  intro h
  obtain ⟨i, part, -, w, -, hwithin⟩ := mem_joined.mp h
  cases w <;> cases hwithin

theorem enter_cons_mem_joined {i : Nat} {p : Position} {e : Element} {answer : Status}
    {parts : List (List Visit)} :
    .enter (i :: p) e answer ∈ joined parts ↔
      ∃ part, parts[i]? = some part ∧ .enter p e answer ∈ part := by
  rw [mem_joined]
  constructor
  · rintro ⟨j, part, hpart, w, hmem, hwithin⟩
    cases w with
    | enter q e answer =>
      cases hwithin
      exact ⟨part, hpart, hmem⟩
    | exit q e => contradiction
  · rintro ⟨part, hpart, hmem⟩
    exact ⟨i, part, hpart, _, hmem, rfl⟩

theorem balanced_joined {parts : List (List Visit)}
    (hparts : ∀ (i : Nat) part, parts[i]? = some part → Balanced Visit.Ends part) :
    Balanced Visit.Ends (joined parts) := by
  apply Balanced.flatMap
  rintro ⟨part, i⟩ hmem
  exact (hparts i part (List.mem_zipIdx_iff_getElem?.mp hmem)).map fun h => h.within i

/-! ## In turn -/

/-- Positions in the order in which the nodes begin in a document; at one position nothing twice. -/
def InTurn (a b : Position × Element) : Prop :=
  a.1 < b.1 ∨ a.1 = b.1 ∧ a.2 ≠ b.2

theorem InTurn.cons {a b : Position × Element} (i : Nat) (h : InTurn a b) :
    InTurn (i :: a.1, a.2) (i :: b.1, b.2) := by
  rcases h with hlt | ⟨heq, hne⟩
  · exact .inl (List.cons_lt_cons_iff.mpr (.inr ⟨rfl, hlt⟩))
  · exact .inr ⟨congrArg (i :: ·) heq, hne⟩

theorem filterMap_entered?_within (i : Nat) (visits : List Visit) :
    (visits.map (Visit.within i)).filterMap Visit.entered? =
      (visits.filterMap Visit.entered?).map fun (p, e) => (i :: p, e) := by
  rw [List.filterMap_map, List.map_filterMap]
  congr 1
  funext v
  cases v <;> rfl

theorem pairwise_inTurn_joined {parts : List (List Visit)}
    (hparts : ∀ (i : Nat) part, parts[i]? = some part → (part.filterMap Visit.entered?).Pairwise InTurn) :
    ((joined parts).filterMap Visit.entered?).Pairwise InTurn := by
  rw [joined, List.filterMap_flatMap, List.pairwise_flatMap]
  constructor
  · rintro ⟨part, i⟩ hmem
    rw [filterMap_entered?_within, List.pairwise_map]
    exact (hparts i part (List.mem_zipIdx_iff_getElem?.mp hmem)).imp fun h => h.cons i
  · -- of two children the first one has the smaller index
    refine (pairwise_zipIdx_lt parts 0).imp ?_
    rintro ⟨part, i⟩ ⟨later, j⟩ hlt a ha b hb
    rw [filterMap_entered?_within] at ha hb
    obtain ⟨a, -, rfl⟩ := List.mem_map.mp ha
    obtain ⟨b, -, rfl⟩ := List.mem_map.mp hb
    exact .inl (List.cons_lt_cons_iff.mpr (.inl hlt))

theorem inTurn_of_mem_joined {parts : List (List Visit)} {e : Element} {a : Position × Element}
    (h : a ∈ (joined parts).filterMap Visit.entered?) : InTurn ([], e) a := by
  obtain ⟨v, hv, hentered⟩ := List.mem_filterMap.mp h
  obtain ⟨i, part, -, w, -, rfl⟩ := mem_joined.mp hv
  have hposition := Visit.position_of_entered? hentered
  rw [Visit.position_within] at hposition
  refine .inl ?_
  rw [← hposition]
  exact List.nil_lt_cons i w.position

/-- The visits to one child are together, and none of the others is to that child. -/
theorem exists_joined_eq {i : Nat} {part : List Visit} {parts : List (List Visit)}
    (hpart : parts[i]? = some part) :
    ∃ before after, joined parts = before ++ part.map (Visit.within i) ++ after ∧
      ∀ v ∈ before ++ after, ¬[i] <+: v.position := by
  have hmem : (part, i) ∈ parts.zipIdx := List.mem_zipIdx_iff_getElem?.mpr hpart
  obtain ⟨first, last, hsplit⟩ := List.append_of_mem hmem
  have hother : ∀ x ∈ first ++ last, x.2 ≠ i := by
    have hpairwise := pairwise_zipIdx_lt parts 0
    rw [hsplit, List.pairwise_append, List.pairwise_cons] at hpairwise
    obtain ⟨-, ⟨hlast, -⟩, hfirst⟩ := hpairwise
    intro x hx
    rcases List.mem_append.mp hx with hx | hx
    · exact Nat.ne_of_lt (hfirst x hx _ List.mem_cons_self)
    · exact Nat.ne_of_gt (hlast x hx)
  refine ⟨_, _, by rw [joined, hsplit, List.flatMap_append, List.flatMap_cons, List.append_assoc], ?_⟩
  intro v hv hprefix
  rw [← List.flatMap_append] at hv
  obtain ⟨x, hx, hv⟩ := List.mem_flatMap.mp hv
  obtain ⟨w, -, rfl⟩ := List.mem_map.mp hv
  rw [Visit.position_within] at hprefix
  exact hother x hx (List.cons_prefix_cons.mp hprefix).1.symm

end Adf.Markdown
