import Adf.Proofs.Markdown.Visits

/-!
# The visits of a walk

Which visits a walk makes depends on what the visitor answers to them; `Traversal` lists all possibilities. All
of them are `Faithful`: what is entered, in which order and how often, and what is inside of it, follows from
the tree and the answers.
-/

namespace Adf.Markdown

/-! ## What a walk visits -/

/-- The visits to what a node holds. -/
inductive OwnVisits (place : Place) : List Visit → Prop
  | nothing (hnone : ∀ e, ¬place.Holds e) : OwnVisits place []
  | one {own : Element} (hholds : place.Holds own) (honly : ∀ e, place.Holds e → e = own) (answer : Status) :
      OwnVisits place (leafVisits own answer)

/-- The visits that a walk can make to a tree, by the answers to them. -/
inductive Traversal : Place → List Visit → Prop
  /-- A block without an element is passed over. -/
  | passed {place : Place} {x : Extension} (hkind : place.tree.kind = .extension x) (hblock : x.isBlock = true) :
      Traversal place []
  /-- An inline without an element gives way to its children. -/
  | unwrapped {place : Place} {x : Extension} {parts : List (List Visit)}
      (hkind : place.tree.kind = .extension x) (hinline : x.isBlock = false)
      (hlength : parts.length = place.tree.children.length)
      (hparts : ∀ (i : Nat) child part, place.child? i = some child → parts[i]? = some part →
        Traversal child part) :
      Traversal place (joined parts)
  | skipped {place : Place} {e : Element} (helement : place.element? = some e) :
      Traversal place (leafVisits e .skip)
  /-- What the node holds comes before its children; a code span has none. -/
  | entered {place : Place} {e : Element} {own : List Visit} {parts : List (List Visit)}
      (helement : place.element? = some e) (hown : OwnVisits place own)
      (hlength : parts.length = place.inner.length)
      (hparts : ∀ (i : Nat) child part, place.child? i = some child → parts[i]? = some part →
        Traversal child part) :
      Traversal place (around e (own ++ joined parts))

/-! ## What is visited -/

/-- The node at a position does not keep a walk from its children: if it has an element, the visitor has asked
for them; it is no code span; and it is no block without an element. -/
structure Admits (visits : List Visit) (p : Position) (here : Place) : Prop where
  element : ∀ e, here.element? = some e → .enter p e .descend ∈ visits
  noSpan : ∀ value, here.tree.kind ≠ .code value
  noBlock : ∀ x, here.tree.kind = .extension x → x.isBlock = false

/-- No node around the one at the position keeps a walk from it. -/
def Open (place : Place) (visits : List Visit) (p : Position) : Prop :=
  ∀ q here, q <+: p → q ≠ p → place.at? q = some here → Admits visits q here

/-- The element of the node at a position has been entered, and the visitor has asked for what is inside. -/
def Descended (place : Place) (visits : List Visit) (p : Position) : Prop :=
  ∃ here e, place.at? p = some here ∧ here.element? = some e ∧ .enter p e .descend ∈ visits

/-- What is to be entered at a position: the element of a node that nothing around it keeps a walk from, and
what a node holds whose element is entered for what is inside. -/
def Due (place : Place) (visits : List Visit) (p : Position) (e : Element) : Prop :=
  ∃ here, place.at? p = some here ∧
    (here.element? = some e ∧ Open place visits p ∨ here.Holds e ∧ Descended place visits p)

/-- The visits are those that the tree and the answers call for. -/
structure Faithful (place : Place) (visits : List Visit) : Prop where
  /-- What is entered is left again, and what is entered in between is left before. -/
  balanced : Balanced Visit.Ends visits
  /-- Nothing is entered twice, and nothing before what comes earlier in the document. -/
  inTurn : (visits.filterMap Visit.entered?).Pairwise InTurn
  /-- All that is due is entered, and nothing else. -/
  entered_iff : ∀ p e, (∃ answer, .enter p e answer ∈ visits) ↔ Due place visits p e
  /-- From the entrance of a node to its exit there are the visits to all that is in it, and no others. -/
  enclosed : ∀ p here e answer, place.at? p = some here → here.element? = some e →
    .enter p e answer ∈ visits →
    ∃ before inside after, visits = before ++ (.enter p e answer :: inside ++ [.exit p e]) ++ after ∧
      (∀ v ∈ inside, p <+: v.position) ∧ ∀ v ∈ before ++ after, ¬p <+: v.position
  /-- What a node holds comes right after its element is entered. -/
  held : ∀ p here e own, place.at? p = some here → here.element? = some e → here.Holds own →
    .enter p e .descend ∈ visits →
    ∃ answer, [.enter p e .descend, .enter p own answer, .exit p own] <:+: visits

section

variable {place : Place} {visits : List Visit}

theorem due_nil_iff {e : Element} : Due place visits [] e ↔
    place.element? = some e ∨
      place.Holds e ∧ ∃ e', place.element? = some e' ∧ .enter [] e' .descend ∈ visits := by
  have hopen : Open place visits [] := fun q here hprefix hne _ => absurd (List.prefix_nil.mp hprefix) hne
  simp [Due, Descended, hopen]

/-- No walk gets from a node to its children unless the node admits it. -/
theorem not_due_cons {i : Nat} {p : Position} {e : Element} (hadmits : ¬Admits visits [] place)
    (hinside : ∀ e answer, .enter (i :: p) e answer ∉ visits) : ¬Due place visits (i :: p) e := by
  rintro ⟨here, -, ⟨-, hopen⟩ | ⟨-, -, e', -, -, hdescend⟩⟩
  · exact hadmits (hopen [] place List.nil_prefix (List.cons_ne_nil i p).symm rfl)
  · exact hinside e' .descend hdescend

/-! ### Children -/

/-- The visits below the root of a tree are those to its children. -/
structure Inside (place : Place) (visits : List Visit) (parts : List (List Visit)) : Prop where
  length : parts.length = place.tree.children.length
  enter_iff : ∀ {i : Nat} {p e answer}, .enter (i :: p) e answer ∈ visits ↔
    ∃ part, parts[i]? = some part ∧ .enter p e answer ∈ part
  part : ∀ {i : Nat} {part : List Visit}, parts[i]? = some part →
    ∃ before after, visits = before ++ part.map (Visit.within i) ++ after ∧
      ∀ v ∈ before ++ after, ¬[i] <+: v.position

namespace Inside

variable {parts : List (List Visit)} {i : Nat} {p : Position} {child : Place} {part : List Visit}

theorem exists_part (h : Inside place visits parts) (hchild : place.child? i = some child) :
    ∃ part, parts[i]? = some part := by
  have hi := Place.isSome_child?_iff.mp (Option.isSome_of_eq_some hchild)
  rw [← h.length] at hi
  exact ⟨parts[i], List.getElem?_eq_getElem hi⟩

theorem exists_child (h : Inside place visits parts) (hpart : parts[i]? = some part) :
    ∃ child, place.child? i = some child := by
  obtain ⟨hi, -⟩ := List.getElem?_eq_some_iff.mp hpart
  rw [h.length] at hi
  exact Option.isSome_iff_exists.mp (Place.isSome_child?_iff.mpr hi)

theorem enter_cons_iff (h : Inside place visits parts) (hpart : parts[i]? = some part) {e : Element}
    {answer : Status} : .enter (i :: p) e answer ∈ visits ↔ .enter p e answer ∈ part := by
  rw [h.enter_iff, hpart]
  simp

theorem admits_cons_iff (h : Inside place visits parts) (hpart : parts[i]? = some part) {here : Place} :
    Admits visits (i :: p) here ↔ Admits part p here := by
  have henter : ∀ e, .enter (i :: p) e .descend ∈ visits ↔ .enter p e .descend ∈ part :=
    fun e => h.enter_cons_iff hpart
  constructor
  · rintro ⟨helement, hspan, hblock⟩
    exact ⟨fun e he => (henter e).mp (helement e he), hspan, hblock⟩
  · rintro ⟨helement, hspan, hblock⟩
    exact ⟨fun e he => (henter e).mpr (helement e he), hspan, hblock⟩

theorem open_cons_iff (h : Inside place visits parts) (hadmits : Admits visits [] place)
    (hchild : place.child? i = some child) (hpart : parts[i]? = some part) :
    Open place visits (i :: p) ↔ Open child part p := by
  constructor
  · intro hopen q here hprefix hne hat
    apply (h.admits_cons_iff hpart).mp
    refine hopen (i :: q) here (List.cons_prefix_cons.mpr ⟨rfl, hprefix⟩) ?_ ?_
    · exact fun heq => hne (List.cons.inj heq).2
    · rw [Place.at?_cons, hchild]
      exact hat
  · intro hopen q here hprefix hne hat
    rcases List.prefix_cons_iff.mp hprefix with rfl | ⟨q, rfl, hq⟩
    · obtain rfl := Option.some.inj hat
      exact hadmits
    · rw [Place.at?_cons, hchild] at hat
      exact (h.admits_cons_iff hpart).mpr (hopen q here hq (fun heq => hne (congrArg _ heq)) hat)

theorem descended_cons_iff (h : Inside place visits parts) (hchild : place.child? i = some child)
    (hpart : parts[i]? = some part) : Descended place visits (i :: p) ↔ Descended child part p := by
  simp only [Descended, Place.at?_cons, hchild, Option.bind_some, h.enter_cons_iff hpart]

theorem due_cons_iff (h : Inside place visits parts) (hadmits : Admits visits [] place)
    (hchild : place.child? i = some child) (hpart : parts[i]? = some part) {e : Element} :
    Due place visits (i :: p) e ↔ Due child part p e := by
  simp only [Due, Place.at?_cons, hchild, Option.bind_some, h.open_cons_iff hadmits hchild hpart,
    h.descended_cons_iff hchild hpart]

/-- What is entered below the root is what is due there. -/
theorem entered_cons_iff (h : Inside place visits parts) (hadmits : Admits visits [] place)
    (hparts : ∀ (i : Nat) child part, place.child? i = some child → parts[i]? = some part →
      Faithful child part) {e : Element} :
    (∃ answer, .enter (i :: p) e answer ∈ visits) ↔ Due place visits (i :: p) e := by
  constructor
  · rintro ⟨answer, hmem⟩
    obtain ⟨part, hpart, hmem⟩ := h.enter_iff.mp hmem
    obtain ⟨child, hchild⟩ := h.exists_child hpart
    rw [h.due_cons_iff hadmits hchild hpart]
    exact ((hparts i child part hchild hpart).entered_iff p e).mp ⟨answer, hmem⟩
  · intro hdue
    obtain ⟨child, hchild⟩ : ∃ child, place.child? i = some child := by
      obtain ⟨here, hat, -⟩ := hdue
      obtain ⟨child, hchild, -⟩ := Option.bind_eq_some_iff.mp hat
      exact ⟨child, hchild⟩
    obtain ⟨part, hpart⟩ := h.exists_part hchild
    rw [h.due_cons_iff hadmits hchild hpart] at hdue
    obtain ⟨answer, hmem⟩ := ((hparts i child part hchild hpart).entered_iff p e).mpr hdue
    exact ⟨answer, (h.enter_cons_iff hpart).mpr hmem⟩

theorem held_cons (h : Inside place visits parts)
    (hparts : ∀ (i : Nat) child part, place.child? i = some child → parts[i]? = some part →
      Faithful child part) {here : Place} {e own : Element} (hat : place.at? (i :: p) = some here)
    (helement : here.element? = some e) (hholds : here.Holds own)
    (hdescend : .enter (i :: p) e .descend ∈ visits) :
    ∃ answer, [.enter (i :: p) e .descend, .enter (i :: p) own answer, .exit (i :: p) own] <:+: visits := by
  obtain ⟨part, hpart, hmem⟩ := h.enter_iff.mp hdescend
  obtain ⟨child, hchild⟩ := h.exists_child hpart
  rw [Place.at?_cons, hchild] at hat
  obtain ⟨answer, hfound⟩ := (hparts i child part hchild hpart).held p here e own hat helement hholds hmem
  obtain ⟨before, after, heq, -⟩ := h.part hpart
  refine ⟨answer, (hfound.map (Visit.within i)).trans ?_⟩
  rw [heq]
  exact List.infix_append _ _ _

theorem enclosed_cons (h : Inside place visits parts)
    (hparts : ∀ (i : Nat) child part, place.child? i = some child → parts[i]? = some part →
      Faithful child part) {here : Place} {e : Element} {answer : Status}
    (hat : place.at? (i :: p) = some here) (helement : here.element? = some e)
    (hmem : .enter (i :: p) e answer ∈ visits) :
    ∃ before inside after,
      visits = before ++ (.enter (i :: p) e answer :: inside ++ [.exit (i :: p) e]) ++ after ∧
        (∀ v ∈ inside, i :: p <+: v.position) ∧ ∀ v ∈ before ++ after, ¬i :: p <+: v.position := by
  obtain ⟨part, hpart, hmem⟩ := h.enter_iff.mp hmem
  obtain ⟨child, hchild⟩ := h.exists_child hpart
  rw [Place.at?_cons, hchild] at hat
  obtain ⟨before, inside, after, rfl, hinside, houtside⟩ :=
    (hparts i child _ hchild hpart).enclosed p here e answer hat helement hmem
  obtain ⟨first, last, rfl, hothers⟩ := h.part hpart
  refine ⟨first ++ before.map (Visit.within i), inside.map (Visit.within i), after.map (Visit.within i) ++ last,
    ?_, ?_, ?_⟩
  · simp [Visit.within]
  · intro v hv
    obtain ⟨w, hw, rfl⟩ := List.mem_map.mp hv
    rw [Visit.position_within]
    exact List.cons_prefix_cons.mpr ⟨rfl, hinside w hw⟩
  · -- a visit outside is to the same child but not to the node, or not to that child at all
    have hsame : ∀ w ∈ before ++ after, ¬i :: p <+: (w.within i).position := by
      intro w hw hprefix
      rw [Visit.position_within] at hprefix
      exact houtside w hw (List.cons_prefix_cons.mp hprefix).2
    have hother : ∀ v ∈ first ++ last, ¬i :: p <+: v.position :=
      fun v hv hprefix => hothers v hv ((List.prefix_append [i] p).trans hprefix)
    rw [List.forall_mem_append] at hsame hother
    simp only [List.forall_mem_append, List.forall_mem_map]
    exact ⟨⟨hother.1, hsame.1⟩, hsame.2, hother.2⟩

end Inside

/-! ### The root and what is below it -/

/-- The visits to the root of a tree are those that it calls for. -/
structure AtRoot (place : Place) (visits : List Visit) : Prop where
  entered_iff : ∀ e, (∃ answer, .enter [] e answer ∈ visits) ↔
    place.element? = some e ∨
      place.Holds e ∧ ∃ e', place.element? = some e' ∧ .enter [] e' .descend ∈ visits
  enclosed : ∀ e answer, place.element? = some e → .enter [] e answer ∈ visits →
    ∃ inside, visits = .enter [] e answer :: inside ++ [.exit [] e]
  held : ∀ e own, place.element? = some e → place.Holds own → .enter [] e .descend ∈ visits →
    ∃ answer, [.enter [] e .descend, .enter [] own answer, .exit [] own] <:+: visits

/-- How a walk goes on below the root: it goes no further, or to all children. -/
inductive Below (place : Place) (visits : List Visit) : Prop
  | nowhere (hadmits : ¬Admits visits [] place)
      (hnone : ∀ (i : Nat) p e answer, .enter (i :: p) e answer ∉ visits)
  | children {parts : List (List Visit)} (hadmits : Admits visits [] place)
      (hinside : Inside place visits parts)
      (hparts : ∀ (i : Nat) child part, place.child? i = some child → parts[i]? = some part →
        Faithful child part)

theorem faithful_of_root (hbalanced : Balanced Visit.Ends visits)
    (hinTurn : (visits.filterMap Visit.entered?).Pairwise InTurn) (hroot : AtRoot place visits)
    (hbelow : Below place visits) : Faithful place visits := by
  refine ⟨hbalanced, hinTurn, ?_, ?_, ?_⟩
  · intro p e
    cases p with
    | nil => exact (hroot.entered_iff e).trans due_nil_iff.symm
    | cons i p =>
      cases hbelow with
      | nowhere hadmits hnone =>
        refine iff_of_false ?_ (not_due_cons hadmits (hnone i p))
        rintro ⟨answer, hmem⟩
        exact hnone i p e answer hmem
      | children hadmits hinside hparts => exact hinside.entered_cons_iff hadmits hparts
  · intro p here e answer hat helement hmem
    cases p with
    | nil =>
      obtain rfl := Option.some.inj hat
      obtain ⟨inside, heq⟩ := hroot.enclosed e answer helement hmem
      refine ⟨[], inside, [], ?_, fun v _ => List.nil_prefix, List.forall_mem_nil _⟩
      rw [List.append_nil]
      exact heq
    | cons i p =>
      cases hbelow with
      | nowhere hadmits hnone => exact absurd hmem (hnone i p e answer)
      | children hadmits hinside hparts => exact hinside.enclosed_cons hparts hat helement hmem
  · intro p here e own hat helement hholds hdescend
    cases p with
    | nil =>
      obtain rfl := Option.some.inj hat
      exact hroot.held e own helement hholds hdescend
    | cons i p =>
      cases hbelow with
      | nowhere hadmits hnone => exact absurd hdescend (hnone i p e .descend)
      | children hadmits hinside hparts => exact hinside.held_cons hparts hat helement hholds hdescend

/-! ### Each kind of traversal -/

/-- At the root of a tree without an element nothing is visited. -/
theorem atRoot_of_not_mem (helement : place.element? = none) (h : ∀ e answer, .enter [] e answer ∉ visits) :
    AtRoot place visits where
  entered_iff := by simp [helement, h]
  enclosed := by simp [helement]
  held := by simp [helement]

theorem faithful_passed {x : Extension} (hkind : place.tree.kind = .extension x) (hblock : x.isBlock = true) :
    Faithful place [] := by
  have hnone : place.element? = none := Place.element?_eq_none_iff.mpr ⟨x, hkind⟩
  refine faithful_of_root .nil .nil (atRoot_of_not_mem hnone (by simp)) (.nowhere ?_ (by simp))
  intro hadmits
  rw [hadmits.noBlock x hkind] at hblock
  contradiction

theorem faithful_unwrapped {x : Extension} {parts : List (List Visit)} (hkind : place.tree.kind = .extension x)
    (hinline : x.isBlock = false) (hlength : parts.length = place.tree.children.length)
    (hparts : ∀ (i : Nat) child part, place.child? i = some child → parts[i]? = some part →
      Faithful child part) : Faithful place (joined parts) := by
  have hnone : place.element? = none := Place.element?_eq_none_iff.mpr ⟨x, hkind⟩
  have hinside : Inside place (joined parts) parts := ⟨hlength, enter_cons_mem_joined, exists_joined_eq⟩
  have hadmits : Admits (joined parts) [] place := by
    refine ⟨?_, ?_, ?_⟩
    · simp [hnone]
    · simp [hkind]
    · simp [hkind, hinline]
  have hpart : ∀ (i : Nat) part, parts[i]? = some part → ∃ child, Faithful child part := by
    intro i part hpart
    obtain ⟨child, hchild⟩ := hinside.exists_child hpart
    exact ⟨child, hparts i child part hchild hpart⟩
  refine faithful_of_root (balanced_joined ?_) (pairwise_inTurn_joined ?_)
    (atRoot_of_not_mem hnone fun _ _ => enter_nil_not_mem_joined) (.children hadmits hinside hparts)
  · intro i part h
    exact (hpart i part h).elim fun _ hfaithful => hfaithful.balanced
  · intro i part h
    exact (hpart i part h).elim fun _ hfaithful => hfaithful.inTurn

theorem faithful_skipped {e : Element} (helement : place.element? = some e) :
    Faithful place (leafVisits e .skip) := by
  refine faithful_of_root (.pair .nil (.leave ..)) (List.pairwise_singleton _ _) ⟨?_, ?_, ?_⟩
    (.nowhere ?_ (by simp [leafVisits]))
  · simp [leafVisits, helement, eq_comm]
  · intro e' answer helement' hmem
    obtain ⟨rfl, rfl⟩ : e' = e ∧ answer = .skip := by simpa [leafVisits] using hmem
    exact ⟨[], rfl⟩
  · simp [leafVisits]
  · intro hadmits
    simpa [leafVisits] using hadmits.element e helement

namespace OwnVisits

theorem literal {value : String} (hkind : place.tree.kind = .code value) (hbox : place.box = none)
    (answer : Status) : OwnVisits place (leafVisits (.literal value) answer) := by
  refine .one (.literal hkind) ?_ answer
  intro e h
  cases h with
  | literal hkind' =>
    cases hkind.symm.trans hkind'
    rfl
  | box hbox' =>
    rw [hbox] at hbox'
    contradiction

theorem noBox (hkind : ∀ value, place.tree.kind ≠ .code value) (hbox : place.box = none) :
    OwnVisits place [] := by
  apply OwnVisits.nothing
  intro e h
  cases h with
  | literal hkind' => exact hkind _ hkind'
  | box hbox' =>
    rw [hbox] at hbox'
    contradiction

theorem box {checked : Bool} (hkind : ∀ value, place.tree.kind ≠ .code value) (hbox : place.box = some checked)
    (answer : Status) : OwnVisits place (leafVisits (.taskCheckBox checked) answer) := by
  refine .one (.box hbox) ?_ answer
  intro e h
  cases h with
  | literal hkind' => exact absurd hkind' (hkind _)
  | box hbox' =>
    cases hbox.symm.trans hbox'
    rfl

variable {own : List Visit}

theorem enter_nil_iff (hown : OwnVisits place own) {e : Element} :
    (∃ answer, .enter [] e answer ∈ own) ↔ place.Holds e := by
  cases hown with
  | nothing hnone => simp [hnone]
  | one hholds honly answer =>
    constructor
    · rintro ⟨answer, hmem⟩
      obtain ⟨rfl, -⟩ : e = _ ∧ _ := by simpa [leafVisits] using hmem
      exact hholds
    · intro h
      rw [honly e h]
      exact ⟨answer, List.mem_cons_self⟩

theorem exists_eq_of_holds (hown : OwnVisits place own) {e : Element} (h : place.Holds e) :
    ∃ answer, own = leafVisits e answer := by
  cases hown with
  | nothing hnone => exact absurd h (hnone e)
  | one hholds honly answer =>
    rw [honly e h]
    exact ⟨answer, rfl⟩

theorem position_eq_nil (hown : OwnVisits place own) {v : Visit} (h : v ∈ own) : v.position = [] := by
  cases hown with
  | nothing => contradiction
  | @one own _ _ answer =>
    obtain rfl | rfl : v = .enter [] own answer ∨ v = .exit [] own := by simpa [leafVisits] using h
    · rfl
    · rfl

theorem enter_cons_not_mem (hown : OwnVisits place own) {i : Nat} {p : Position} {e : Element}
    {answer : Status} : .enter (i :: p) e answer ∉ own :=
  fun h => List.cons_ne_nil i p (hown.position_eq_nil h)

theorem balanced (hown : OwnVisits place own) : Balanced Visit.Ends own := by
  cases hown with
  | nothing => exact .nil
  | one hholds honly answer => exact .pair .nil (.leave ..)

/-- What a node holds is entered right after its element, and it is not the same. -/
theorem pairwise_inTurn (hown : OwnVisits place own) {e : Element} (helement : place.element? = some e) :
    (([], e) :: own.filterMap Visit.entered?).Pairwise InTurn := by
  cases hown with
  | nothing => exact List.pairwise_singleton _ _
  | one hholds honly answer =>
    apply List.pairwise_pair.mpr
    exact .inr ⟨rfl, hholds.ne_element helement⟩

end OwnVisits

section

variable {e : Element} {own : List Visit} {parts : List (List Visit)}

theorem enter_nil_mem_around_iff {e' : Element} {answer : Status} :
    .enter [] e' answer ∈ around e (own ++ joined parts) ↔
      (e' = e ∧ answer = .descend) ∨ .enter [] e' answer ∈ own := by
  simp [around, enter_nil_not_mem_joined]

theorem enter_cons_mem_around_iff (hown : OwnVisits place own) {i : Nat} {p : Position} {e' : Element}
    {answer : Status} :
    .enter (i :: p) e' answer ∈ around e (own ++ joined parts) ↔
      .enter (i :: p) e' answer ∈ joined parts := by
  simp [around, hown.enter_cons_not_mem]

/-- Inside of a code span no node is visited; else all children are walked. -/
theorem span_or_inside (hown : OwnVisits place own) (hlength : parts.length = place.inner.length) :
    ((∃ value, place.tree.kind = .code value) ∧
        ∀ (i : Nat) p e' answer, .enter (i :: p) e' answer ∉ around e (own ++ joined parts)) ∨
      (∀ value, place.tree.kind ≠ .code value) ∧ Inside place (around e (own ++ joined parts)) parts := by
  rcases place.inner_eq with ⟨hcode, hinner⟩ | ⟨hcode, hinner⟩
  · refine .inl ⟨hcode, ?_⟩
    obtain rfl : parts = [] := List.length_eq_zero_iff.mp (by rw [hlength, hinner]; rfl)
    intro i p e' answer hmem
    exact List.not_mem_nil ((enter_cons_mem_around_iff hown).mp hmem)
  · refine .inr ⟨hcode, hinner ▸ hlength, ?_, ?_⟩
    · intro i p e' answer
      rw [enter_cons_mem_around_iff hown, enter_cons_mem_joined]
    · intro i part hpart
      obtain ⟨before, after, heq, hothers⟩ := exists_joined_eq hpart
      refine ⟨.enter [] e .descend :: own ++ before, after ++ [.exit [] e], by simp [around, heq], ?_⟩
      have hroot : ∀ v : Visit, v.position = [] → ¬[i] <+: v.position := by
        intro v hv hprefix
        rw [hv] at hprefix
        exact List.cons_ne_nil i [] (List.prefix_nil.mp hprefix)
      rw [List.forall_mem_append] at hothers
      simp only [List.forall_mem_append, List.forall_mem_cons]
      exact ⟨⟨⟨hroot _ rfl, fun v hv => hroot v (hown.position_eq_nil hv)⟩, hothers.1⟩, hothers.2,
        hroot _ rfl, List.forall_mem_nil _⟩

theorem admits_around (helement : place.element? = some e) (hcode : ∀ value, place.tree.kind ≠ .code value) :
    Admits (around e (own ++ joined parts)) [] place := by
  refine ⟨?_, hcode, ?_⟩
  · intro e' helement'
    obtain rfl := Option.some.inj (helement.symm.trans helement')
    exact List.mem_cons_self
  · intro x hkind
    rw [Place.element?_eq_none_iff.mpr ⟨x, hkind⟩] at helement
    contradiction

theorem pairwise_inTurn_around (helement : place.element? = some e) (hown : OwnVisits place own)
    (hjoined : ((joined parts).filterMap Visit.entered?).Pairwise InTurn) :
    ((around e (own ++ joined parts)).filterMap Visit.entered?).Pairwise InTurn := by
  have hsplit : (around e (own ++ joined parts)).filterMap Visit.entered? =
      ([], e) :: own.filterMap Visit.entered? ++ (joined parts).filterMap Visit.entered? := by
    simp [around, Visit.entered?]
  rw [hsplit]
  refine List.pairwise_append.mpr ⟨hown.pairwise_inTurn helement, hjoined, ?_⟩
  rintro ⟨p, e'⟩ ha b hb
  obtain rfl : p = [] := by
    rcases List.mem_cons.mp ha with heq | ha
    · exact congrArg Prod.fst heq
    · obtain ⟨v, hv, hentered⟩ := List.mem_filterMap.mp ha
      exact (Visit.position_of_entered? hentered).symm.trans (hown.position_eq_nil hv)
  exact inTurn_of_mem_joined hb

theorem atRoot_around (helement : place.element? = some e) (hown : OwnVisits place own) :
    AtRoot place (around e (own ++ joined parts)) := by
  refine ⟨?_, ?_, ?_⟩
  · intro e'
    have hroot : (∃ answer, .enter [] e' answer ∈ around e (own ++ joined parts)) ↔
        e' = e ∨ place.Holds e' := by
      simp only [enter_nil_mem_around_iff, exists_or, hown.enter_nil_iff, exists_and_left, exists_eq, and_true]
    rw [hroot, helement]
    simp [around, eq_comm]
  · intro e' answer helement' hmem
    obtain rfl := Option.some.inj (helement.symm.trans helement')
    obtain rfl : answer = .descend := by
      rcases enter_nil_mem_around_iff.mp hmem with ⟨-, hdescend⟩ | hown'
      · exact hdescend
      · exact absurd rfl ((hown.enter_nil_iff.mp ⟨answer, hown'⟩).ne_element helement)
    exact ⟨own ++ joined parts, rfl⟩
  · intro e' held helement' hholds _
    obtain rfl := Option.some.inj (helement.symm.trans helement')
    obtain ⟨answer, rfl⟩ := hown.exists_eq_of_holds hholds
    exact ⟨answer, [], joined parts ++ [.exit [] e], by simp [around, leafVisits]⟩

theorem faithful_around (helement : place.element? = some e) (hown : OwnVisits place own)
    (hlength : parts.length = place.inner.length)
    (hparts : ∀ (i : Nat) child part, place.child? i = some child → parts[i]? = some part →
      Faithful child part) : Faithful place (around e (own ++ joined parts)) := by
  have hpart : ∀ (i : Nat) part, parts[i]? = some part → ∃ child, Faithful child part := by
    intro i part hpart
    obtain ⟨hi, -⟩ := List.getElem?_eq_some_iff.mp hpart
    obtain ⟨child, hchild⟩ := place.exists_child_of_lt_inner (hlength ▸ hi)
    exact ⟨child, hparts i child part hchild hpart⟩
  refine faithful_of_root ?_ ?_ (atRoot_around helement hown) ?_
  · refine .pair (hown.balanced.append (balanced_joined ?_)) (.leave ..)
    intro i part h
    exact (hpart i part h).elim fun _ hfaithful => hfaithful.balanced
  · apply pairwise_inTurn_around helement hown
    apply pairwise_inTurn_joined
    intro i part h
    exact (hpart i part h).elim fun _ hfaithful => hfaithful.inTurn
  · rcases span_or_inside hown hlength with ⟨⟨value, hcode⟩, hnone⟩ | ⟨hcode, hinside⟩
    · exact .nowhere (fun hadmits => hadmits.noSpan value hcode) hnone
    · exact .children (admits_around helement hcode) hinside hparts

end

end

/-- **The visits of a walk** are those that the tree and the answers call for. -/
theorem Traversal.faithful {place : Place} {visits : List Visit} (h : Traversal place visits) :
    Faithful place visits := by
  induction h with
  | passed hkind hblock => exact faithful_passed hkind hblock
  | unwrapped hkind hinline hlength hparts ih => exact faithful_unwrapped hkind hinline hlength ih
  | skipped helement => exact faithful_skipped helement
  | entered helement hown hlength hparts ih => exact faithful_around helement hown hlength ih

end Adf.Markdown
