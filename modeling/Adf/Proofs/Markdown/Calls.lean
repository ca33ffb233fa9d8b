import Adf.Proofs.Markdown.Traversal

/-!
# The calls of a walk

A visitor may keep a state, answer every call by it, and fail. `Visitor.logged` also keeps a record of the calls
with the answers to them. A walk that does not fail makes the calls of a `Traversal` of the tree; a walk that
fails has the error of the last call, and no call before has failed.
-/

namespace Adf.Markdown

variable {σ ε α β : Type}

/-! ## Records -/

/-- A call to a visitor, and the answer. -/
inductive Call (ε : Type) where
  | enter (element : Element) (answer : Except ε Status)
  | exit (element : Element) (answer : Except ε Unit)

/-- The error of a call that has failed. -/
def Call.error? : Call ε → Option ε
  | enter _ (.error e) | exit _ (.error e) => some e
  | enter _ (.ok _) | exit _ (.ok _) => none

def Visit.call : Visit → Call ε
  | enter _ e answer => .enter e (.ok answer)
  | exit _ e => .exit e (.ok ())

/-- Does `body` and adds the call that it is to the record. -/
def recorded (call : Except ε α → Call ε) (body : ExceptT ε (StateM σ) α) :
    ExceptT ε (StateM (σ × List (Call ε))) α :=
  ExceptT.mk fun (s, calls) =>
    let (answer, s) := body.run.run s
    (answer, s, calls ++ [call answer])

/-- A visitor that keeps a record of the calls to it. -/
def Visitor.logged (visitor : Visitor (ExceptT ε (StateM σ))) :
    Visitor (ExceptT ε (StateM (σ × List (Call ε)))) where
  enter e := recorded (.enter e) (visitor.enter e)
  exit e := recorded (.exit e) (visitor.exit e)

/-- The calls that lead to a result: if it is a value, then none of them has failed, and `told` holds of both;
if it is an error, then it is that of the last call, and none before has failed. -/
inductive Told (told : α → List (Call ε) → Prop) : Except ε α → List (Call ε) → Prop
  | done {a : α} {calls : List (Call ε)} (h : told a calls) (hcalls : ∀ call ∈ calls, call.error? = none) :
      Told told (.ok a) calls
  | failed {e : ε} {calls : List (Call ε)} {last : Call ε} (hcalls : ∀ call ∈ calls, call.error? = none)
      (hlast : last.error? = some e) : Told told (.error e) (calls ++ [last])

/-- `y` does what `x` does and adds to the record calls that lead to the result. -/
def Logs (x : ExceptT ε (StateM σ) α) (y : ExceptT ε (StateM (σ × List (Call ε))) α)
    (told : α → List (Call ε) → Prop) : Prop :=
  ∀ s calls, ∃ made, y.run.run (s, calls) = ((x.run.run s).1, (x.run.run s).2, calls ++ made) ∧
    Told told (x.run.run s).1 made

theorem logs_pure {told : α → List (Call ε) → Prop} {a : α} (h : told a []) :
    Logs (pure a : ExceptT ε (StateM σ) α) (pure a) told := by
  intro s calls
  refine ⟨[], ?_, .done h (List.forall_mem_nil _)⟩
  rw [List.append_nil]
  rfl

theorem Logs.bind {x : ExceptT ε (StateM σ) α} {y : ExceptT ε (StateM (σ × List (Call ε))) α}
    {f : α → ExceptT ε (StateM σ) β} {g : α → ExceptT ε (StateM (σ × List (Call ε))) β}
    {first : α → List (Call ε) → Prop} {told : β → List (Call ε) → Prop} (hx : Logs x y first)
    (hf : ∀ a calls, first a calls → Logs (f a) (g a) fun b later => told b (calls ++ later)) :
    Logs (x >>= f) (y >>= g) told := by
  intro s calls
  obtain ⟨made, hy, htold⟩ := hx s calls
  rw [ExceptT.run_bind, ExceptT.run_bind, StateT.run_bind, StateT.run_bind, hy]
  cases hrun : x.run.run s with
  | mk answer s =>
    rw [hrun] at htold
    cases htold with
    | failed hcalls hlast => exact ⟨_, rfl, .failed hcalls hlast⟩
    | @done a _ hfirst hcalls =>
      obtain ⟨later, hg, htold⟩ := hf a made hfirst s (calls ++ made)
      refine ⟨made ++ later, ?_, ?_⟩
      · rw [← List.append_assoc]
        exact hg
      · show Told told ((f a).run.run s).1 (made ++ later)
        generalize ((f a).run.run s).1 = result at htold
        cases htold with
        | done h hlater => exact .done h (List.forall_mem_append.mpr ⟨hcalls, hlater⟩)
        | failed hlater hlast =>
          rw [← List.append_assoc]
          exact .failed (List.forall_mem_append.mpr ⟨hcalls, hlater⟩) hlast

theorem logs_recorded {call : Except ε α → Call ε} {told : α → List (Call ε) → Prop}
    (hok : ∀ a, (call (.ok a)).error? = none) (herror : ∀ e, (call (.error e)).error? = some e)
    {body : ExceptT ε (StateM σ) α} (h : ∀ a, told a [call (.ok a)]) :
    Logs body (recorded call body) told := by
  intro s calls
  refine ⟨[call (body.run.run s).1], rfl, ?_⟩
  cases (body.run.run s).1 with
  | ok a => exact .done (h a) (List.forall_mem_singleton.mpr (hok a))
  | error e =>
    show Told told (.error e) ([] ++ [call (.error e)])
    exact .failed (List.forall_mem_nil _) (herror e)

theorem Told.imp {told told' : α → List (Call ε) → Prop} (himp : ∀ a calls, told a calls → told' a calls)
    {result : Except ε α} {calls : List (Call ε)} (h : Told told result calls) : Told told' result calls := by
  cases h with
  | done h hcalls => exact .done (himp _ _ h) hcalls
  | failed hcalls hlast => exact .failed hcalls hlast

theorem Logs.imp {x : ExceptT ε (StateM σ) α} {y : ExceptT ε (StateM (σ × List (Call ε))) α}
    {told told' : α → List (Call ε) → Prop} (h : Logs x y told)
    (himp : ∀ a calls, told a calls → told' a calls) : Logs x y told' := by
  intro s calls
  obtain ⟨made, hy, htold⟩ := h s calls
  exact ⟨made, hy, htold.imp himp⟩

/-! ## Visitors -/

variable (visitor : Visitor (ExceptT ε (StateM σ)))

theorem logs_enter (e : Element) :
    Logs (visitor.enter e) (visitor.logged.enter e) fun answer calls => calls = [.enter e (.ok answer)] :=
  logs_recorded (fun _ => rfl) (fun _ => rfl) fun _ => rfl

theorem logs_exit (e : Element) :
    Logs (visitor.exit e) (visitor.logged.exit e) fun _ calls => calls = [.exit e (.ok ())] :=
  logs_recorded (fun _ => rfl) (fun _ => rfl) fun _ => rfl

theorem logs_visitLeaf (e : Element) :
    Logs (Tree.visitLeaf visitor e) (Tree.visitLeaf visitor.logged e)
      fun _ calls => ∃ answer, calls = (leafVisits e answer).map Visit.call := by
  apply (logs_enter visitor e).bind
  rintro answer _ rfl
  apply (logs_exit visitor e).imp
  rintro _ _ rfl
  exact ⟨answer, rfl⟩

/-! ## Walks -/

/-- The calls of a walk through trees, the one at every index in its place. -/
def ChildCalls (place : Nat → Tree → Place) (trees : List Tree) (calls : List (Call ε)) : Prop :=
  ∃ parts : List (List Visit), parts.length = trees.length ∧
    (∀ (i : Nat) tree part, trees[i]? = some tree → parts[i]? = some part → Traversal (place i tree) part) ∧
    calls = parts.flatMap fun part => part.map Visit.call

theorem childCalls_nil (place : Nat → Tree → Place) : ChildCalls place [] ([] : List (Call ε)) :=
  ⟨[], rfl, nofun, rfl⟩

theorem ChildCalls.cons {place : Nat → Tree → Place} {tree : Tree} {rest : List Tree} {part : List Visit}
    {later : List (Call ε)} (hpart : Traversal (place 0 tree) part)
    (h : ChildCalls (fun i => place (i + 1)) rest later) :
    ChildCalls place (tree :: rest) (part.map Visit.call ++ later) := by
  obtain ⟨parts, hlength, hparts, rfl⟩ := h
  refine ⟨part :: parts, ?_, ?_, rfl⟩
  · rw [List.length_cons, List.length_cons, hlength]
  · intro i tree' part' htree hpart'
    cases i with
    | zero =>
      cases htree
      cases hpart'
      exact hpart
    | succ i => exact hparts i tree' part' htree hpart'

theorem call_within (i : Nat) (v : Visit) : (v.within i).call = (v.call : Call ε) := by
  cases v <;> rfl

/-- The positions of visits do not show in the calls. -/
theorem map_call_joined (parts : List (List Visit)) :
    (joined parts).map Visit.call = parts.flatMap fun part => part.map (Visit.call : Visit → Call ε) := by
  have hpart : ∀ x : List Visit × Nat,
      (x.1.map (Visit.within x.2)).map Visit.call = x.1.map (Visit.call : Visit → Call ε) := by
    intro x
    rw [List.map_map]
    exact List.map_congr_left fun v _ => call_within x.2 v
  rw [joined, List.map_flatMap]
  simp only [hpart]
  rw [← List.flatMap_map, List.zipIdx_map_fst]

variable {place : Place} {e : Element} {calls : List (Call ε)}

theorem exists_traversal_unwrapped {x : Extension} (hkind : place.tree.kind = .extension x)
    (hinline : x.isBlock = false) (h : ChildCalls place.below place.tree.children calls) :
    ∃ visits, Traversal place visits ∧ calls = visits.map Visit.call := by
  obtain ⟨parts, hlength, hparts, rfl⟩ := h
  refine ⟨_, .unwrapped hkind hinline hlength ?_, (map_call_joined parts).symm⟩
  intro i child part hchild hpart
  obtain ⟨tree, htree, rfl⟩ := Option.map_eq_some_iff.mp hchild
  exact hparts i tree part htree hpart

theorem exists_traversal_entered (helement : place.element? = some e) {own : List Visit}
    (hown : OwnVisits place own) (h : ChildCalls place.below place.inner calls) :
    ∃ visits, Traversal place visits ∧
      [.enter e (.ok .descend)] ++ (own.map Visit.call ++ (calls ++ [.exit e (.ok ())])) =
        visits.map Visit.call := by
  obtain ⟨parts, hlength, hparts, rfl⟩ := h
  refine ⟨_, .entered helement hown hlength ?_, ?_⟩
  · intro i child part hchild hpart
    obtain ⟨tree, htree, rfl⟩ := Option.map_eq_some_iff.mp hchild
    refine hparts i tree part ?_ hpart
    rcases place.inner_eq with ⟨-, hinner⟩ | ⟨-, hinner⟩
    · obtain ⟨hi, -⟩ := List.getElem?_eq_some_iff.mp hpart
      rw [hlength, hinner] at hi
      contradiction
    · rwa [hinner]
  · rw [around, List.map_append, List.map_cons, List.map_append, map_call_joined]
    simp [Visit.call]

/-- What is left to do inside of an element when its own visits have been made. -/
theorem Logs.exit {x : ExceptT ε (StateM σ) Unit} {y : ExceptT ε (StateM (σ × List (Call ε))) Unit}
    (hwalk : Logs x y fun _ calls => ChildCalls place.below place.inner calls)
    (helement : place.element? = some e) {own : List Visit} (hown : OwnVisits place own) :
    Logs (x >>= fun _ => visitor.exit e) (y >>= fun _ => visitor.logged.exit e) fun _ later =>
      ∃ visits, Traversal place visits ∧
        [.enter e (.ok .descend)] ++ (own.map Visit.call ++ later) = visits.map Visit.call := by
  apply hwalk.bind
  intro _ calls hcalls
  apply (logs_exit visitor e).imp
  rintro _ _ rfl
  exact exists_traversal_entered helement hown hcalls

mutual

theorem logs_walkFrom (inHeader : Bool) (box : Option Bool) : ∀ tree : Tree,
    (∀ checked, box = some checked → tree.kind = .paragraph) →
    Logs (Tree.walkFrom visitor inHeader box tree) (Tree.walkFrom visitor.logged inHeader box tree)
      fun _ calls => ∃ visits, Traversal ⟨inHeader, box, tree⟩ visits ∧ calls = visits.map Visit.call
  | .node kind span children, hbox => by
    rw [Tree.walkFrom.eq_def, Tree.walkFrom.eq_def]
    dsimp only
    cases hdescribe : Tree.describe inHeader span children kind with
    | none =>
      have helement : Place.element? ⟨inHeader, box, .node kind span children⟩ = none := hdescribe
      obtain ⟨x, hkind⟩ := Place.element?_eq_none_iff.mp helement
      cases (show kind = .extension x from hkind)
      dsimp only
      cases hblock : x.isBlock with
      | true => exact logs_pure ⟨[], .passed hkind hblock, rfl⟩
      | false => exact (logs_walkChildren false children).imp fun _ _ => exists_traversal_unwrapped hkind hblock
    | some e =>
      have helement : Place.element? ⟨inHeader, box, .node kind span children⟩ = some e := hdescribe
      dsimp only
      apply (logs_enter visitor e).bind
      rintro answer _ rfl
      cases answer with
      | skip =>
        apply (logs_exit visitor e).imp
        rintro _ _ rfl
        exact ⟨_, .skipped helement, rfl⟩
      | descend =>
        cases box with
        | some checked =>
          -- a check box is due in nothing but a paragraph
          cases (show kind = .paragraph from hbox checked rfl)
          apply (logs_visitLeaf visitor (.taskCheckBox checked)).bind
          rintro _ _ ⟨answer, rfl⟩
          exact (logs_walkChildren false children).exit visitor helement (.box (by nofun) rfl answer)
        | none =>
          cases kind with
          | code literal =>
            apply (logs_visitLeaf visitor (.literal literal)).bind
            rintro _ _ ⟨answer, rfl⟩
            apply (logs_exit visitor e).imp
            rintro _ _ rfl
            exact exists_traversal_entered helement (.literal rfl rfl answer) (childCalls_nil _)
          | taskItem checked =>
            exact (logs_walkItem checked children).exit visitor helement (.noBox (by nofun) rfl)
          | _ => exact (logs_walkChildren _ children).exit visitor helement (.noBox (by nofun) rfl)

theorem logs_walkChildren (inHeader : Bool) : ∀ trees : List Tree,
    Logs (Tree.walkChildren visitor inHeader trees) (Tree.walkChildren visitor.logged inHeader trees)
      fun _ calls => ChildCalls (fun _ tree => ⟨inHeader, none, tree⟩) trees calls
  | [] => logs_pure (childCalls_nil _)
  | tree :: rest => by
    rw [Tree.walkChildren, Tree.walkChildren]
    apply (logs_walkFrom inHeader none tree nofun).bind
    rintro _ _ ⟨part, hpart, rfl⟩
    exact (logs_walkChildren inHeader rest).imp fun _ later h => .cons hpart h

theorem logs_walkItem (checked : Bool) : ∀ trees : List Tree,
    Logs (Tree.walkItem visitor checked trees) (Tree.walkItem visitor.logged checked trees)
      fun _ calls => ChildCalls (fun i tree => ⟨false,
        if trees.findIdx (·.kind = .paragraph) = i then some checked else none, tree⟩) trees calls
  | [] => logs_pure (childCalls_nil _)
  | tree :: rest => by
    rw [Tree.walkItem, Tree.walkItem]
    split
    · rename_i hkind
      apply (logs_walkFrom false (some checked) tree fun _ _ => hkind).bind
      rintro _ _ ⟨part, hpart, rfl⟩
      refine (logs_walkChildren false rest).imp fun _ later h => .cons ?_ ?_
      · simpa [List.findIdx_cons, hkind] using hpart
      · simpa [List.findIdx_cons, hkind] using h
    · rename_i hkind
      apply (logs_walkFrom false none tree nofun).bind
      rintro _ _ ⟨part, hpart, rfl⟩
      refine (logs_walkItem checked rest).imp fun _ later h => .cons ?_ ?_
      · simpa [List.findIdx_cons, hkind] using hpart
      · simpa [List.findIdx_cons, hkind] using h

end

/-- **The calls of a walk.** Whatever state a visitor keeps, however it answers and wherever it fails: if no call
fails, then the calls are the visits that the tree and the answers call for; if a call fails, then it is the
last one, and the walk fails with its error. Keeping the record changes neither the result nor the state. -/
theorem walk_logged (tree : Tree) (s : σ) :
    ∃ calls, (Tree.walk visitor.logged tree).run.run (s, []) =
        (((Tree.walk visitor tree).run.run s).1, ((Tree.walk visitor tree).run.run s).2, calls) ∧
      Told (fun _ made => ∃ visits, Faithful (.top tree) visits ∧ made = visits.map Visit.call)
        ((Tree.walk visitor tree).run.run s).1 calls := by
  obtain ⟨calls, hrun, htold⟩ := logs_walkFrom visitor false none tree nofun s []
  refine ⟨calls, hrun, htold.imp ?_⟩
  rintro _ made ⟨visits, htraversal, hmade⟩
  exact ⟨visits, htraversal.faithful, hmade⟩

end Adf.Markdown
