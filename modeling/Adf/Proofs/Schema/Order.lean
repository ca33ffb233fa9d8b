import Adf.Proofs.Schema.Reporting
import Adf.Proofs.Schema.Visits

/-!
# The order of issues

The checks go through a document from its beginning to its end. Where the paths of two issues part at items of
one array, the issue of the earlier item comes first, with one exception: the marks of a text are compared
with each other only when each of them has been checked (`pairwise_inTurn_validate`). So an issue of this
comparison may lie before an issue that is listed before it (`not_forall_pairwise_indices`).
-/

namespace Adf.Schema

/-! ## Where two paths part -/

/-- The first segments in which two lists of segments differ. There are none if one of the lists ends before. -/
def fork? : List Segment → List Segment → Option (Segment × Segment)
  | s :: p, t :: q => if s = t then fork? p q else some (s, t)
  | _, _ => none

/-- The first segments in which two paths differ. -/
def Path.fork? (p q : Path) : Option (Segment × Segment) := Schema.fork? p.segments q.segments

theorem fork?_append (p q r : List Segment) : fork? (p ++ q) (p ++ r) = fork? q r := by
  induction p with
  | nil => rfl
  | cons s p ih => rw [List.cons_append, List.cons_append, fork?, if_pos rfl, ih]

theorem fork?_nil_right (p : List Segment) : fork? p [] = none := by
  cases p <;> rfl

/-- Behind nothing but keys no path parts from another at an index. -/
theorem fork?_keys_left (names : List String) (p : List Segment) (i : Nat) (t : Segment) :
    fork? (names.map .key) p ≠ some (.index i, t) := by
  induction names generalizing p with
  | nil => exact nofun
  | cons name names ih =>
    cases p with
    | nil => exact nofun
    | cons s p =>
      rw [List.map_cons, fork?]
      split
      · exact ih p
      · exact nofun

theorem fork?_keys_right (names : List String) (p : List Segment) (s : Segment) (i : Nat) :
    fork? p (names.map .key) ≠ some (s, .index i) := by
  induction names generalizing p with
  | nil => rw [List.map_nil, fork?_nil_right]; exact nofun
  | cons name names ih =>
    cases p with
    | nil => exact nofun
    | cons t p =>
      rw [List.map_cons, fork?]
      split
      · exact ih p
      · exact nofun

namespace Path

variable (p q r : Path)

theorem push_append (s : Segment) : p.push s ++ q = p ++ ⟨s :: q.segments⟩ :=
  congrArg mk (List.append_assoc p.segments [s] q.segments)

theorem fork?_append : (p ++ q).fork? (p ++ r) = q.fork? r :=
  Schema.fork?_append p.segments q.segments r.segments

/-- Two paths that go on with different segments part there. -/
theorem fork?_push_append {s t : Segment} (h : s ≠ t) :
    (p.push s ++ q).fork? (p.push t ++ r) = some (s, t) := by
  show Schema.fork? ((p.segments ++ [s]) ++ q.segments) ((p.segments ++ [t]) ++ r.segments) = _
  rw [List.append_assoc, List.append_assoc, Schema.fork?_append]
  exact if_neg h

theorem fork?_append_left : (p ++ q).fork? p = none := by
  show Schema.fork? (p.segments ++ q.segments) p.segments = none
  have h := Schema.fork?_append p.segments q.segments []
  rw [List.append_nil] at h
  rw [h, fork?_nil_right]

end Path

/-! ## Issues in turn -/

/-- `b` comes from the comparison of the marks of a list, and shows the `j`-th of them; `a` was found in the
`i`-th mark of the same list, before they were compared. -/
def Precompared (i j : Nat) (a b : Issue) : Prop :=
  ∃ node rest mark other, b = ⟨.incompatibleMarks mark other, (Path.key node "marks").index j⟩ ∧
    a.path = (Path.key node "marks").index i ++ rest ∧ ∀ m o, a.problem ≠ .incompatibleMarks m o

/-- Where the paths of `a` and `b` part at items of one array, `a` lies in the earlier one, or `b` comes from a
comparison of marks that have been checked before. -/
def InTurn (a b : Issue) : Prop :=
  ∀ i j, a.path.fork? b.path = some (.index i, .index j) → i < j ∨ Precompared i j a b

/-- The issue lies at the path or below it. -/
def Within (path : Path) (issue : Issue) : Prop := ∃ q, issue.path = path ++ q

/-- The issue lies at the path or below it, only keys lead to it from there, and it comes from no comparison of
marks. -/
structure Shallow (path : Path) (issue : Issue) : Prop where
  keys : ∃ names : List String, issue.path = path ++ ⟨names.map .key⟩
  plain : ∀ mark other, issue.problem ≠ .incompatibleMarks mark other

section

variable {path : Path} {a b : Issue} {xs ys : List Issue}

theorem Shallow.within (h : Shallow path a) : Within path a := by
  obtain ⟨names, h⟩ := h.keys
  exact ⟨_, h⟩

theorem shallow_at (path : Path) {problem : Problem}
    (h : ∀ mark other, problem ≠ .incompatibleMarks mark other) : Shallow path ⟨problem, path⟩ :=
  ⟨⟨[], (Path.append_root path).symm⟩, h⟩

theorem Within.of_push {s : Segment} (h : Within (path.push s) a) : Within path a := by
  obtain ⟨q, h⟩ := h
  exact ⟨_, h.trans (Path.push_append path q s)⟩

theorem Shallow.of_key {name : String} (h : Shallow (path.key name) a) : Shallow path a := by
  obtain ⟨⟨names, hpath⟩, hplain⟩ := h
  exact ⟨⟨name :: names, hpath.trans (Path.push_append path _ (.key name))⟩, hplain⟩

theorem inTurn_of_shallow_left (ha : Shallow path a) (hb : Within path b) : InTurn a b := by
  intro i j hfork
  obtain ⟨names, ha⟩ := ha.keys
  obtain ⟨q, hb⟩ := hb
  rw [ha, hb, Path.fork?_append] at hfork
  exact absurd hfork (fork?_keys_left names q.segments i _)

theorem inTurn_of_shallow_right (ha : Within path a) (hb : Shallow path b) : InTurn a b := by
  intro i j hfork
  obtain ⟨q, ha⟩ := ha
  obtain ⟨names, hb⟩ := hb.keys
  rw [ha, hb, Path.fork?_append] at hfork
  exact absurd hfork (fork?_keys_right names q.segments _ j)

theorem inTurn_of_keys_ne {name other : String} (h : name ≠ other) (ha : Within (path.key name) a)
    (hb : Within (path.key other) b) : InTurn a b := by
  intro i j hfork
  obtain ⟨q, ha⟩ := ha
  obtain ⟨r, hb⟩ := hb
  have hne : Segment.key name ≠ .key other := fun heq => h (Segment.key.inj heq)
  rw [ha, hb, Path.key, Path.key, Path.fork?_push_append _ _ _ hne] at hfork
  cases hfork

theorem inTurn_of_index_lt {i j : Nat} (h : i < j) (ha : Within (path.index i) a)
    (hb : Within (path.index j) b) : InTurn a b := by
  intro k l hfork
  obtain ⟨q, ha⟩ := ha
  obtain ⟨r, hb⟩ := hb
  have hne : Segment.index i ≠ .index j := fun heq => Nat.ne_of_lt h (Segment.index.inj heq)
  rw [ha, hb, Path.index, Path.index, Path.fork?_push_append _ _ _ hne] at hfork
  cases hfork
  exact Or.inl h

/-- Issues to which only keys lead may stand before any others. -/
theorem pairwise_append_of_shallow (path : Path) (hxs : ∀ issue ∈ xs, Shallow path issue)
    (hwithin : ∀ issue ∈ ys, Within path issue) (hys : ys.Pairwise InTurn) : (xs ++ ys).Pairwise InTurn := by
  refine List.pairwise_append.mpr ⟨?_, hys, fun a ha b hb => ?_⟩
  · exact List.pairwise_of_forall_mem_list fun a ha b hb =>
      inTurn_of_shallow_left (hxs a ha) (hxs b hb).within
  · exact inTurn_of_shallow_left (hxs a ha) (hwithin b hb)

theorem pairwise_of_shallow (h : ∀ issue ∈ xs, Shallow path issue) : xs.Pairwise InTurn := by
  rw [← List.append_nil xs]
  exact pairwise_append_of_shallow path h (List.forall_mem_nil _) .nil

/-- A check that writes issues for its path writes them at the path or below it. -/
theorem Writes.within_path {α : Type} {check : Reporter α} {result : α} {issues : Path → List Issue}
    (h : Writes check result issues) : ∀ issue ∈ issues path, Within path issue := by
  intro issue hissue
  rw [← Path.append_root path, h.relocates] at hissue
  obtain ⟨inner, -, rfl⟩ := List.mem_map.mp hissue
  exact ⟨inner.path, rfl⟩

end

/-! ## Values and attributes -/

theorem shallow_mismatch (path : Path) (expected : String) (got : Json) :
    Shallow path (mismatch path expected got) := shallow_at path (by simp)

theorem shallow_missing (path : Path) (property : String) : Shallow path (missing path property) :=
  shallow_at path (by simp)

/-- The problem is one of the value where it was found, and not of what should stand in it or next to it. -/
def Problem.isOfValue : Problem → Bool
  | .missingProperty _ | .incompatibleMarks _ _ => false
  | _ => true

/-- What the check of one value finds: nothing, or one problem of this value. -/
inductive Single (path : Path) : List Issue → Prop
  | nothing : Single path []
  | found (problem : Problem) (h : problem.isOfValue) : Single path [⟨problem, path⟩]

theorem Single.shallow {path : Path} {issues : List Issue} (h : Single path issues) :
    ∀ issue ∈ issues, Shallow path issue := by
  cases h with
  | nothing => exact List.forall_mem_nil _
  | found problem hproblem =>
    refine List.forall_mem_singleton.mpr (shallow_at path ?_)
    rintro mark other rfl
    contradiction

theorem single_mismatch (path : Path) (expected : String) (got : Json) :
    Single path [mismatch path expected got] := .found (.typeMismatch expected got.typeName) rfl

theorem single_stringIssues (path : Path) (value : Json) : Single path (stringIssues path value) := by
  cases value with
  | str s => exact .nothing
  | _ => exact single_mismatch path _ _

theorem single_booleanIssues (path : Path) (value : Json) : Single path (booleanIssues path value) := by
  cases value with
  | bool b => exact .nothing
  | _ => exact single_mismatch path _ _

theorem single_choiceIssues (allowed : List String) (path : Path) (value : Json) :
    Single path (choiceIssues allowed path value) := by
  cases value with
  | str s =>
    rw [choiceIssues]
    split
    · exact .nothing
    · exact .found _ rfl
  | _ => exact single_mismatch path _ _

theorem single_colorIssues (path : Path) (value : Json) : Single path (colorIssues path value) := by
  cases value with
  | str s =>
    rw [colorIssues]
    split
    · exact .nothing
    · exact .found _ rfl
  | _ => exact single_mismatch path _ _

theorem single_integerIssues (least most : Option Int) (path : Path) (value : Json) :
    Single path (integerIssues least most path value) := by
  unfold integerIssues
  split
  · exact single_mismatch path _ _
  · split
    · exact .found _ rfl
    · exact .nothing

section

variable {path : Path} {attrs : Option Members} {name : String} {check : Path → Json → List Issue}

theorem shallow_optional (hcheck : ∀ p v, Single p (check p v)) :
    ∀ issue ∈ optional attrs name path check, Shallow path issue := by
  intro issue h
  unfold optional at h
  split at h
  · exact ((hcheck _ _).shallow issue h).of_key.of_key
  · contradiction

theorem shallow_required (hcheck : ∀ p v, Single p (check p v)) :
    ∀ issue ∈ required attrs name path check, Shallow path issue := by
  intro issue h
  unfold required at h
  split at h
  · obtain rfl := List.mem_singleton.mp h
    exact shallow_missing path "attrs"
  · split at h
    · exact ((hcheck _ _).shallow issue h).of_key.of_key
    · obtain rfl := List.mem_singleton.mp h
      exact (shallow_missing _ name).of_key

theorem shallow_attrsIssues (members : Members) : ∀ issue ∈ attrsIssues path members, Shallow path issue := by
  intro issue h
  unfold attrsIssues at h
  split at h
  · contradiction
  · contradiction
  · obtain rfl := List.mem_singleton.mp h
    exact (shallow_mismatch _ _ _).of_key

theorem shallow_mediaIssues : ∀ issue ∈ mediaIssues attrs path, Shallow path issue := by
  intro issue h
  rcases List.mem_append.mp h with htype | h
  · exact shallow_required (single_choiceIssues _) issue htype
  · split at h
    · contradiction
    · rcases List.mem_append.mp h with hkeys | halt
      · obtain ⟨key, -, hkey⟩ := List.mem_flatMap.mp hkeys
        exact shallow_required single_stringIssues issue hkey
      · exact shallow_optional single_stringIssues issue halt

theorem shallow_nodeAttrIssues (type : NodeType) :
    ∀ issue ∈ nodeAttrIssues type attrs path, Shallow path issue := by
  intro issue h
  cases type with
  | heading => exact shallow_required (single_integerIssues _ _) issue h
  | codeBlock => exact shallow_optional single_stringIssues issue h
  | orderedList => exact shallow_optional (single_integerIssues _ _) issue h
  | table =>
    rcases List.mem_append.mp h with h | h
    · exact shallow_optional single_booleanIssues issue h
    · exact shallow_optional (single_choiceIssues _) issue h
  | mediaSingle => exact shallow_optional (single_choiceIssues _) issue h
  | media => exact shallow_mediaIssues issue h
  | _ => contradiction

theorem shallow_markAttrIssues (type : MarkType) :
    ∀ issue ∈ markAttrIssues type attrs path, Shallow path issue := by
  intro issue h
  cases type with
  | link =>
    rcases List.mem_append.mp h with h | h
    · exact shallow_required single_stringIssues issue h
    · exact shallow_optional single_stringIssues issue h
  | subsup => exact shallow_required (single_choiceIssues _) issue h
  | textColor => exact shallow_required single_colorIssues issue h
  | _ => contradiction

end

/-! ## Marks and texts -/

theorem shallow_markIssues (path : Path) (mark : Json) : ∀ issue ∈ markIssues path mark, Shallow path issue := by
  intro issue h
  cases mark with
  | obj members =>
    rw [markIssues.eq_def] at h
    dsimp only at h
    split at h
    · obtain rfl := List.mem_singleton.mp h
      exact shallow_missing path "type"
    · split at h
      · obtain rfl := List.mem_singleton.mp h
        refine (shallow_at (path.key "type") ?_).of_key
        simp
      · split at h
        · exact shallow_markAttrIssues _ issue h
        · exact shallow_attrsIssues members issue h
    · obtain rfl := List.mem_singleton.mp h
      exact (shallow_mismatch _ _ _).of_key
  | _ =>
    obtain rfl := List.mem_singleton.mp h
    exact shallow_mismatch path _ _

section

variable {path : Path} {marks : List Json} {a b issue : Issue}

/-- What is reported of one mark when the marks are compared. -/
theorem eq_of_mem_exclusion {mark : Json} {i : Nat}
    (h : issue ∈ (match markType? mark with
      | some type =>
        if type ∈ besideCode then []
        else [⟨.incompatibleMarks "code" type.name, path.index i⟩]
      | none => [] : List Issue)) :
    ∃ mark other, issue = ⟨.incompatibleMarks mark other, path.index i⟩ := by
  split at h
  · split at h
    · contradiction
    · exact ⟨_, _, List.mem_singleton.mp h⟩
  · contradiction

theorem exists_of_mem_exclusionIssues (h : issue ∈ exclusionIssues path marks) :
    ∃ j mark other, issue = ⟨.incompatibleMarks mark other, path.index j⟩ := by
  unfold exclusionIssues at h
  split at h
  · obtain ⟨⟨mark, j⟩, -, hissue⟩ := List.mem_flatMap.mp h
    exact ⟨j, eq_of_mem_exclusion hissue⟩
  · contradiction

theorem within_at (problem : Problem) (path : Path) : Within path ⟨problem, path⟩ :=
  ⟨.root, (Path.append_root path).symm⟩

theorem pairwise_exclusionIssues : (exclusionIssues path marks).Pairwise InTurn := by
  unfold exclusionIssues
  split
  · refine List.pairwise_flatMap.mpr ⟨?_, (pairwise_zipIdx_lt marks 0).imp ?_⟩
    · rintro ⟨mark, i⟩ -
      dsimp only
      split
      · split
        · exact .nil
        · exact List.pairwise_singleton _ _
      · exact .nil
    · rintro ⟨mark, i⟩ ⟨mark', j⟩ hij a ha b hb
      obtain ⟨m, o, rfl⟩ := eq_of_mem_exclusion ha
      obtain ⟨m', o', rfl⟩ := eq_of_mem_exclusion hb
      exact inTurn_of_index_lt hij (within_at _ _) (within_at _ _)
  · exact .nil

/-- The only case of an issue that is listed too late: it comes from the comparison, and the other one was found
when a single mark was checked. -/
theorem inTurn_of_precompared {node : Path} {i : Nat} (ha : Shallow ((node.key "marks").index i) a)
    (hb : b ∈ exclusionIssues (node.key "marks") marks) : InTurn a b := by
  intro k l hfork
  obtain ⟨q, hq⟩ := ha.within
  obtain ⟨j, mark, other, rfl⟩ := exists_of_mem_exclusionIssues hb
  by_cases hij : i = j
  · subst hij
    rw [hq, Path.fork?_append_left] at hfork
    contradiction
  · have hne : Segment.index i ≠ .index j := fun heq => hij (Segment.index.inj heq)
    have hpart := Path.fork?_push_append (node.key "marks") q .root hne
    rw [Path.append_root] at hpart
    rw [hq, Path.index, Path.index, hpart] at hfork
    cases hfork
    exact Or.inr ⟨node, q, mark, other, rfl, hq, ha.plain⟩

theorem pairwise_markListIssues (node : Path) (value : Json) :
    (markListIssues (node.key "marks") value).Pairwise InTurn := by
  cases value with
  | arr marks =>
    refine List.pairwise_append.mpr ⟨?_, pairwise_exclusionIssues, ?_⟩
    · refine List.pairwise_flatMap.mpr ⟨?_, (pairwise_zipIdx_lt marks 0).imp ?_⟩
      · rintro ⟨mark, i⟩ -
        exact pairwise_of_shallow (shallow_markIssues _ mark)
      · rintro ⟨mark, i⟩ ⟨mark', j⟩ hij a ha b hb
        exact inTurn_of_index_lt hij (shallow_markIssues _ mark a ha).within
          (shallow_markIssues _ mark' b hb).within
    · intro a ha b hb
      obtain ⟨⟨mark, i⟩, -, ha⟩ := List.mem_flatMap.mp ha
      exact inTurn_of_precompared (shallow_markIssues _ mark a ha) hb
  | _ => exact List.pairwise_singleton _ _

end

/-! ## The parts of a node -/

/-- Issues of a node to which only keys lead, and behind them issues in turn inside its member of that name. -/
def Staged (path : Path) (name : String) (issues : List Issue) : Prop :=
  ∃ xs ys, issues = xs ++ ys ∧ (∀ issue ∈ xs, Shallow path issue) ∧
    (∀ issue ∈ ys, Within (path.key name) issue) ∧ ys.Pairwise InTurn

section

variable {path : Path} {name other : String} {xs ys zs : List Issue}

theorem staged_of_shallow (h : ∀ issue ∈ xs, Shallow path issue) : Staged path name xs :=
  ⟨xs, [], (List.append_nil xs).symm, h, List.forall_mem_nil _, .nil⟩

theorem staged_of_within (h : ∀ issue ∈ ys, Within (path.key name) issue) (hys : ys.Pairwise InTurn) :
    Staged path name ys :=
  ⟨[], ys, rfl, List.forall_mem_nil _, h, hys⟩

theorem Staged.cases_of_mem (h : Staged path name xs) :
    ∀ issue ∈ xs, Shallow path issue ∨ Within (path.key name) issue := by
  obtain ⟨us, vs, rfl, hus, hvs, -⟩ := h
  intro issue hissue
  rcases List.mem_append.mp hissue with hissue | hissue
  · exact Or.inl (hus issue hissue)
  · exact Or.inr (hvs issue hissue)

theorem Staged.within (h : Staged path name xs) : ∀ issue ∈ xs, Within path issue := by
  intro issue hissue
  rcases h.cases_of_mem issue hissue with hshallow | hwithin
  · exact hshallow.within
  · exact hwithin.of_push

theorem Staged.pairwise (h : Staged path name xs) : xs.Pairwise InTurn := by
  obtain ⟨us, vs, rfl, hus, hvs, hpairwise⟩ := h
  exact pairwise_append_of_shallow path hus (fun issue hissue => (hvs issue hissue).of_push) hpairwise

/-- The issues of two members of a node are in turn, in whatever order the members are checked. -/
theorem Staged.append (hne : name ≠ other) (hxs : Staged path name xs) (hys : Staged path other ys) :
    (xs ++ ys).Pairwise InTurn := by
  refine List.pairwise_append.mpr ⟨hxs.pairwise, hys.pairwise, fun a ha b hb => ?_⟩
  rcases hxs.cases_of_mem a ha with ha' | ha'
  · exact inTurn_of_shallow_left ha' (hys.within b hb)
  · rcases hys.cases_of_mem b hb with hb' | hb'
    · exact inTurn_of_shallow_right (hxs.within a ha) hb'
    · exact inTurn_of_keys_ne hne ha' hb'

end

theorem staged_textIssues (path : Path) (parent : String) (members : Members) :
    Staged path "marks" (textIssues path parent members) := by
  refine ⟨_, _, rfl, ?_, ?_, ?_⟩
  · split
    · split
      · refine List.forall_mem_singleton.mpr (shallow_at (path.key "text") ?_).of_key
        simp
      · exact List.forall_mem_nil _
    · exact List.forall_mem_singleton.mpr (shallow_mismatch _ _ _).of_key
    · exact List.forall_mem_singleton.mpr (shallow_missing path "text")
  · split
    · exact List.forall_mem_nil _
    · split
      · exact List.forall_mem_singleton.mpr (within_at _ _)
      · exact (writes_markList _).within_path
  · split
    · exact .nil
    · split
      · exact List.pairwise_singleton _ _
      · exact pairwise_markListIssues path _

theorem staged_markPlaceIssues (type : NodeType) (path : Path) (members : Members) :
    Staged path "marks" (markPlaceIssues type path members) := by
  refine staged_of_shallow ?_
  unfold markPlaceIssues
  split
  · exact List.forall_mem_nil _
  · refine List.forall_mem_singleton.mpr (shallow_at (path.key "marks") ?_).of_key
    simp

theorem single_placeIssues (type : NodeType) (allowed : List NodeType) (parent : String) (path : Path) :
    Single path (placeIssues type allowed parent path) := by
  unfold placeIssues
  split
  · exact .nothing
  · exact .found _ rfl

theorem single_lengthIssues (least : Nat) (most : Option Nat) (path : Path) (length : Nat) :
    Single path (lengthIssues least most path length) := by
  unfold lengthIssues
  split
  · exact .found _ rfl
  · exact .nothing

theorem shallow_absenceIssues (rule : ContentRule) (path : Path) :
    ∀ issue ∈ absenceIssues rule path, Shallow path issue := by
  unfold absenceIssues
  split
  · exact List.forall_mem_singleton.mpr (shallow_missing path "content")
  · exact List.forall_mem_nil _

/-! ## Nodes -/

mutual

theorem pairwise_nodeIssues (path : Path) (parent : String) (allowed : List NodeType) :
    ∀ v : Json, (nodeIssues path parent allowed v).Pairwise InTurn
  | .obj members => by
    unfold nodeIssues
    split
    · exact List.pairwise_singleton _ _
    · split
      · exact List.pairwise_singleton _ _
      · rename_i type _
        -- place and attributes come first; behind them content and marks, two members of the node
        have hcontent := staged_contentIssues path type.name (contentRule type) members
        have hlast : Staged path "marks"
            (if type = .text then textIssues path parent members else markPlaceIssues type path members) := by
          split
          · exact staged_textIssues path parent members
          · exact staged_markPlaceIssues type path members
        have hrest := hcontent.append (by decide) hlast
        rw [List.append_assoc]
        refine pairwise_append_of_shallow path (fun issue hissue => ?_) (fun issue hissue => ?_) hrest
        · rcases List.mem_append.mp hissue with hissue | hissue
          · rcases List.mem_append.mp hissue with hissue | hissue
            · exact (single_placeIssues _ _ _ _).shallow issue hissue
            · exact shallow_attrsIssues members issue hissue
          · exact shallow_nodeAttrIssues type issue hissue
        · rcases List.mem_append.mp hissue with hissue | hissue
          · exact hcontent.within issue hissue
          · exact hlast.within issue hissue
    · exact List.pairwise_singleton _ _
  | .null | .bool _ | .num _ | .str _ | .arr _ => List.pairwise_singleton _ _

theorem staged_contentIssues (path : Path) (parent : String) (rule : ContentRule) :
    ∀ members : Members, Staged path "content" (contentIssues path parent rule members)
  | [] => staged_of_shallow (shallow_absenceIssues rule path)
  | (name, value) :: rest => by
    unfold contentIssues
    split
    · exact staged_of_within (writes_children parent rule value).within_path
        (pairwise_childrenIssues (path.key "content") parent rule value)
    · exact staged_contentIssues path parent rule rest

theorem pairwise_childrenIssues (path : Path) (parent : String) (rule : ContentRule) :
    ∀ v : Json, (childrenIssues path parent rule v).Pairwise InTurn
  | .arr items => by
    cases rule with
    | ignored => exact .nil
    | empty => exact pairwise_of_shallow (single_lengthIssues 0 (some 0) path items.length).shallow
    | children allowed least most =>
      exact pairwise_append_of_shallow path (single_lengthIssues least most path items.length).shallow
        (writes_items parent allowed 0 items).within_path (pairwise_itemIssues path parent allowed 0 items)
  | .null | .bool _ | .num _ | .str _ | .obj _ => by
    cases rule with
    | ignored => exact .nil
    | empty | children => exact List.pairwise_singleton _ _

theorem pairwise_itemIssues (path : Path) (parent : String) (allowed : Nat → List NodeType) (i : Nat) :
    ∀ items : List Json, (itemIssues path parent allowed i items).Pairwise InTurn
  | [] => .nil
  | item :: rest => by
    refine List.pairwise_append.mpr ⟨?_, ?_, fun a ha b hb => ?_⟩
    · exact pairwise_nodeIssues (path.index i) parent (allowed i) item
    · exact pairwise_itemIssues path parent allowed (i + 1) rest
    · obtain ⟨⟨item', j⟩, hitem, hb⟩ := mem_itemIssues_iff.mp hb
      have hij : i < j := List.le_snd_of_mem_zipIdx hitem
      exact inTurn_of_index_lt hij ((writes_node parent (allowed i) item).within_path a ha)
        ((writes_node parent (allowed j) item').within_path b hb)

end

/-! ## Documents -/

/-- **Issues come in the order of the document.** Of two issues whose paths part at items of one array, the
one that is listed first lies in the earlier item, unless the other one comes from a comparison of marks and
the first was found before in a single one of these marks. -/
theorem pairwise_inTurn_validate (v : Json) : (validate v).Pairwise InTurn := by
  cases v with
  | obj members =>
    rw [validate, documentIssues]
    refine pairwise_append_of_shallow .root (fun issue hissue => ?_) ?_ ?_
    · rcases List.mem_append.mp hissue with hissue | hissue
      · split at hissue
        · exact ((single_integerIssues _ _ _ _).shallow issue hissue).of_key
        · exact List.mem_singleton.mp hissue ▸ shallow_missing .root "version"
      · split at hissue
        · exact ((single_choiceIssues _ _ _).shallow issue hissue).of_key
        · exact List.mem_singleton.mp hissue ▸ shallow_missing .root "type"
    · split
      · exact fun issue hissue => ((writes_children _ _ _).within_path issue hissue).of_push
      · exact List.forall_mem_singleton.mpr (within_at _ .root)
    · split
      · exact pairwise_childrenIssues _ _ _ _
      · exact List.pairwise_singleton _ _
  | _ => exact List.pairwise_singleton _ _

/-- The first mark of a text marks code, beside which the second must not stand, and the third is a link without
attributes. -/
def lateComparison : Json :=
  docOf [.obj [("type", .str "paragraph"), ("content", .arr [
    .obj [("type", .str "text"), ("text", .str "x"), ("marks", .arr [
      .obj [("type", .str "code")], .obj [("type", .str "strong")], .obj [("type", .str "link")]])]])]]

/-- The second mark is reported behind the third. -/
theorem not_forall_pairwise_indices :
    ¬∀ v : Json, (validate v).Pairwise fun a b =>
      ∀ i j, a.path.fork? b.path = some (.index i, .index j) → i < j := by
  intro h
  let marks : Path := (((Path.root.key "content").index 0).key "content" |>.index 0).key "marks"
  have hissues : validate lateComparison =
      [missing (marks.index 2) "attrs", ⟨.incompatibleMarks "code" "strong", marks.index 1⟩] := rfl
  have hpairwise := h lateComparison
  rw [hissues] at hpairwise
  have hlt := List.rel_of_pairwise_cons hpairwise (List.mem_singleton_self _) 2 1 rfl
  contradiction

end Adf.Schema
