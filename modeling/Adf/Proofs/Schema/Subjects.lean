import Adf.Proofs.Schema.Order
import Mathlib.Data.Set.Image

/-!
# What issues are about

An issue is about a place in a document: the one where it was found or, if something is missing, the one where
that should be. A check of one value finds at most one issue, which is about this value. As different checks
look at different places, no two issues of a document are about the same place and of the same kind
(`tidy_validate`). The members on the way to such a place are always some of those that a rule names, whatever
else an object holds.
-/

namespace Adf.Schema

/-! ## Places -/

/-- The names of the members that the checks look at. -/
def checkedNames : List String :=
  ["version", "type", "content", "attrs", "marks", "text", "level", "language", "order",
    "isNumberColumnEnabled", "layout", "url", "id", "collection", "alt", "href", "title", "color"]

/-- The step leads to an item of a list or to a member that the checks look at. -/
def Segment.Checked : Segment → Prop
  | .key name => name ∈ checkedNames
  | .index _ => True

@[simp] theorem Segment.checked_key {name : String} : (key name).Checked ↔ name ∈ checkedNames := Iff.rfl

@[simp] theorem Segment.checked_index (i : Nat) : (index i).Checked := trivial

namespace Path

/-- Every step of the path leads to where the checks look. -/
def Checked (p : Path) : Prop := ∀ s ∈ p.segments, s.Checked

theorem append_right_inj {p q r : Path} : p ++ q = p ++ r ↔ q = r := by
  constructor
  · intro h
    have hsegments : p.segments ++ q.segments = p.segments ++ r.segments := congrArg segments h
    exact congrArg mk (List.append_cancel_left hsegments)
  · rintro rfl
    rfl

end Path

/-- The place that the issue is about. -/
def Issue.subject (issue : Issue) : Path :=
  match issue.problem with
  | .missingProperty name => issue.path.key name
  | _ => issue.path

/-- The issue is about the path or a place below it, and the checks look at all on the way there. -/
def Inside (path : Path) (issue : Issue) : Prop := ∃ q : Path, q.Checked ∧ issue.subject = path ++ q

/-- The issues are about different places, or their problems are of different kinds. -/
def Apart (a b : Issue) : Prop := a.subject ≠ b.subject ∨ a.problem.code ≠ b.problem.code

/-- There is at most one issue, and it is about the path itself. -/
def Sole (path : Path) (issues : List Issue) : Prop :=
  issues = [] ∨ ∃ issue, issues = [issue] ∧ issue.subject = path

/-- The issues are about the path or places below it, and no two of them are about the same place and of the
same kind. -/
structure Tidy (path : Path) (issues : List Issue) : Prop where
  inside : ∀ issue ∈ issues, Inside path issue
  apart : issues.Pairwise Apart

/-- Issues as in `Tidy`, each about a place behind one of these steps. -/
structure Filed (path : Path) (steps : Set Segment) (issues : List Issue) : Prop where
  inside : ∀ issue ∈ issues, ∃ s ∈ steps, Inside (path.push s) issue
  apart : issues.Pairwise Apart

section

variable {path : Path} {a b : Issue} {xs ys issues : List Issue} {s t : Segment} {steps steps' : Set Segment}

theorem inside_self (h : a.subject = path) : Inside path a :=
  ⟨.root, List.forall_mem_nil _, h.trans (Path.append_root path).symm⟩

theorem Inside.of_push (h : Inside (path.push s) a) (hs : s.Checked) : Inside path a := by
  obtain ⟨q, hq, h⟩ := h
  exact ⟨_, List.forall_mem_cons.mpr ⟨hs, hq⟩, h.trans (Path.push_append path q s)⟩

/-- Places behind different steps are different. -/
theorem apart_of_ne (hne : s ≠ t) (ha : Inside (path.push s) a) (hb : Inside (path.push t) b) : Apart a b := by
  refine Or.inl fun heq => hne ?_
  obtain ⟨q, -, ha⟩ := ha
  obtain ⟨r, -, hb⟩ := hb
  rw [ha, hb, Path.push_append, Path.push_append, Path.append_right_inj] at heq
  exact (List.cons.inj (congrArg Path.segments heq)).1

/-- A place behind a step is another one than the place before it. -/
theorem apart_of_inside (ha : a.subject = path) (hb : Inside (path.push s) b) : Apart a b := by
  refine Or.inl fun heq => ?_
  obtain ⟨q, -, hb⟩ := hb
  rw [Path.push_append] at hb
  have hpath : path ++ Path.root = path ++ ⟨s :: q.segments⟩ := by
    rw [Path.append_root, ← hb, ← heq, ha]
  exact List.cons_ne_nil _ _ (congrArg Path.segments (Path.append_right_inj.mp hpath)).symm

theorem Sole.tidy (h : Sole path issues) : Tidy path issues := by
  obtain rfl | ⟨issue, rfl, hissue⟩ := h
  · exact ⟨List.forall_mem_nil _, .nil⟩
  · exact ⟨List.forall_mem_singleton.mpr (inside_self hissue), List.pairwise_singleton _ _⟩

theorem filed_nil : Filed path steps [] := ⟨List.forall_mem_nil _, .nil⟩

theorem Tidy.filed (h : Tidy (path.push s) issues) : Filed path {s} issues :=
  ⟨fun issue hissue => ⟨s, rfl, h.inside issue hissue⟩, h.apart⟩

theorem Filed.tidy (h : Filed path steps issues) (hsteps : ∀ s ∈ steps, s.Checked) : Tidy path issues := by
  refine ⟨fun issue hissue => ?_, h.apart⟩
  obtain ⟨s, hs, hinside⟩ := h.inside issue hissue
  exact hinside.of_push (hsteps s hs)

theorem Filed.mono (h : Filed path steps issues) (hsteps : steps ⊆ steps') : Filed path steps' issues := by
  refine ⟨fun issue hissue => ?_, h.apart⟩
  obtain ⟨s, hs, hinside⟩ := h.inside issue hissue
  exact ⟨s, hsteps hs, hinside⟩

theorem Tidy.of_push (h : Tidy (path.push s) issues) (hs : s.Checked) : Tidy path issues :=
  h.filed.tidy fun _ heq => heq ▸ hs

theorem Filed.append (hxs : Filed path steps xs) (hys : Filed path steps' ys)
    (hdisjoint : ∀ s ∈ steps, s ∉ steps') : Filed path (steps ∪ steps') (xs ++ ys) := by
  refine ⟨fun issue hissue => ?_, List.pairwise_append.mpr ⟨hxs.apart, hys.apart, fun a ha b hb => ?_⟩⟩
  · rcases List.mem_append.mp hissue with hissue | hissue
    · obtain ⟨s, hs, hinside⟩ := hxs.inside issue hissue
      exact ⟨s, Or.inl hs, hinside⟩
    · obtain ⟨s, hs, hinside⟩ := hys.inside issue hissue
      exact ⟨s, Or.inr hs, hinside⟩
  · obtain ⟨s, hs, ha⟩ := hxs.inside a ha
    obtain ⟨t, ht, hb⟩ := hys.inside b hb
    refine apart_of_ne ?_ ha hb
    rintro rfl
    exact hdisjoint s hs ht

theorem Tidy.append (hxs : Tidy (path.push s) xs) (hys : Tidy (path.push t) ys) (hne : s ≠ t) :
    Filed path {s, t} (xs ++ ys) :=
  hxs.filed.append hys.filed fun _ heq heq' => hne (heq.symm.trans heq')

/-- An issue about a value as a whole, and behind it issues about its parts. -/
theorem Sole.append (hxs : Sole path xs) (hys : Filed path steps ys) (hsteps : ∀ s ∈ steps, s.Checked) :
    Tidy path (xs ++ ys) := by
  refine ⟨fun issue hissue => ?_, List.pairwise_append.mpr ⟨hxs.tidy.apart, hys.apart, fun a ha b hb => ?_⟩⟩
  · rcases List.mem_append.mp hissue with hissue | hissue
    · exact hxs.tidy.inside issue hissue
    · exact (hys.tidy hsteps).inside issue hissue
  · obtain ⟨t, -, hb⟩ := hys.inside b hb
    obtain rfl | ⟨issue, rfl, hissue⟩ := hxs
    · contradiction
    · obtain rfl := List.mem_singleton.mp ha
      exact apart_of_inside hissue hb

/-- Issues about the items of a list, one item after the other. -/
theorem filed_zipIdx {α : Type} {f : α × Nat → List Issue} {items : List α}
    (h : ∀ item, Tidy (path.index item.2) (f item)) :
    Filed path (Set.range .index) (items.zipIdx.flatMap f) := by
  refine ⟨fun issue hissue => ?_, List.pairwise_flatMap.mpr ⟨?_, (pairwise_zipIdx_lt items 0).imp ?_⟩⟩
  · obtain ⟨item, -, hissue⟩ := List.mem_flatMap.mp hissue
    exact ⟨.index item.2, ⟨item.2, rfl⟩, (h item).inside issue hissue⟩
  · exact fun item _ => (h item).apart
  · intro item later hlt a ha b hb
    have hne : Segment.index item.2 ≠ .index later.2 := fun heq => Nat.ne_of_lt hlt (Segment.index.inj heq)
    exact apart_of_ne hne ((h item).inside a ha) ((h later).inside b hb)

end

/-! ## Values and attributes -/

theorem sole_nil (path : Path) : Sole path [] := Or.inl rfl

theorem sole_singleton (issue : Issue) : Sole issue.subject [issue] := Or.inr ⟨issue, rfl, rfl⟩

theorem sole_mismatch (path : Path) (expected : String) (got : Json) :
    Sole path [mismatch path expected got] := sole_singleton (mismatch path expected got)

theorem sole_missing (path : Path) (name : String) : Sole (path.key name) [missing path name] :=
  sole_singleton (missing path name)

theorem Single.sole {path : Path} {issues : List Issue} (h : Single path issues) : Sole path issues := by
  cases h with
  | nothing => exact sole_nil path
  | found problem hproblem =>
    refine Or.inr ⟨_, rfl, ?_⟩
    cases problem with
    | missingProperty name => contradiction
    | _ => rfl

section

variable {path : Path} {attrs : Members} {check : Path → Json → List Issue}

theorem filed_optional (name : String) (hcheck : ∀ p v, Single p (check p v)) :
    Filed (path.key "attrs") {.key name} (optional (some attrs) name path check) := by
  refine Tidy.filed (Sole.tidy ?_)
  unfold optional
  split
  · exact (hcheck _ _).sole
  · exact sole_nil _

theorem filed_required (name : String) (hcheck : ∀ p v, Single p (check p v)) :
    Filed (path.key "attrs") {.key name} (required (some attrs) name path check) := by
  refine Tidy.filed (Sole.tidy ?_)
  unfold required
  dsimp only
  split
  · exact (hcheck _ _).sole
  · exact sole_missing _ name

theorem filed_mediaKeys (type : Json) :
    Filed (path.key "attrs") {.key "url", .key "id", .key "collection"}
      ((mediaKeys type).flatMap fun name => required (some attrs) name path stringIssues) := by
  have hkey (name : String) :
      Filed (path.key "attrs") {.key name} (required (some attrs) name path stringIssues) :=
    filed_required name single_stringIssues
  have hfile := (hkey "id").append (hkey "collection") (by simp)
  unfold mediaKeys
  split
  · simpa using (hkey "url").mono (by simp)
  · simpa using hfile.mono (by simp [Set.insert_subset_iff])
  · simpa using hfile.mono (by simp [Set.insert_subset_iff])
  · exact filed_nil

theorem tidy_mediaIssues : Tidy (path.key "attrs") (mediaIssues (some attrs) path) := by
  have htype : Filed (path.key "attrs") {.key "type"}
      (required (some attrs) "type" path (choiceIssues mediaTypes)) := filed_required "type" (single_choiceIssues _)
  unfold mediaIssues
  split
  · rw [List.append_nil]
    exact htype.tidy (by simp [checkedNames])
  · refine (htype.append ((filed_mediaKeys _).append (filed_optional "alt" single_stringIssues) ?_) ?_).tidy ?_
    · simp
    · simp
    · simp [checkedNames]

theorem tidy_nodeAttrIssues (type : NodeType) :
    Tidy (path.key "attrs") (nodeAttrIssues type (some attrs) path) := by
  cases type with
  | heading => exact (filed_required "level" (single_integerIssues _ _)).tidy (by simp [checkedNames])
  | codeBlock => exact (filed_optional "language" single_stringIssues).tidy (by simp [checkedNames])
  | orderedList =>
    exact (filed_optional "order" (single_integerIssues _ _)).tidy (by simp [checkedNames])
  | table =>
    exact ((filed_optional "isNumberColumnEnabled" single_booleanIssues).append
      (filed_optional "layout" (single_choiceIssues _)) (by simp)).tidy (by simp [checkedNames])
  | mediaSingle => exact (filed_optional "layout" (single_choiceIssues _)).tidy (by simp [checkedNames])
  | media => exact tidy_mediaIssues
  | _ => exact (sole_nil _).tidy

theorem tidy_markAttrIssues (type : MarkType) :
    Tidy (path.key "attrs") (markAttrIssues type (some attrs) path) := by
  cases type with
  | link =>
    exact ((filed_required "href" single_stringIssues).append
      (filed_optional "title" single_stringIssues) (by simp)).tidy (by simp [checkedNames])
  | subsup => exact (filed_required "type" (single_choiceIssues _)).tidy (by simp [checkedNames])
  | textColor => exact (filed_required "color" single_colorIssues).tidy (by simp [checkedNames])
  | _ => exact (sole_nil _).tidy

/-- Attributes that are no object are reported, and they are treated as if they were not there. -/
theorem attrsIssues_cases (path : Path) (members : Members) :
    attrsIssues path members = [] ∨
      attrs? members = none ∧ ∃ got, attrsIssues path members = [mismatch (path.key "attrs") "object" got] := by
  unfold attrsIssues attrs?
  cases members.lookup "attrs" with
  | none => exact Or.inl rfl
  | some value =>
    cases value with
    | obj attrs => exact Or.inl rfl
    | _ => exact Or.inr ⟨rfl, _, rfl⟩

theorem tidy_attributes (f : Option Members → List Issue) (members : Members)
    (hnone : f none = [] ∨ f none = [missing path "attrs"])
    (hsome : ∀ attrs, Tidy (path.key "attrs") (f (some attrs))) :
    Tidy (path.key "attrs") (attrsIssues path members ++ f (attrs? members)) := by
  have habsent : Tidy (path.key "attrs") (f none) := by
    rcases hnone with h | h
    · exact h ▸ (sole_nil _).tidy
    · exact h ▸ (sole_missing path "attrs").tidy
  rcases attrsIssues_cases path members with hattrs | ⟨hattrs, got, hmismatch⟩
  · rw [hattrs, List.nil_append]
    cases attrs? members with
    | none => exact habsent
    | some attrs => exact hsome attrs
  · rw [hattrs, hmismatch]
    have hself : Inside (path.key "attrs") (mismatch (path.key "attrs") "object" got) := inside_self rfl
    refine ⟨List.forall_mem_cons.mpr ⟨hself, habsent.inside⟩, List.pairwise_cons.mpr ⟨?_, habsent.apart⟩⟩
    -- two issues about one place: the attributes are no object, and they are missed
    intro b hb
    rcases hnone with h | h
    · rw [h] at hb
      contradiction
    · rw [h] at hb
      obtain rfl := List.mem_singleton.mp hb
      exact Or.inr (by simp [mismatch, missing, Problem.code])

theorem nodeAttrIssues_none (type : NodeType) (path : Path) :
    nodeAttrIssues type none path = [] ∨ nodeAttrIssues type none path = [missing path "attrs"] := by
  cases type with
  | heading | media => exact Or.inr rfl
  | _ => exact Or.inl rfl

theorem markAttrIssues_none (type : MarkType) (path : Path) :
    markAttrIssues type none path = [] ∨ markAttrIssues type none path = [missing path "attrs"] := by
  cases type with
  | link | subsup | textColor => exact Or.inr rfl
  | _ => exact Or.inl rfl

end

/-! ## Marks and texts -/

theorem tidy_markIssues (path : Path) (mark : Json) : Tidy path (markIssues path mark) := by
  cases mark with
  | obj members =>
    rw [markIssues.eq_def]
    dsimp only
    split
    · exact (sole_missing path "type").tidy.of_push (by simp [checkedNames])
    · rename_i name _
      split
      · exact (sole_singleton ⟨.unknownMark name, path.key "type"⟩).tidy.of_push (by simp [checkedNames])
      · rename_i type _
        have hattributes := tidy_attributes (markAttrIssues type · path) members
          (markAttrIssues_none type path) fun _ => tidy_markAttrIssues type
        refine Tidy.of_push (s := .key "attrs") ?_ (by simp [checkedNames])
        rcases attrsIssues_cases path members with hattrs | ⟨-, got, hmismatch⟩
        · rw [hattrs] at hattributes ⊢
          exact hattributes
        · rw [hmismatch]
          exact (sole_mismatch (path.key "attrs") _ _).tidy
    · exact (sole_mismatch (path.key "type") _ _).tidy.of_push (by simp [checkedNames])
  | _ => exact (sole_mismatch path _ _).tidy

theorem code_ne_of_mem_markIssues {path : Path} {mark : Json} {issue : Issue} (h : issue ∈ markIssues path mark)
    (mark' other : String) : issue.problem.code ≠ (Problem.incompatibleMarks mark' other).code := by
  have hplain := (shallow_markIssues path mark issue h).plain
  cases hproblem : issue.problem with
  | incompatibleMarks m o => exact absurd hproblem (hplain m o)
  | _ => simp [Problem.code]

theorem filed_exclusionIssues (path : Path) (marks : List Json) :
    Filed path (Set.range .index) (exclusionIssues path marks) := by
  unfold exclusionIssues
  split
  · refine filed_zipIdx fun ⟨mark, i⟩ => ?_
    dsimp only
    split
    · rename_i type _
      split
      · exact (sole_nil _).tidy
      · exact (sole_singleton ⟨.incompatibleMarks "code" type.name, path.index i⟩).tidy
    · exact (sole_nil _).tidy
  · exact filed_nil

theorem tidy_markListIssues (path : Path) (value : Json) : Tidy path (markListIssues path value) := by
  cases value with
  | arr marks =>
    have hmarks : Filed path (Set.range .index)
        (marks.zipIdx.flatMap fun item => markIssues (path.index item.2) item.1) :=
      filed_zipIdx fun item => tidy_markIssues (path.index item.2) item.1
    have hexclusions := filed_exclusionIssues path marks
    have hfiled : Filed path (Set.range .index) (markListIssues path (.arr marks)) := by
      refine ⟨List.forall_mem_append.mpr ⟨hmarks.inside, hexclusions.inside⟩, ?_⟩
      -- a comparison of marks is not about other places than their checks, but it is of another kind
      refine List.pairwise_append.mpr ⟨hmarks.apart, hexclusions.apart, fun a ha b hb => Or.inr ?_⟩
      obtain ⟨⟨mark, i⟩, -, ha⟩ := List.mem_flatMap.mp ha
      obtain ⟨j, m, o, rfl⟩ := exists_of_mem_exclusionIssues hb
      exact code_ne_of_mem_markIssues ha m o
    exact hfiled.tidy (by simp)
  | _ => exact (sole_mismatch path _ _).tidy

/-- The issues of a text and of its marks. -/
theorem filed_textIssues (path : Path) (parent : String) (members : Members) :
    Filed path {.key "text", .key "marks"} (textIssues path parent members) := by
  unfold textIssues
  refine Tidy.append (Sole.tidy ?_) ?_ (by simp)
  · split
    · split
      · exact sole_singleton ⟨.stringTooShort 0 1, path.key "text"⟩
      · exact sole_nil _
    · exact sole_mismatch (path.key "text") _ _
    · exact sole_missing path "text"
  · split
    · exact (sole_nil _).tidy
    · split
      · exact (sole_singleton ⟨.marksNotAllowed "text", path.key "marks"⟩).tidy
      · exact tidy_markListIssues (path.key "marks") _

theorem filed_markPlaceIssues (type : NodeType) (path : Path) (members : Members) :
    Filed path {.key "text", .key "marks"} (markPlaceIssues type path members) := by
  unfold markPlaceIssues
  split
  · exact filed_nil
  · exact (sole_singleton ⟨.marksNotAllowed type.name, path.key "marks"⟩).tidy.filed.mono (by simp)

/-! ## Nodes -/

theorem sole_absenceIssues (rule : ContentRule) (path : Path) :
    Sole (path.key "content") (absenceIssues rule path) := by
  unfold absenceIssues
  split
  · exact sole_missing path "content"
  · exact sole_nil _

mutual

theorem tidy_nodeIssues (path : Path) (parent : String) (allowed : List NodeType) :
    ∀ v : Json, Tidy path (nodeIssues path parent allowed v)
  | .obj members => by
    unfold nodeIssues
    split
    · exact (sole_missing path "type").tidy.of_push (by simp [checkedNames])
    · rename_i name _
      split
      · exact (sole_singleton ⟨.unknownNode name, path.key "type"⟩).tidy.of_push (by simp [checkedNames])
      · rename_i type _
        have hattributes := tidy_attributes (nodeAttrIssues type · path) members
          (nodeAttrIssues_none type path) fun _ => tidy_nodeAttrIssues type
        have hcontent := tidy_contentIssues path type.name (contentRule type) members
        have hlast : Filed path {.key "text", .key "marks"}
            (if type = .text then textIssues path parent members else markPlaceIssues type path members) := by
          split
          · exact filed_textIssues path parent members
          · exact filed_markPlaceIssues type path members
        -- each part of a node lies in members of its own
        have hparts := (hattributes.filed.append hcontent.filed (by simp)).append hlast (by simp)
        have hnode := (single_placeIssues type allowed parent path).sole.append hparts (by simp [checkedNames])
        simpa only [List.append_assoc] using hnode
    · exact (sole_mismatch (path.key "type") _ _).tidy.of_push (by simp [checkedNames])
  | .null | .bool _ | .num _ | .str _ | .arr _ => (sole_mismatch path _ _).tidy

theorem tidy_contentIssues (path : Path) (parent : String) (rule : ContentRule) :
    ∀ members : Members, Tidy (path.key "content") (contentIssues path parent rule members)
  | [] => (sole_absenceIssues rule path).tidy
  | (name, value) :: rest => by
    unfold contentIssues
    split
    · exact tidy_childrenIssues (path.key "content") parent rule value
    · exact tidy_contentIssues path parent rule rest

theorem tidy_childrenIssues (path : Path) (parent : String) (rule : ContentRule) :
    ∀ v : Json, Tidy path (childrenIssues path parent rule v)
  | .arr items => by
    cases rule with
    | ignored => exact (sole_nil path).tidy
    | empty => exact (single_lengthIssues 0 (some 0) path items.length).sole.tidy
    | children allowed least most =>
      exact (single_lengthIssues least most path items.length).sole.append
        (filed_itemIssues path parent allowed 0 items) (by rintro _ ⟨j, -, rfl⟩; simp)
  | .null | .bool _ | .num _ | .str _ | .obj _ => by
    cases rule with
    | ignored => exact (sole_nil path).tidy
    | empty | children => exact (sole_mismatch path _ _).tidy

theorem filed_itemIssues (path : Path) (parent : String) (allowed : Nat → List NodeType) (i : Nat) :
    ∀ items : List Json, Filed path {s | ∃ j ≥ i, s = .index j} (itemIssues path parent allowed i items)
  | [] => filed_nil
  | item :: rest => by
    have hitem := tidy_nodeIssues (path.index i) parent (allowed i) item
    have hrest := filed_itemIssues path parent allowed (i + 1) rest
    refine (hitem.filed.append hrest ?_).mono ?_
    · rintro s rfl ⟨j, hj, heq⟩
      exact Nat.ne_of_lt hj (Segment.index.inj heq)
    · rintro s (rfl | ⟨j, hj, rfl⟩)
      · exact ⟨i, Nat.le_refl i, rfl⟩
      · exact ⟨j, Nat.le_of_succ_le hj, rfl⟩

end

/-! ## Documents -/

/-- **No two issues of a document** are about the same place and of the same kind. -/
theorem tidy_validate (v : Json) : Tidy .root (validate v) := by
  cases v with
  | obj members =>
    have hfiled : Filed .root ({.key "version", .key "type"} ∪ {.key "content"})
        (documentIssues .root (.obj members)) := by
      unfold documentIssues
      refine Filed.append (Tidy.append (Sole.tidy ?_) (Sole.tidy ?_) (by simp)) (Tidy.filed ?_) (by simp)
      · split
        · exact (single_integerIssues _ _ _ _).sole
        · exact sole_missing .root "version"
      · split
        · exact (single_choiceIssues _ _ _).sole
        · exact sole_missing .root "type"
      · split
        · exact tidy_childrenIssues _ _ _ _
        · exact (sole_missing .root "content").tidy
    exact hfiled.tidy (by simp [checkedNames])
  | _ => exact (sole_mismatch .root _ _).tidy

end Adf.Schema
