import Adf.Proofs.Schema.Reporting
import Adf.Proofs.Schema.Visits

/-!
# Blocks side by side

The blocks of a document are checked one after the other, and each for itself: what is found in a block is
what is found in it on its own, moved to its place (`validate_docOf`). So the checks of two contents, one
behind the other, find what they find of each, and the indices of the second go on behind the first
(`validate_docOf_append`).
-/

namespace Adf.Schema

/-! ## Places of blocks -/

/-- The place of the `i`-th block of a document. -/
def Path.block (i : Nat) : Path := (root.key "content").index i

/-- The same place in a document with `n` more blocks at its beginning. -/
def Path.raised (n : Nat) (p : Path) : Path :=
  match p.segments with
  | .key "content" :: .index i :: rest => ⟨.key "content" :: .index (i + n) :: rest⟩
  | _ => p

namespace Issue

def raised (n : Nat) (issue : Issue) : Issue := { issue with path := issue.path.raised n }

/-- Whether the issue lies at the `i`-th block or below it. -/
def isIn (i : Nat) (issue : Issue) : Bool := (Path.block i).segments <+: issue.path.segments

variable {i j n : Nat} {issue : Issue}

@[simp] theorem raised_below_block : (issue.below (.block i)).raised n = issue.below (.block (i + n)) := rfl

@[simp] theorem isIn_below_block : (issue.below (.block i)).isIn j = decide (j = i) := by
  have hpath : (issue.below (.block i)).path.segments = .key "content" :: .index i :: issue.path.segments := rfl
  have hblock : (Path.block j).segments = [.key "content", .index j] := rfl
  rw [isIn, hpath, hblock]
  simp [List.cons_prefix_cons]

/-- No issue lies in two blocks. -/
theorem isIn_inj (hi : issue.isIn i) (hj : issue.isIn j) : i = j := by
  obtain ⟨rest, hi⟩ := of_decide_eq_true hi
  obtain ⟨rest', hj⟩ := of_decide_eq_true hj
  have hsegments : Segment.key "content" :: .index i :: rest = .key "content" :: .index j :: rest' :=
    hi.trans hj.symm
  injections

end Issue

/-! ## Blocks on their own -/

/-- What is found in a block of a document, if the block is all there is. -/
def blockIssues (block : Json) : List Issue := nodeIssues .root "doc" topLevel block

/-- What is found in blocks from the `i`-th on. -/
def blocksIssues (i : Nat) : List Json → List Issue
  | [] => []
  | block :: rest => (blockIssues block).map (Issue.below (.block i)) ++ blocksIssues (i + 1) rest

theorem nodeIssues_block (i : Nat) (block : Json) :
    nodeIssues (.block i) "doc" topLevel block = (blockIssues block).map (Issue.below (.block i)) := by
  have hrelocates := (writes_node "doc" topLevel block).relocates (.block i) .root
  rwa [Path.append_root] at hrelocates

theorem itemIssues_blocks (i : Nat) (blocks : List Json) :
    itemIssues (Path.root.key "content") "doc" (fun _ => topLevel) i blocks = blocksIssues i blocks := by
  induction blocks generalizing i with
  | nil => rw [itemIssues, blocksIssues]
  | cons block rest ih => rw [itemIssues, blocksIssues, ih, ← nodeIssues_block, Path.block]

/-- **What is found in a document** with its envelope in order is what is found in its blocks. -/
theorem validate_docOf (blocks : List Json) : validate (docOf blocks) = blocksIssues 0 blocks := by
  have henvelope : validate (docOf blocks) =
      childrenIssues (Path.root.key "content") "doc" (.any topLevel) (.arr blocks) := rfl
  have hlength : lengthIssues 0 none (Path.root.key "content") blocks.length = [] := by simp [lengthIssues]
  rw [henvelope, ContentRule.any, childrenIssues, hlength, itemIssues_blocks, List.nil_append]

theorem blocksIssues_append (i : Nat) (xs ys : List Json) :
    blocksIssues i (xs ++ ys) = blocksIssues i xs ++ blocksIssues (i + xs.length) ys := by
  induction xs generalizing i with
  | nil => rfl
  | cons block xs ih =>
    rw [List.cons_append, blocksIssues, blocksIssues, ih, List.append_assoc, List.length_cons, Nat.add_right_comm,
      Nat.add_assoc]

theorem map_raised_blocksIssues (n i : Nat) (blocks : List Json) :
    (blocksIssues i blocks).map (Issue.raised n) = blocksIssues (i + n) blocks := by
  induction blocks generalizing i with
  | nil => rfl
  | cons block rest ih =>
    rw [blocksIssues, blocksIssues, List.map_append, List.map_map, ih, Nat.add_right_comm]
    rfl

theorem isIn_of_mem_blockIssues {i : Nat} {block : Json} {issue : Issue}
    (h : issue ∈ (blockIssues block).map (Issue.below (.block i))) : issue.isIn i := by
  obtain ⟨inner, -, rfl⟩ := List.mem_map.mp h
  simp

theorem exists_isIn_of_mem_blocksIssues {i : Nat} {blocks : List Json} {issue : Issue}
    (h : issue ∈ blocksIssues i blocks) : ∃ j, i ≤ j ∧ j < i + blocks.length ∧ issue.isIn j := by
  induction blocks generalizing i with
  | nil => contradiction
  | cons block rest ih =>
    rcases List.mem_append.mp h with hblock | hrest
    · exact ⟨i, Nat.le_refl i, by simp, isIn_of_mem_blockIssues hblock⟩
    · obtain ⟨j, hle, hlt, hin⟩ := ih hrest
      refine ⟨j, by omega, ?_, hin⟩
      rw [List.length_cons]
      omega

section

variable (xs ys : List Json) (block : Json)

/-- What is found in a document is what is found before a block, in it and behind it. -/
theorem validate_docOf_around :
    validate (docOf (xs ++ block :: ys)) =
      blocksIssues 0 xs ++ ((blockIssues block).map (Issue.below (.block xs.length)) ++
        blocksIssues (xs.length + 1) ys) := by
  rw [validate_docOf, blocksIssues_append, Nat.zero_add, blocksIssues]

theorem not_isIn_before : ∀ issue ∈ blocksIssues 0 xs, ¬issue.isIn xs.length := by
  intro issue h hin
  obtain ⟨j, -, hlt, hj⟩ := exists_isIn_of_mem_blocksIssues h
  have := Issue.isIn_inj hj hin
  omega

theorem not_isIn_behind : ∀ issue ∈ blocksIssues (xs.length + 1) ys, ¬issue.isIn xs.length := by
  intro issue h hin
  obtain ⟨j, hle, -, hj⟩ := exists_isIn_of_mem_blocksIssues h
  have := Issue.isIn_inj hj hin
  omega

theorem filter_isIn_validate :
    (validate (docOf (xs ++ block :: ys))).filter (Issue.isIn xs.length) =
      (blockIssues block).map (Issue.below (.block xs.length)) := by
  rw [validate_docOf_around, List.filter_append, List.filter_append,
    List.filter_eq_nil_iff.mpr (not_isIn_before xs), List.filter_eq_nil_iff.mpr (not_isIn_behind xs ys),
    List.nil_append, List.append_nil, List.filter_eq_self]
  exact fun issue => isIn_of_mem_blockIssues

theorem filter_not_isIn_validate :
    (validate (docOf (xs ++ block :: ys))).filter (!·.isIn xs.length) =
      blocksIssues 0 xs ++ blocksIssues (xs.length + 1) ys := by
  have hinside : ((blockIssues block).map (Issue.below (.block xs.length))).filter (!·.isIn xs.length) = [] := by
    rw [List.filter_eq_nil_iff]
    intro issue h
    simpa using isIn_of_mem_blockIssues h
  have hoff {issues : List Issue} (h : ∀ issue ∈ issues, ¬issue.isIn xs.length) :
      issues.filter (!·.isIn xs.length) = issues :=
    List.filter_eq_self.mpr fun issue hissue => by simpa using h issue hissue
  rw [validate_docOf_around, List.filter_append, List.filter_append, hinside, List.nil_append,
    hoff (not_isIn_before xs), hoff (not_isIn_behind xs ys)]

end

/-- **Validation is a homomorphism on the content of a document.** What is found in one content behind another is
what is found in the first and what is found in the second, with the indices raised by the length of the first.
So what is found in a block does not depend on the other blocks, and where a block is replaced, nothing
changes but what is found in it. Everything that is found lies in a block. -/
theorem validate_docOf_append :
    (∀ xs ys, validate (docOf (xs ++ ys)) =
      validate (docOf xs) ++ (validate (docOf ys)).map (Issue.raised xs.length)) ∧
    (∀ xs block ys, (validate (docOf (xs ++ block :: ys))).filter (Issue.isIn xs.length) =
      (validate (docOf [block])).map (Issue.raised xs.length)) ∧
    (∀ xs block block' ys, (validate (docOf (xs ++ block :: ys))).filter (!·.isIn xs.length) =
      (validate (docOf (xs ++ block' :: ys))).filter (!·.isIn xs.length)) ∧
    ∀ blocks, ∀ issue ∈ validate (docOf blocks), ∃ i < blocks.length, issue.isIn i := by
  refine ⟨fun xs ys => ?_, fun xs block ys => ?_, fun xs block block' ys => ?_, fun blocks issue h => ?_⟩
  · rw [validate_docOf, validate_docOf, validate_docOf, blocksIssues_append, map_raised_blocksIssues, Nat.add_comm]
  · rw [filter_isIn_validate, validate_docOf, map_raised_blocksIssues, Nat.zero_add, blocksIssues, blocksIssues,
      List.append_nil]
  · rw [filter_not_isIn_validate, filter_not_isIn_validate]
  · rw [validate_docOf] at h
    obtain ⟨i, -, hlt, hin⟩ := exists_isIn_of_mem_blocksIssues h
    exact ⟨i, by omega, hin⟩

/-- A block of a type that there is not. -/
def panelBlock : Json := .obj [("type", .str "panel")]

/-- A heading without a level, around a quote. -/
def quoteInHeading : Json :=
  .obj [("type", .str "heading"), ("content", .arr [.null, .obj [("type", .str "blockquote")]])]

theorem validate_panel_and_heading :
    validate (docOf [panelBlock, quoteInHeading]) =
      validate (docOf [panelBlock]) ++ (validate (docOf [quoteInHeading])).map (Issue.raised 1) ∧
    (missing (((Path.block 1).key "content").index 1) "content" ∈ validate (docOf [panelBlock, quoteInHeading]) ∧
      ∃ i < 2, (missing (((Path.block 1).key "content").index 1) "content").isIn i) ∧
    validate (docOf [panelBlock, quoteInHeading]) =
      [⟨.unknownNode "panel", (Path.block 0).key "type"⟩, missing (.block 1) "attrs",
        mismatch (((Path.block 1).key "content").index 0) "object" .null,
        ⟨.nodeNotAllowed "blockquote" "heading", ((Path.block 1).key "content").index 1⟩,
        missing (((Path.block 1).key "content").index 1) "content"] := by
  obtain ⟨happend, -, -, hinside⟩ := validate_docOf_append
  have hissues : validate (docOf [panelBlock, quoteInHeading]) =
      [⟨.unknownNode "panel", (Path.block 0).key "type"⟩, missing (.block 1) "attrs",
        mismatch (((Path.block 1).key "content").index 0) "object" .null,
        ⟨.nodeNotAllowed "blockquote" "heading", ((Path.block 1).key "content").index 1⟩,
        missing (((Path.block 1).key "content").index 1) "content"] := rfl
  have hlast : missing (((Path.block 1).key "content").index 1) "content" ∈
      validate (docOf [panelBlock, quoteInHeading]) := by
    rw [hissues]
    simp
  exact ⟨happend [panelBlock] [quoteInHeading], ⟨hlast, hinside _ _ hlast⟩, hissues⟩

end Adf.Schema
