import Adf.Document
import Adf.Proofs.Indices
import Adf.Proofs.Schema.Attributes

/-!
# What the checks say about written nodes

The checks look at JSON and know nothing of nodes. `nodeIssues_toJson` says that they find nothing in a node
that has been written exactly if the node is well formed and has a type that is allowed at its place, and
`validate_toValue_eq_nil_iff` says the same of whole documents.
-/

namespace Adf.Schema

/-! ## Marks -/

theorem markIssues_written (m : Mark) (path : Path) :
    markIssues path m.toJson.sorted = [] ↔ m.wellFormed := by
  have hattrs : m.members.lookup "attrs" = (Json.present? (.obj m.attrs)).map Json.sorted :=
    m.lookup_members "attrs"
  rw [m.sorted_toJson, markIssues, m.lookup_type]
  simp only [knownMark?_name, attrsIssues_written path hattrs]
  exact markAttrIssues_written m path hattrs

theorem markType?_written (m : Mark) : markType? m.toJson.sorted = some m.type := by
  have hget : m.toJson.sorted.get? "type" = some (.str m.type.name) := by
    rw [m.sorted_toJson]
    exact m.lookup_type
  rw [markType?, hget]
  exact knownMark?_name m.type

theorem type_eq_code_iff (m : Mark) : m.type = .code ↔ m = .code := by
  cases m <;> simp [Mark.type]

theorem exclusionIssues_written (marks : List Mark) (path : Path) :
    exclusionIssues path (marks.map fun m => m.toJson.sorted) = [] ↔
      .code ∉ marks ∨ ∀ m ∈ marks, m.type = .code ∨ m.type = .link := by
  have hany : (marks.map fun m => m.toJson.sorted).any (markType? · = some .code) ↔ .code ∈ marks := by
    simp [markType?_written, type_eq_code_iff]
  rw [exclusionIssues]
  by_cases hcode : .code ∈ marks
  · rw [if_pos (hany.mpr hcode)]
    refine (flatMap_zipIdx_map_eq_nil_iff (p := fun m => m.type = .code ∨ m.type = .link) ?_).trans
      (or_iff_right (not_not_intro hcode)).symm
    intro m i
    simp only [markType?_written]
    by_cases h : m.type ∈ besideCode
    · simp only [if_pos h, true_iff]
      simpa [besideCode] using h
    · simp only [if_neg h]
      simpa [besideCode] using h
  · rw [if_neg (fun h => hcode (hany.mp h))]
    exact iff_of_true rfl (Or.inl hcode)

theorem markListIssues_written (marks : List Mark) (path : Path) :
    markListIssues path (.arr (marks.map fun m => m.toJson.sorted)) = [] ↔ marksWellFormed marks := by
  rw [markListIssues, List.append_eq_nil_iff, exclusionIssues_written, marksWellFormed_iff,
    flatMap_zipIdx_map_eq_nil_iff fun m i => markIssues_written m (path.index i)]

/-! ## Texts -/

/-- The marks of a node as they are found among its members. -/
theorem lookup_marks (node : Node) :
    node.members.lookup "marks" =
      if node.marks = [] then none else some (.arr (node.marks.map fun m => m.toJson.sorted)) := by
  have hlookup : node.members.lookup "marks" =
      (Json.present? (.arr (node.marks.map Mark.toJson))).map Json.sorted := node.lookup_members "marks"
  rw [hlookup]
  cases node.marks with
  | nil => rfl
  | cons m rest => simp [Json.present?, Json.sorted, Json.sortedItems_eq_map]

theorem unmarked_written (node : Node) : unmarked node.members ↔ node.marks = [] := by
  rw [unmarked, lookup_marks]
  cases node.marks with
  | nil => simp
  | cons m rest => simp

/-- A text must not be empty, and its marks must fit; in a code block it has none. -/
theorem textIssues_written (s : String) (marks : List Mark) (path : Path) (parent : String) :
    textIssues path parent (Node.text s marks).members = [] ↔
      (Leaf.text s marks).wellFormed ∧ (parent = NodeType.codeBlock.name → marks = []) := by
  have htext : (Node.text s marks).members.lookup "text" =
      (Json.present? (.str s)).map Json.sorted := (Node.text s marks).lookup_members "text"
  have hmarks : (Node.text s marks).members.lookup "marks" =
      if marks = [] then none else some (.arr (marks.map fun m => m.toJson.sorted)) :=
    lookup_marks (Node.text s marks)
  have hunmarked : unmarked (Node.text s marks).members ↔ marks = [] := unmarked_written (Node.text s marks)
  rw [textIssues, List.append_eq_nil_iff, htext, hmarks, Leaf.wellFormed, Bool.and_eq_true, and_assoc]
  refine and_congr ?_ ?_
  · by_cases hs : s.isEmpty <;> simp [Json.present?, Json.sorted, hs]
  · by_cases hnone : marks = []
    · subst hnone
      simp [marksWellFormed]
    · rw [if_neg hnone]
      by_cases hparent : parent = NodeType.codeBlock.name
      · have hboth : parent = "codeBlock" ∧ ¬unmarked (Node.text s marks).members :=
          ⟨hparent, fun h => hnone (hunmarked.mp h)⟩
        simp only [if_pos hboth]
        exact iff_of_false (List.cons_ne_nil _ _) fun h => hnone (h.2 hparent)
      · have hnot : ¬(parent = "codeBlock" ∧ ¬unmarked (Node.text s marks).members) :=
          fun h => hparent h.1
        simp only [if_neg hnot]
        rw [markListIssues_written]
        exact ⟨fun h => ⟨h, fun hp => absurd hp hparent⟩, And.left⟩

/-! ## Content -/

theorem contentIssues_eq (path : Path) (parent : String) (rule : ContentRule) (members : Members) :
    contentIssues path parent rule members =
      match members.lookup "content" with
      | some value => childrenIssues (path.key "content") parent rule value
      | none => absenceIssues rule path := by
  induction members with
  | nil => rfl
  | cons member rest ih =>
    obtain ⟨name, value⟩ := member
    rw [contentIssues, Json.lookup_cons_eq]
    by_cases h : name = "content"
    · rw [if_pos h, if_pos h.symm]
    · rw [if_neg h, if_neg (Ne.symm h), ih]

theorem listToJson_eq_map (nodes : List Node) : Node.listToJson nodes = nodes.map Node.toJson := by
  induction nodes with
  | nil => rfl
  | cons node rest ih => rw [Node.listToJson, ih, List.map_cons]

theorem lengthIssues_eq_nil_iff {least length : Nat} {most : Option Nat} {path : Path} :
    lengthIssues least most path length = [] ↔ least ≤ length ∧ ∀ m ∈ most, length ≤ m := by
  rw [lengthIssues]
  have hmost : most.any (· < length) = false ↔ ∀ m ∈ most, length ≤ m := by
    cases most <;> simp
  by_cases h : length < least
  · rw [if_pos (by simp [h])]
    exact iff_of_false (List.cons_ne_nil _ _) fun hall => Nat.not_le_of_lt h hall.1
  · rw [← hmost, and_iff_right (Nat.le_of_not_lt h)]
    cases most.any (· < length) <;> simp [h]

/-- The children of a node are as many as they must be, and each of them is without an issue. No children
are the same as none that are written. -/
theorem contentIssues_written (node : Node) (path : Path) (parent : String) (allowed : Nat → List NodeType)
    (least : Nat) (most : Option Nat) :
    contentIssues path parent (.children allowed least most) node.members = [] ↔
      (least ≤ node.content.length ∧ ∀ m ∈ most, node.content.length ≤ m) ∧
        itemIssues (path.key "content") parent allowed 0
          (node.content.map fun child => child.toJson.sorted) = [] := by
  have hcontent : node.members.lookup "content" =
      (Json.present? (.arr (Node.listToJson node.content))).map Json.sorted := node.lookup_members "content"
  rw [contentIssues_eq, hcontent, listToJson_eq_map]
  cases hc : node.content with
  | nil =>
    cases least <;> simp [Json.present?, absenceIssues, itemIssues]
  | cons child rest =>
    have hpresent : (Json.present? (.arr ((child :: rest).map Node.toJson))).map Json.sorted =
        some (.arr ((child :: rest).map fun child => child.toJson.sorted)) := by
      simp [Json.present?, Json.sorted, Json.sortedItems_eq_map]
    rw [hpresent]
    simp only [childrenIssues]
    rw [List.append_eq_nil_iff, lengthIssues_eq_nil_iff, List.length_map]

/-! ## Content rules -/

theorem mem_inlines_iff {type : NodeType} : type ∈ inlines ↔ type.isInline := by
  cases type <;> decide

theorem mem_plainBlocks_iff {type : NodeType} : type ∈ plainBlocks ↔ type.isPlainBlock := by
  cases type <;> decide

theorem mem_cellBlocks_iff {type : NodeType} : type ∈ cellBlocks ↔ type.isCellBlock := by
  cases type <;> decide

theorem mem_topLevel_iff {type : NodeType} : type ∈ topLevel ↔ type.isTopBlock := by
  cases type <;> decide

theorem forall_zipIdx_type_mem_iff {allowed : List NodeType} {nodes : List Node} {i : Nat} :
    (∀ child ∈ nodes.zipIdx i, child.1.type ∈ allowed) ↔ ∀ node ∈ nodes, node.type ∈ allowed :=
  forall_zipIdx_iff (p := fun node : Node => node.type ∈ allowed)

/-- The children are as many, and of such types, as the rule for this container says, and the texts of a
code block have no marks. -/
theorem admits_iff_contentRule (c : Container) (content : List Node) :
    ∃ allowed least most, contentRule c.type = .children allowed least most ∧
      (c.admits content ↔
        (least ≤ content.length ∧ ∀ m ∈ most, content.length ≤ m) ∧
          (∀ child ∈ content.zipIdx, child.1.type ∈ allowed child.2) ∧
            (c.type.name = NodeType.codeBlock.name → ∀ node ∈ content, node.marks = [])) := by
  have hlength : 1 ≤ content.length ↔ content.isEmpty = false := by
    cases content <;> simp
  have hname : c.type.name = NodeType.codeBlock.name ↔ c.type = .codeBlock := by
    cases c.type <;> decide
  cases c with
  | codeBlock language =>
    refine ⟨_, _, _, rfl, ?_⟩
    simp only [forall_zipIdx_type_mem_iff, hname]
    simp [Container.admits, Container.type, forall_and]
  | mediaSingle layout =>
    have hother : ¬NodeType.mediaSingle.name = NodeType.codeBlock.name := by decide
    refine ⟨_, _, _, rfl, ?_⟩
    rcases content with _ | ⟨first, _ | ⟨second, _ | ⟨third, rest⟩⟩⟩
    · simp [Container.admits]
    · simp [Container.admits, Container.type, hother]
    · simp [Container.admits, Container.type, hother]
    · simp [Container.admits]
  | _ =>
    refine ⟨_, _, _, rfl, ?_⟩
    simp only [forall_zipIdx_type_mem_iff, hname, hlength]
    simp [Container.admits, Container.type, mem_inlines_iff, mem_plainBlocks_iff, mem_cellBlocks_iff]

/-! ## Nodes -/

/-- The parts of the check of a node. -/
theorem nodeIssues_written (node : Node) (path : Path) (parent : String) (allowed : List NodeType) :
    nodeIssues path parent allowed node.toJson.sorted = [] ↔
      node.type ∈ allowed ∧ nodeAttrIssues node.type (attrs? node.members) path = [] ∧
        contentIssues path node.type.name (contentRule node.type) node.members = [] ∧
          (if node.type = .text then textIssues path parent node.members
            else markPlaceIssues node.type path node.members) = [] := by
  have hattrs : node.members.lookup "attrs" = (Json.present? (.obj node.attrs)).map Json.sorted :=
    node.lookup_members "attrs"
  have hplace : placeIssues node.type allowed parent path = [] ↔ node.type ∈ allowed := by
    rw [placeIssues]
    by_cases h : node.type ∈ allowed <;> simp [h]
  rw [node.sorted_toJson, nodeIssues, node.lookup_type]
  simp only [knownNode?_name, attrsIssues_written path hattrs, List.append_eq_nil_iff, hplace,
    and_true, and_assoc]

theorem nodeIssues_leaf (l : Leaf) (path : Path) (parent : String) (allowed : List NodeType) :
    nodeIssues path parent allowed (Node.leaf l).toJson.sorted = [] ↔
      l.type ∈ allowed ∧ l.wellFormed ∧ (parent = NodeType.codeBlock.name → (Node.leaf l).marks = []) := by
  have hattrs : (Node.leaf l).members.lookup "attrs" = (Json.present? (.obj l.attrs)).map Json.sorted :=
    (Node.leaf l).lookup_members "attrs"
  have hcontent : (Node.leaf l).members.lookup "content" = none := (Node.leaf l).lookup_members "content"
  have hunmarked : markPlaceIssues l.type path (Node.leaf l).members = [] ↔ (Node.leaf l).marks = [] := by
    rw [markPlaceIssues, ← unmarked_written]
    by_cases h : unmarked (Node.leaf l).members <;> simp [h]
  rw [nodeIssues_written]
  refine and_congr_right fun _ => ?_
  rw [contentIssues_eq, hcontent]
  cases l with
  | text s marks =>
    show [] = [] ∧ [] = [] ∧ textIssues path parent (Node.text s marks).members = [] ↔ _
    rw [textIssues_written]
    simp [Node.marks]
  | media m =>
    show mediaIssues (attrs? (Node.leaf (.media m)).members) path = [] ∧ [] = [] ∧
      markPlaceIssues (Leaf.media m).type path (Node.leaf (.media m)).members = [] ↔ _
    rw [mediaIssues_written m path hattrs, hunmarked]
    simp [Node.marks, Leaf.wellFormed]
  | rule =>
    show [] = [] ∧ [] = [] ∧ markPlaceIssues Leaf.rule.type path (Node.leaf .rule).members = [] ↔ _
    rw [hunmarked]
    simp [Node.marks, Leaf.wellFormed]
  | hardBreak =>
    show [] = [] ∧ [] = [] ∧ markPlaceIssues Leaf.hardBreak.type path (Node.leaf .hardBreak).members = [] ↔ _
    rw [hunmarked]
    simp [Node.marks, Leaf.wellFormed]

theorem nodeIssues_container {c : Container} {types : Nat → List NodeType} {least : Nat} {most : Option Nat}
    (hrule : contentRule c.type = .children types least most) (content : List Node) (path : Path)
    (parent : String) (allowed : List NodeType) :
    nodeIssues path parent allowed (Node.container c content).toJson.sorted = [] ↔
      c.type ∈ allowed ∧ c.wellFormed ∧ (least ≤ content.length ∧ ∀ m ∈ most, content.length ≤ m) ∧
        itemIssues (path.key "content") c.type.name types 0
          (content.map fun child => child.toJson.sorted) = [] := by
  have hattrs : (Node.container c content).members.lookup "attrs" =
      (Json.present? (.obj c.attrs)).map Json.sorted := (Node.container c content).lookup_members "attrs"
  have hunmarked : markPlaceIssues c.type path (Node.container c content).members = [] := by
    rw [markPlaceIssues, if_pos ((unmarked_written _).mpr rfl)]
  have hnottext : ¬c.type = .text := by cases c <;> exact nofun
  rw [nodeIssues_written]
  show c.type ∈ allowed ∧ nodeAttrIssues c.type (attrs? (Node.container c content).members) path = [] ∧
    contentIssues path c.type.name (contentRule c.type) (Node.container c content).members = [] ∧
      (if c.type = .text then _ else markPlaceIssues c.type path _) = [] ↔ _
  rw [nodeAttrIssues_container c path hattrs, hrule, contentIssues_written, if_neg hnottext, hunmarked,
    eq_self, and_true]
  rfl

mutual

/-- **The checks know the well-formed nodes.** -/
theorem nodeIssues_toJson : ∀ (node : Node) (path : Path) (parent : String) (allowed : List NodeType),
    nodeIssues path parent allowed node.toJson.sorted = [] ↔
      node.type ∈ allowed ∧ node.wellFormed ∧ (parent = NodeType.codeBlock.name → node.marks = [])
  | .leaf l, path, parent, allowed => nodeIssues_leaf l path parent allowed
  | .container c content, path, parent, allowed => by
    obtain ⟨types, least, most, hrule, hadmits⟩ := admits_iff_contentRule c content
    have hchildren := itemIssues_toJson content (path.key "content") c.type.name types 0
    rw [nodeIssues_container hrule, hchildren, Node.wellFormed_container, hadmits]
    constructor
    · rintro ⟨htype, hc, hlength, htypes, hwell, hmarks⟩
      exact ⟨htype, ⟨hc, ⟨hlength, htypes, hmarks⟩, hwell⟩, fun _ => rfl⟩
    · rintro ⟨htype, ⟨hc, ⟨hlength, htypes, hmarks⟩, hwell⟩, -⟩
      exact ⟨htype, hc, hlength, htypes, hwell, hmarks⟩

theorem itemIssues_toJson : ∀ (nodes : List Node) (path : Path) (parent : String)
    (allowed : Nat → List NodeType) (i : Nat),
    itemIssues path parent allowed i (nodes.map fun node => node.toJson.sorted) = [] ↔
      (∀ child ∈ nodes.zipIdx i, child.1.type ∈ allowed child.2) ∧
        (∀ node ∈ nodes, node.wellFormed) ∧
          (parent = NodeType.codeBlock.name → ∀ node ∈ nodes, node.marks = [])
  | [], path, parent, allowed, i => by simp [itemIssues]
  | node :: rest, path, parent, allowed, i => by
    have hnode := nodeIssues_toJson node (path.index i) parent (allowed i)
    have hrest := itemIssues_toJson rest path parent allowed (i + 1)
    rw [List.map_cons, itemIssues, List.append_eq_nil_iff, hnode, hrest, List.zipIdx_cons,
      List.forall_mem_cons, List.forall_mem_cons]
    constructor
    · rintro ⟨⟨htype, hwell, hmarks⟩, htypes, hwells, hmarkss⟩
      exact ⟨⟨htype, htypes⟩, ⟨hwell, hwells⟩,
        fun hparent => List.forall_mem_cons.mpr ⟨hmarks hparent, hmarkss hparent⟩⟩
    · rintro ⟨⟨htype, htypes⟩, ⟨hwell, hwells⟩, hmarks⟩
      exact ⟨⟨htype, hwell, fun hparent => (List.forall_mem_cons.mp (hmarks hparent)).1⟩,
        htypes, hwells, fun hparent => (List.forall_mem_cons.mp (hmarks hparent)).2⟩

end

/-! ## Documents -/

/-- A document is written without an issue exactly if its nodes are well formed and may stand at the top. -/
theorem documentIssues_toValue (d : Document) (path : Path) :
    documentIssues path d.toValue = [] ↔
      ∀ node ∈ d.content, node.type.isTopBlock ∧ node.wellFormed := by
  have hmembers : ∃ members, d.toValue = .obj members ∧ members.lookup "version" = some (.nat 1) ∧
      members.lookup "type" = some (.str "doc") ∧
        members.lookup "content" = some (.arr (d.content.map fun node => node.toJson.sorted)) := by
    have hitems : Json.sorted (.arr (Node.listToJson d.content)) =
        .arr (d.content.map fun node => node.toJson.sorted) := by
      rw [listToJson_eq_map, Json.sorted, Json.sortedItems_eq_map, List.map_map]
      rfl
    refine ⟨_, rfl, ?_, ?_, ?_⟩
    · rw [Json.lookup_sortedMembers]
      rfl
    · rw [Json.lookup_sortedMembers]
      rfl
    · rw [Json.lookup_sortedMembers, ← hitems]
      rfl
  obtain ⟨members, hvalue, hversion, htype, hcontent⟩ := hmembers
  have hone : integerIssues (some 1) (some 1) (path.key "version") (.nat 1) = [] :=
    integerIssues_nat_eq_nil_iff.mpr (by simp)
  have hdoc : choiceIssues ["doc"] (path.key "type") (.str "doc") = [] :=
    choiceIssues_eq_nil_iff.mpr List.mem_cons_self
  have hnotcode : ¬"doc" = NodeType.codeBlock.name := by decide
  have hany : childrenIssues (path.key "content") "doc" (.any topLevel)
      (.arr (d.content.map fun node => node.toJson.sorted)) = [] ↔
        ∀ node ∈ d.content, node.type.isTopBlock ∧ node.wellFormed := by
    simp only [childrenIssues, ContentRule.any]
    rw [List.append_eq_nil_iff, lengthIssues_eq_nil_iff, itemIssues_toJson, forall_zipIdx_type_mem_iff]
    constructor
    · rintro ⟨-, htypes, hwell, -⟩ node hnode
      exact ⟨mem_topLevel_iff.mp (htypes node hnode), hwell node hnode⟩
    · intro h
      refine ⟨⟨Nat.zero_le _, by simp⟩, fun node hnode => mem_topLevel_iff.mpr (h node hnode).1,
        fun node hnode => (h node hnode).2, fun hcode => absurd hcode hnotcode⟩
  rw [hvalue, documentIssues, hversion, htype, hcontent]
  dsimp only
  rw [hone, hdoc, List.nil_append, List.nil_append, hany]

/-- **The checks agree with the nodes.** Nothing is found in what is written of a document exactly if the
document is well formed. -/
theorem validate_toValue_eq_nil_iff (d : Document) : validate d.toValue = [] ↔ d.wellFormed := by
  rw [validate, documentIssues_toValue, Document.wellFormed, List.all_eq_true]
  refine forall_congr' fun node => imp_congr_right fun _ => ?_
  rw [Bool.and_eq_true]

end Adf.Schema
