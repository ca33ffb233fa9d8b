import Adf.Proofs.Schema.Parts

/-!
# The checks accept the grammar

`validate_eq_nil_iff` says that the checks find nothing in a JSON value exactly if the grammar of documents
derives it. The recursion through the content follows the checks: `Meets` is what a content rule asks, and
`meets_of_isContent` and `isContent_of_meets` say that the rules ask what the grammar does.
-/

namespace Adf.Schema

/-! ## Texts -/

theorem unmarked_iff {members : Members} : unmarked members ↔ AbsentOrEmpty (members.lookup "marks") := by
  rw [unmarked]
  cases members.lookup "marks" with
  | none => exact iff_of_true rfl .absent
  | some marks =>
    cases marks with
    | arr items =>
      cases items with
      | nil => exact iff_of_true rfl .empty
      | cons item rest => exact iff_of_false Bool.false_ne_true (by rintro ⟨⟩)
    | _ => exact iff_of_false Bool.false_ne_true (by rintro ⟨⟩)

theorem markPlaceIssues_eq_nil_iff {type : NodeType} {path : Path} {members : Members} :
    markPlaceIssues type path members = [] ↔ AbsentOrEmpty (members.lookup "marks") := by
  rw [markPlaceIssues, ← unmarked_iff]
  cases unmarked members <;> simp

theorem textIssues_eq_nil_iff {path : Path} {parent : String} {members : Members} :
    textIssues path parent members = [] ↔ IsText parent (.obj members) := by
  have hparts : IsText parent (.obj members) ↔
      (∃ s, members.lookup "text" = some (.str s) ∧ s ≠ "") ∧
        (∀ marks, members.lookup "marks" = some marks → IsMarkList marks) ∧
          (parent = "codeBlock" → AbsentOrEmpty (members.lookup "marks")) := by
    constructor
    · rintro ⟨htext, hmarks, hunmarked⟩
      exact ⟨htext, hmarks, hunmarked⟩
    · rintro ⟨htext, hmarks, hunmarked⟩
      exact ⟨htext, hmarks, hunmarked⟩
  rw [hparts, textIssues, List.append_eq_nil_iff]
  refine and_congr ?_ ?_
  · cases members.lookup "text" with
    | none => simp
    | some text =>
      cases text with
      | str s => by_cases hs : s.isEmpty <;> simp_all
      | _ => simp
  · rw [← unmarked_iff]
    cases hmarks : members.lookup "marks" with
    | none => simp [unmarked, hmarks]
    | some marks =>
      by_cases hparent : parent = "codeBlock"
      · by_cases hunmarked : unmarked members
        · simp [hparent, hunmarked, markListIssues_eq_nil_iff]
        · simp [hparent, hunmarked]
      · simp [hparent, markListIssues_eq_nil_iff]

/-! ## Content -/

/-- What a content rule asks of the content of a node inside which the items stand. -/
def Meets (parent : String) (rule : ContentRule) (content : Option Json) : Prop :=
  match rule with
  | .ignored => True
  | .empty => AbsentOrEmpty content
  | .children allowed least most =>
    content = none ∧ least = 0 ∨
      ∃ items, content = some (.arr items) ∧ (least ≤ items.length ∧ ∀ m ∈ most, items.length ≤ m) ∧
        ∀ item ∈ items.zipIdx, IsNode parent (allowed item.2) item.1

theorem meets_any_iff {parent : String} {allowed : List NodeType} {content : Option Json} :
    Meets parent (.any allowed) content ↔
      content = none ∨ ∃ items, content = some (.arr items) ∧ ∀ item ∈ items, IsNode parent allowed item := by
  simp only [Meets, ContentRule.any, forall_zipIdx_iff (p := IsNode parent allowed)]
  simp

theorem meets_some_iff {parent : String} {allowed : List NodeType} {content : Option Json} :
    Meets parent (.some allowed) content ↔
      ∃ items, content = some (.arr items) ∧ items ≠ [] ∧ ∀ item ∈ items, IsNode parent allowed item := by
  simp only [Meets, ContentRule.some, forall_zipIdx_iff (p := IsNode parent allowed)]
  simp [Nat.one_le_iff_ne_zero]

theorem meets_contentRule_of_mem (rule : ContentRule) {types : List NodeType}
    (hrule : ∀ type ∈ types, contentRule type = rule) {type : NodeType} (h : type ∈ types)
    {content : Option Json} (hmeets : Meets type.name rule content) :
    Meets type.name (contentRule type) content := by
  rw [hrule type h]
  exact hmeets

theorem meets_of_isContent {type : NodeType} {content : Option Json} (h : IsContent type content) :
    Meets type.name (contentRule type) content := by
  cases h with
  | noInlines h =>
    exact meets_contentRule_of_mem (.any inlines) (by simp [contentRule]) h (meets_any_iff.mpr (Or.inl rfl))
  | inlines h each =>
    exact meets_contentRule_of_mem (.any inlines) (by simp [contentRule]) h
      (meets_any_iff.mpr (Or.inr ⟨_, rfl, each⟩))
  | noCode => exact meets_any_iff.mpr (Or.inl rfl)
  | code each => exact meets_any_iff.mpr (Or.inr ⟨_, rfl, each⟩)
  | plainBlocks h nonempty each =>
    exact meets_contentRule_of_mem (.some plainBlocks) (by simp [contentRule]) h
      (meets_some_iff.mpr ⟨_, rfl, nonempty, each⟩)
  | cellBlocks h nonempty each =>
    exact meets_contentRule_of_mem (.some cellBlocks) (by simp [contentRule]) h
      (meets_some_iff.mpr ⟨_, rfl, nonempty, each⟩)
  | listItems h nonempty each =>
    exact meets_contentRule_of_mem (.some [.listItem]) (by simp [contentRule]) h
      (meets_some_iff.mpr ⟨_, rfl, nonempty, each⟩)
  | rows nonempty each | cells nonempty each => exact meets_some_iff.mpr ⟨_, rfl, nonempty, each⟩
  | media media =>
    refine Or.inr ⟨_, rfl, by simp, ?_⟩
    exact List.forall_mem_singleton.mpr media
  | mediaAndCaption media caption =>
    refine Or.inr ⟨_, rfl, by simp, ?_⟩
    exact List.forall_mem_cons.mpr ⟨media, List.forall_mem_singleton.mpr caption⟩
  | nothing h none => exact meets_contentRule_of_mem .empty (by simp [contentRule]) h none
  | unread h => exact meets_contentRule_of_mem .ignored (by simp [contentRule]) h trivial

theorem isContent_of_meets {type : NodeType} {content : Option Json}
    (h : Meets type.name (contentRule type) content) : IsContent type content := by
  cases type with
  | paragraph | heading | caption =>
    rcases meets_any_iff.mp h with rfl | ⟨items, rfl, each⟩
    · exact .noInlines (by simp)
    · exact .inlines (by simp) each
  | codeBlock =>
    rcases meets_any_iff.mp h with rfl | ⟨items, rfl, each⟩
    · exact .noCode
    · exact .code each
  | blockquote | listItem =>
    obtain ⟨items, rfl, nonempty, each⟩ := meets_some_iff.mp h
    exact .plainBlocks (by simp) nonempty each
  | tableHeader | tableCell =>
    obtain ⟨items, rfl, nonempty, each⟩ := meets_some_iff.mp h
    exact .cellBlocks (by simp) nonempty each
  | bulletList | orderedList =>
    obtain ⟨items, rfl, nonempty, each⟩ := meets_some_iff.mp h
    exact .listItems (by simp) nonempty each
  | table =>
    obtain ⟨items, rfl, nonempty, each⟩ := meets_some_iff.mp h
    exact .rows nonempty each
  | tableRow =>
    obtain ⟨items, rfl, nonempty, each⟩ := meets_some_iff.mp h
    exact .cells nonempty each
  | mediaSingle =>
    rcases h with ⟨-, hleast⟩ | ⟨items, rfl, ⟨hleast, hmost⟩, each⟩
    · contradiction
    · rcases items with _ | ⟨first, _ | ⟨second, _ | ⟨third, rest⟩⟩⟩
      · simp at hleast
      · exact .media (each (first, 0) (by simp))
      · exact .mediaAndCaption (each (first, 0) (by simp)) (each (second, 1) (by simp))
      · simp at hmost
  | rule | hardBreak => exact .nothing (by simp) h
  | text | media => exact .unread (by simp) content

/-! ## Nodes -/

theorem isNode_obj_iff {members : Members} {type : NodeType} {parent : String} {allowed : List NodeType}
    (htype : members.lookup "type" = some (.str type.name)) :
    IsNode parent allowed (.obj members) ↔
      type ∈ allowed ∧ AbsentOrObject (members.lookup "attrs") ∧ HasAttributes (.obj members) type ∧
        IsContent type (members.lookup "content") ∧ (type = .text → IsText parent (.obj members)) ∧
          (type ≠ .text → AbsentOrEmpty (members.lookup "marks")) := by
  constructor
  · intro h
    cases h with
    | @node _ _ other _ typed placed attrs attributes content text unmarked =>
      obtain rfl : other = type := by
        have htyped : members.lookup "type" = some (.str other.name) := typed
        rw [htype, Option.some.injEq, Json.str.injEq, NodeType.name_inj] at htyped
        exact htyped.symm
      exact ⟨placed, attrs, attributes, content, text, unmarked⟩
  · rintro ⟨placed, attrs, attributes, content, text, unmarked⟩
    exact .node htype placed attrs attributes content text unmarked

theorem placeIssues_eq_nil_iff {type : NodeType} {allowed : List NodeType} {parent : String} {path : Path} :
    placeIssues type allowed parent path = [] ↔ type ∈ allowed := by
  rw [placeIssues]
  by_cases h : type ∈ allowed <;> simp [h]

theorem absenceIssues_eq_nil_iff {parent : String} {rule : ContentRule} {path : Path} :
    absenceIssues rule path = [] ↔ Meets parent rule none := by
  match rule with
  | .ignored => exact iff_of_true rfl trivial
  | .empty => exact iff_of_true rfl .absent
  | .children allowed 0 most => exact iff_of_true rfl (Or.inl ⟨rfl, rfl⟩)
  | .children allowed (least + 1) most =>
    refine iff_of_false (List.cons_ne_nil _ _) ?_
    rintro (⟨-, hleast⟩ | ⟨items, hitems, -⟩) <;> contradiction

mutual

theorem nodeIssues_eq_nil_iff : ∀ (v : Json) (path : Path) (parent : String) (allowed : List NodeType),
    nodeIssues path parent allowed v = [] ↔ IsNode parent allowed v
  | .obj members, path, parent, allowed => by
    have hnone (h : ∀ type : NodeType, members.lookup "type" ≠ some (.str type.name)) :
        ¬IsNode parent allowed (.obj members) := by
      intro hnode
      cases hnode with
      | @node _ _ type _ typed => exact h type typed
    rw [nodeIssues]
    cases htype : members.lookup "type" with
    | none =>
      refine iff_of_false (List.cons_ne_nil _ _) (hnone ?_)
      simp [htype]
    | some value =>
      cases value with
      | str name =>
        dsimp only
        cases hfind : knownNode? name with
        | none =>
          refine iff_of_false (List.cons_ne_nil _ _) (hnone ?_)
          intro type hname
          rw [htype, Option.some.injEq, Json.str.injEq] at hname
          rw [hname, knownNode?_name] at hfind
          contradiction
        | some type =>
          obtain rfl := knownNode?_eq_some_iff.mp hfind
          have hcontent := contentIssues_eq_nil_iff members path type.name (contentRule type)
          have hrule : Meets type.name (contentRule type) (members.lookup "content") ↔
              IsContent type (members.lookup "content") := ⟨isContent_of_meets, meets_of_isContent⟩
          have hlast : (if type = .text then textIssues path parent members
              else markPlaceIssues type path members) = [] ↔
                (type = .text → IsText parent (.obj members)) ∧
                  (type ≠ .text → AbsentOrEmpty (members.lookup "marks")) := by
            by_cases htext : type = .text
            · simp [htext, textIssues_eq_nil_iff]
            · simp [htext, markPlaceIssues_eq_nil_iff]
          dsimp only
          rw [isNode_obj_iff htype]
          simp only [List.append_eq_nil_iff, placeIssues_eq_nil_iff, attrsIssues_eq_nil_iff,
            nodeAttrIssues_eq_nil_iff, hcontent, hrule, hlast, and_assoc]
      | _ =>
        refine iff_of_false (List.cons_ne_nil _ _) (hnone ?_)
        simp [htype]
  | .null, _, _, _ | .bool _, _, _, _ | .num _, _, _, _ | .str _, _, _, _ | .arr _, _, _, _ => by
    refine iff_of_false (List.cons_ne_nil _ _) fun h => ?_
    cases h with
    | node typed => contradiction

theorem contentIssues_eq_nil_iff : ∀ (members : Members) (path : Path) (parent : String)
    (rule : ContentRule),
    contentIssues path parent rule members = [] ↔ Meets parent rule (members.lookup "content")
  | [], _, _, _ => absenceIssues_eq_nil_iff
  | (name, value) :: rest, path, parent, rule => by
    rw [contentIssues, Json.lookup_cons_eq]
    by_cases hname : name = "content"
    · rw [if_pos hname, if_pos hname.symm]
      exact childrenIssues_eq_nil_iff value (path.key "content") parent rule
    · rw [if_neg hname, if_neg (Ne.symm hname)]
      exact contentIssues_eq_nil_iff rest path parent rule

theorem childrenIssues_eq_nil_iff : ∀ (v : Json) (path : Path) (parent : String) (rule : ContentRule),
    childrenIssues path parent rule v = [] ↔ Meets parent rule (some v)
  | .arr items, path, parent, rule => by
    have heach := itemIssues_eq_nil_iff items path parent
    match rule with
    | .ignored => exact iff_of_true rfl trivial
    | .empty =>
      cases items with
      | nil => exact iff_of_true rfl .empty
      | cons item rest => exact iff_of_false (List.cons_ne_nil _ _) nofun
    | .children allowed least most =>
      simp only [childrenIssues]
      rw [List.append_eq_nil_iff, lengthIssues_eq_nil_iff, heach]
      simp [Meets]
  | .null, _, _, rule | .bool _, _, _, rule | .num _, _, _, rule | .str _, _, _, rule
  | .obj _, _, _, rule => by
    cases rule with
    | ignored => exact iff_of_true rfl trivial
    | empty => exact iff_of_false (List.cons_ne_nil _ _) nofun
    | children allowed least most =>
      refine iff_of_false (List.cons_ne_nil _ _) ?_
      rintro (⟨h, -⟩ | ⟨items, h, -⟩)
      · contradiction
      · exact nomatch h

theorem itemIssues_eq_nil_iff : ∀ (items : List Json) (path : Path) (parent : String)
    (allowed : Nat → List NodeType) (i : Nat),
    itemIssues path parent allowed i items = [] ↔
      ∀ item ∈ items.zipIdx i, IsNode parent (allowed item.2) item.1
  | [], _, _, _, _ => by simp [itemIssues]
  | item :: rest, path, parent, allowed, i => by
    have hitem := nodeIssues_eq_nil_iff item (path.index i) parent (allowed i)
    have hrest := itemIssues_eq_nil_iff rest path parent allowed (i + 1)
    rw [itemIssues, List.append_eq_nil_iff, hitem, hrest, List.zipIdx_cons, List.forall_mem_cons]

end

/-! ## Documents -/

theorem isDocument_obj_iff {members : Members} :
    IsDocument (.obj members) ↔
      (∃ version, members.lookup "version" = some version ∧ IsInteger (· = 1) version) ∧
        members.lookup "type" = some (.str "doc") ∧
          ∃ items, members.lookup "content" = some (.arr items) ∧
            ∀ item ∈ items, IsNode "doc" topLevel item := by
  constructor
  · rintro ⟨hversion, htype, hcontent⟩
    exact ⟨hversion, htype, hcontent⟩
  · rintro ⟨hversion, htype, hcontent⟩
    exact ⟨hversion, htype, hcontent⟩

/-- **The checks accept the grammar.** Nothing is found in a JSON value exactly if the grammar derives it. -/
theorem validate_eq_nil_iff (v : Json) : validate v = [] ↔ IsDocument v := by
  match v with
  | .null | .bool _ | .num _ | .str _ | .arr _ =>
    exact iff_of_false (List.cons_ne_nil _ _) fun h => nomatch h.typed
  | .obj members =>
    have hone {path : Path} {v : Json} :
        integerIssues (some 1) (some 1) path v = [] ↔ IsInteger (· = 1) v := by
      rw [integerIssues_eq_nil_iff]
      refine IsInteger.congr fun z => ?_
      simp only [Option.mem_some_iff, forall_eq']
      omega
    rw [validate, documentIssues, isDocument_obj_iff, List.append_eq_nil_iff, List.append_eq_nil_iff,
      and_assoc]
    refine and_congr ?_ (and_congr ?_ ?_)
    · cases members.lookup "version" with
      | none => simp
      | some version => simp [hone]
    · cases members.lookup "type" with
      | none => simp
      | some type => simp [choiceIssues_eq_nil_iff_isOneOf, IsOneOf]
    · cases members.lookup "content" with
      | none => simp
      | some content =>
        dsimp only
        rw [childrenIssues_eq_nil_iff, meets_any_iff]
        simp

end Adf.Schema
