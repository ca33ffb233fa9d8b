import Adf.Proofs.Schema.Acceptance
import Adf.Proofs.Schema.Visits

/-!
# Below an accepted document

Contents nest: the content of a document has items, these have a content again, and so on. `Reached` is what
lies below a value in this way, entered only through the values that a given predicate admits. Below an
accepted document all of it is known and in its place (`fits_of_reached`), as long as no text and no media is
entered: the checks do not read the content of these.
-/

namespace Adf.Schema

/-- What lies below `v`, where an item is entered from what holds it only if `enters` admits the holder. -/
inductive Reached (enters : Json → Prop) (v : Json) : Json → Prop
  | start : Reached enters v v
  | item {holder : Json} {items : List Json} {item : Json} (above : Reached enters v holder)
      (h : enters holder) (content : holder.get? "content" = some (.arr items)) (mem : item ∈ items) :
      Reached enters v item

/-- A value whose content the checks read, which is every value but a text or media. -/
def IsRead (holder : Json) : Prop :=
  ∀ type ∈ [NodeType.text, .media], holder.get? "type" ≠ some (.str type.name)

theorem isRead_of_type {holder : Json} (name : String) (typed : holder.get? "type" = some (.str name))
    (h : name ∉ ["text", "media"]) : IsRead holder := by
  intro type htype heq
  rw [typed, Option.some.injEq, Json.str.injEq] at heq
  subst heq
  have hnames : ∀ type ∈ [NodeType.text, .media], type.name ∈ ["text", "media"] := by decide
  exact h (hnames type htype)

/-- The item is an object of a known type, one that may stand at the `i`-th place in this holder. -/
def Fits (holder : Json) (i : Nat) (item : Json) : Prop :=
  ∃ parent members type, holder.get? "type" = some (.str parent) ∧ item = .obj members ∧
    members.lookup "type" = some (.str type.name) ∧ type ∈ placesIn parent i

/-! ## Nodes -/

section

variable {holder item : Json} {items : List Json} {parent : String} {allowed : List NodeType} {i : Nat}

theorem fits_of_isNode (typed : holder.get? "type" = some (.str parent))
    (h : IsNode parent (placesIn parent i) item) : Fits holder i item := by
  cases h with
  | @node _ _ type _ htype placed attrs attributes content text unmarked =>
    cases item with
    | obj members => exact ⟨parent, members, type, typed, rfl, htype, placed⟩
    | _ => contradiction

theorem contentRule_ne_ignored {type : NodeType} (h : type ∉ [NodeType.text, .media]) :
    contentRule type ≠ .ignored := by
  cases type with
  | text | media => exact absurd (by decide) h
  | _ => exact nofun

theorem contentRule_eq_empty : ∀ type ∈ [NodeType.rule, .hardBreak], contentRule type = .empty := by
  simp [contentRule]

/-- What the content rule of a type says of the single items. -/
theorem isNode_of_isContent {type : NodeType} (h : IsContent type (some (.arr items)))
    (hread : type ∉ [NodeType.text, .media]) (hitem : items[i]? = some item) :
    IsNode type.name (placesIn type.name i) item := by
  have hmeets := meets_of_isContent h
  rw [placesIn_name]
  cases hrule : contentRule type with
  | ignored => exact absurd hrule (contentRule_ne_ignored hread)
  | empty =>
    rw [hrule] at hmeets
    cases hmeets
    contradiction
  | children places least most =>
    rw [hrule] at hmeets
    rcases hmeets with ⟨hnone, -⟩ | ⟨_, hitems, -, each⟩
    · contradiction
    · obtain rfl := Json.arr.inj (Option.some.inj hitems)
      exact each (item, i) (List.mem_zipIdx_iff_getElem?.mpr hitem)

theorem isNode_item (h : IsNode parent allowed holder) (hread : IsRead holder)
    (hcontent : holder.get? "content" = some (.arr items)) (hitem : items[i]? = some item) :
    ∃ name, holder.get? "type" = some (.str name) ∧ IsNode name (placesIn name i) item := by
  cases h with
  | @node _ _ type _ typed placed attrs attributes content text unmarked =>
    rw [hcontent] at content
    exact ⟨type.name, typed, isNode_of_isContent content (fun hmem => hread type hmem typed) hitem⟩

theorem items_eq_nil_of_isNode (h : IsNode parent allowed holder) {type : NodeType}
    (htype : type ∈ [NodeType.rule, .hardBreak]) (typed : holder.get? "type" = some (.str type.name))
    (hcontent : holder.get? "content" = some (.arr items)) : items = [] := by
  cases h with
  | @node _ _ other _ htyped placed attrs attributes content text unmarked =>
    rw [typed, Option.some.injEq, Json.str.injEq, NodeType.name_inj] at htyped
    subst htyped
    have hmeets := meets_of_isContent content
    rw [contentRule_eq_empty type htype, hcontent] at hmeets
    cases hmeets
    rfl

end

/-! ## Documents -/

section

variable {v holder item : Json} {items : List Json} {i : Nat}

theorem typed_of_validate_eq_nil (h : validate v = []) : v.get? "type" = some (.str "doc") := by
  cases v with
  | obj members =>
    rw [validate, documentIssues, List.append_eq_nil_iff, List.append_eq_nil_iff] at h
    have htype := h.1.2
    cases hfound : members.lookup "type" with
    | none =>
      rw [hfound] at htype
      contradiction
    | some type =>
      rw [hfound] at htype
      obtain ⟨name, hname, rfl⟩ := choiceIssues_eq_nil_iff_isOneOf.mp htype
      obtain rfl := List.mem_singleton.mp hname
      exact hfound
  | _ => contradiction

theorem isNode_of_validate_eq_nil (h : validate v = []) (hcontent : v.get? "content" = some (.arr items)) :
    ∀ item ∈ items, IsNode "doc" topLevel item := by
  cases v with
  | obj members =>
    have hfound : members.lookup "content" = some (.arr items) := hcontent
    rw [validate, documentIssues, hfound, List.append_eq_nil_iff] at h
    have hmeets := (childrenIssues_eq_nil_iff _ _ _ _).mp h.2
    rcases meets_any_iff.mp hmeets with hnone | ⟨_, hitems, each⟩
    · contradiction
    · obtain rfl := Json.arr.inj (Option.some.inj hitems)
      exact each
  | _ => contradiction

/-- The items of the document itself, and of a node that is read. -/
theorem exists_isNode_item (h : validate v = [])
    (hholder : holder = v ∨ ∃ parent allowed, IsNode parent allowed holder) (hread : IsRead holder)
    (hcontent : holder.get? "content" = some (.arr items)) (hitem : items[i]? = some item) :
    ∃ name, holder.get? "type" = some (.str name) ∧ IsNode name (placesIn name i) item := by
  rcases hholder with rfl | ⟨parent, allowed, hnode⟩
  · exact ⟨"doc", typed_of_validate_eq_nil h,
      isNode_of_validate_eq_nil h hcontent item (List.mem_of_getElem? hitem)⟩
  · exact isNode_item hnode hread hcontent hitem

/-- What is reached is the document or a node. -/
theorem isNode_of_reached (h : validate v = []) (hreached : Reached IsRead v holder) :
    holder = v ∨ ∃ parent allowed, IsNode parent allowed holder := by
  induction hreached with
  | start => exact Or.inl rfl
  -- a content that is read puts each of its items under the grammar
  | item above hread content mem ih =>
    obtain ⟨i, hitem⟩ := List.mem_iff_getElem?.mp mem
    obtain ⟨name, -, hnode⟩ := exists_isNode_item h ih hread content hitem
    exact Or.inr ⟨name, placesIn name i, hnode⟩

end

/-- **Below an accepted document** every item of every content that is read is an object of a known type, and
one that may stand at its place; and the content of a rule or a hard break has no items. The content of a
text or of media is not read. -/
theorem fits_of_reached (v : Json) (h : validate v = []) (holder : Json) (items : List Json)
    (hreached : Reached IsRead v holder) (hread : IsRead holder)
    (hcontent : holder.get? "content" = some (.arr items)) :
    (∀ i item, items[i]? = some item → Fits holder i item) ∧
      ∀ type ∈ [NodeType.rule, .hardBreak], holder.get? "type" = some (.str type.name) → items = [] := by
  have hholder := isNode_of_reached h hreached
  constructor
  · intro i item hitem
    obtain ⟨name, typed, hnode⟩ := exists_isNode_item h hholder hread hcontent hitem
    exact fits_of_isNode typed hnode
  · intro type htype typed
    rcases hholder with rfl | ⟨parent, allowed, hnode⟩
    · rw [typed_of_validate_eq_nil h, Option.some.injEq, Json.str.injEq] at typed
      have hname : ∀ type ∈ [NodeType.rule, .hardBreak], type.name ≠ "doc" := by decide
      exact absurd typed.symm (hname type htype)
    · exact items_eq_nil_of_isNode hnode htype typed hcontent

/-- A quote around a paragraph. -/
def quoted : Json :=
  .obj [("type", .str "blockquote"), ("content", .arr [.obj [("type", .str "paragraph")]])]

theorem fits_of_reached_quoted :
    let items := [.obj [("type", .str "paragraph")]]
    validate (docOf [quoted]) = [] ∧ Reached IsRead (docOf [quoted]) quoted ∧ IsRead quoted ∧
      quoted.get? "content" = some (.arr items) ∧
        (∀ i item, items[i]? = some item → Fits quoted i item) ∧
          ∀ type ∈ [NodeType.rule, .hardBreak], quoted.get? "type" = some (.str type.name) → items = [] := by
  intro items
  have hissues : validate (docOf [quoted]) = [] := rfl
  have hdoc : IsRead (docOf [quoted]) := isRead_of_type "doc" rfl (by decide)
  have hquoted : IsRead quoted := isRead_of_type "blockquote" rfl (by decide)
  have hreached : Reached IsRead (docOf [quoted]) quoted :=
    .item .start hdoc rfl (List.mem_singleton_self _)
  exact ⟨hissues, hreached, hquoted, rfl, fits_of_reached _ hissues quoted items hreached hquoted rfl⟩

/-- A text with an unknown node in its content. -/
def panelInText : Json :=
  .obj [("type", .str "text"), ("text", .str "a"), ("content", .arr [.obj [("type", .str "panel")]])]

/-- Below an accepted document the content of a text may hold anything. -/
theorem not_forall_fits_of_reached :
    ¬∀ v : Json, validate v = [] → ∀ holder items, Reached (fun _ => True) v holder →
      holder.get? "content" = some (.arr items) → ∀ i item, items[i]? = some item → Fits holder i item := by
  intro h
  let paragraph : Json := .obj [("type", .str "paragraph"), ("content", .arr [panelInText])]
  have hissues : validate (docOf [paragraph]) = [] := rfl
  have hparagraph : Reached (fun _ => True) (docOf [paragraph]) paragraph :=
    .item .start trivial rfl (List.mem_singleton_self _)
  have htext : Reached (fun _ => True) (docOf [paragraph]) panelInText :=
    .item hparagraph trivial rfl (List.mem_singleton_self _)
  obtain ⟨parent, members, type, -, hmembers, htype, -⟩ :=
    h (docOf [paragraph]) hissues panelInText _ htext rfl 0 _ rfl
  obtain rfl := Json.obj.inj hmembers
  have hname : (Named.find? "panel" : Option NodeType) = some type :=
    NodeType.find?_eq_some_iff.mpr (Json.str.inj (Option.some.inj htype)).symm
  contradiction

end Adf.Schema
