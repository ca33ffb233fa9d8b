import Adf.Proofs.Schema.Parts

/-!
# Where the checks look

The checks go from a document to the nodes in its content, and from a node to the nodes in its content.
`Visited` lists the nodes that they come to, each with the path to it; `Reports` says what they report of one
of them, apart from the nodes below it. `reports_of_mem_validate` puts the two together: every issue of a
document is reported of the document itself or of one of the nodes that are visited.
-/

namespace Adf.Schema

/-! ## Following a path -/

/-- A step into a value, to the member of that name or to the item at that index. -/
def Segment.step? : Segment → Json → Option Json
  | .key name, v => v.get? name
  | .index i, .arr items => items[i]?
  | .index _, _ => none

namespace Path

/-- The value at the end of a path, if the path leads somewhere. -/
def find? (p : Path) (v : Json) : Option Json := p.segments.foldlM (fun w s => s.step? w) v

theorem find?_root (v : Json) : root.find? v = some v := rfl

theorem find?_push (p : Path) (s : Segment) (v : Json) : (p.push s).find? v = (p.find? v).bind s.step? := by
  simp [find?, push, List.foldlM_append]

variable {p : Path} {v w : Json}

theorem find?_key (h : p.find? v = some w) (name : String) : (p.key name).find? v = w.get? name := by
  rw [key, find?_push, h]
  rfl

theorem find?_index {items : List Json} (h : p.find? v = some (.arr items)) (i : Nat) :
    (p.index i).find? v = items[i]? := by
  rw [index, find?_push, h]
  rfl

theorem index_ne_root (p : Path) (i : Nat) : p.index i ≠ root := by
  intro h
  exact List.append_ne_nil_of_right_ne_nil _ (List.cons_ne_nil _ _) (congrArg segments h)

end Path

/-! ## What a parent allows -/

/-- The types that may stand at the `i`-th place of a content. -/
def ContentRule.places (rule : ContentRule) (i : Nat) : List NodeType :=
  match rule with
  | .children allowed _ _ => allowed i
  | .ignored | .empty => []

/-- The types that may stand at the `i`-th place inside a node of the type `parent`, or inside a `doc`. -/
def placesIn (parent : String) (i : Nat) : List NodeType :=
  match (Named.find? parent : Option NodeType) with
  | some type => (contentRule type).places i
  | none => if parent = "doc" then topLevel else []

theorem placesIn_name (type : NodeType) (i : Nat) : placesIn type.name i = (contentRule type).places i := by
  rw [placesIn, type.find?_name]

/-- What lies at the path is what the checks call `parent`: a node of this type, or the document itself. -/
inductive Encloses (v : Json) : Path → String → Prop
  | document : Encloses v .root "doc"
  | node {path : Path} {node : Json} {parent : String} (inside : path ≠ .root)
      (found : path.find? v = some node) (typed : node.get? "type" = some (.str parent)) :
      Encloses v path parent

/-! ## The nodes that are visited -/

/-- `child` stands at the `i`-th place in the content of a node of this type, and the type is one whose
children are checked. -/
structure IsChild (holder : Json) (type : NodeType) (i : Nat) (child : Json) : Prop where
  typed : holder.get? "type" = some (.str type.name)
  rule : ∃ places least most, contentRule type = .children places least most
  content : ∃ items, holder.get? "content" = some (.arr items) ∧ items[i]? = some child

/-- The checks of `v` come to a node, by this path, inside this parent, at a place for these types. -/
inductive Visited (v : Json) : Path → String → List NodeType → Json → Prop
  | top {items : List Json} {i : Nat} {node : Json} (content : v.get? "content" = some (.arr items))
      (item : items[i]? = some node) :
      Visited v ((Path.root.key "content").index i) "doc" topLevel node
  | nested {path : Path} {parent : String} {allowed : List NodeType} {holder : Json} {type : NodeType}
      {i : Nat} {node : Json} (above : Visited v path parent allowed holder)
      (child : IsChild holder type i node) :
      Visited v ((path.key "content").index i) type.name ((contentRule type).places i) node

section

variable {v : Json} {path : Path} {parent : String} {allowed : List NodeType} {node : Json}

theorem Visited.find?_eq (h : Visited v path parent allowed node) : path.find? v = some node := by
  induction h with
  | top content item =>
    have hitems := (Path.find?_key (Path.find?_root v) "content").trans content
    exact (Path.find?_index hitems _).trans item
  | nested above child ih =>
    obtain ⟨items, content, item⟩ := child.content
    have hitems := (Path.find?_key ih "content").trans content
    exact (Path.find?_index hitems _).trans item

theorem Visited.ne_root (h : Visited v path parent allowed node) : path ≠ .root := by
  cases h with
  | top content item => exact Path.index_ne_root _ _
  | nested above child => exact Path.index_ne_root _ _

/-- A node is visited in the content of what encloses it, at a place for what may stand there. -/
theorem Visited.enclosed (h : Visited v path parent allowed node) :
    ∃ holder i, path = (Path.key holder "content").index i ∧ Encloses v holder parent ∧
      allowed = placesIn parent i := by
  cases h with
  | top content item => exact ⟨.root, _, rfl, .document, rfl⟩
  | nested above child =>
    exact ⟨_, _, rfl, .node above.ne_root above.find?_eq child.typed, (placesIn_name _ _).symm⟩

end

/-! ## What is reported of a node -/

/-- What is wrong with a content as a whole: it is no list, or it has too few or too many items. -/
def shapeIssues (rule : ContentRule) (path : Path) (content : Json) : List Issue :=
  match rule, content with
  | .ignored, _ => []
  | .empty, .arr items => lengthIssues 0 (some 0) path items.length
  | .children _ least most, .arr items => lengthIssues least most path items.length
  | _, value => [mismatch path "array" value]

/-- What the checks report of a node that they visit, apart from what they report of its content. -/
inductive Reports (path : Path) (parent : String) (allowed : List NodeType) : Json → Issue → Prop
  | shape {v : Json} (h : ∀ members, v ≠ .obj members) :
      Reports path parent allowed v (mismatch path "object" v)
  | untyped {members : Members} (h : members.lookup "type" = none) :
      Reports path parent allowed (.obj members) (missing path "type")
  | typeShape {members : Members} {value : Json} (found : members.lookup "type" = some value)
      (h : ∀ s, value ≠ .str s) :
      Reports path parent allowed (.obj members) (mismatch (path.key "type") "string" value)
  | unknown {members : Members} {name : String} (found : members.lookup "type" = some (.str name))
      (h : ∀ type : NodeType, type.name ≠ name) :
      Reports path parent allowed (.obj members) ⟨.unknownNode name, path.key "type"⟩
  | place {members : Members} {type : NodeType} (typed : members.lookup "type" = some (.str type.name))
      (h : type ∉ allowed) :
      Reports path parent allowed (.obj members) ⟨.nodeNotAllowed type.name parent, path⟩
  | attrs {members : Members} {type : NodeType} {issue : Issue}
      (typed : members.lookup "type" = some (.str type.name)) (h : issue ∈ attrsIssues path members) :
      Reports path parent allowed (.obj members) issue
  | attributes {members : Members} {type : NodeType} {issue : Issue}
      (typed : members.lookup "type" = some (.str type.name))
      (h : issue ∈ nodeAttrIssues type (attrs? members) path) :
      Reports path parent allowed (.obj members) issue
  | noContent {members : Members} {type : NodeType} {issue : Issue}
      (typed : members.lookup "type" = some (.str type.name)) (absent : members.lookup "content" = none)
      (h : issue ∈ absenceIssues (contentRule type) path) :
      Reports path parent allowed (.obj members) issue
  | content {members : Members} {type : NodeType} {content : Json} {issue : Issue}
      (typed : members.lookup "type" = some (.str type.name))
      (found : members.lookup "content" = some content)
      (h : issue ∈ shapeIssues (contentRule type) (path.key "content") content) :
      Reports path parent allowed (.obj members) issue
  | text {members : Members} {issue : Issue}
      (typed : members.lookup "type" = some (.str NodeType.text.name))
      (h : issue ∈ textIssues path parent members) :
      Reports path parent allowed (.obj members) issue
  | marks {members : Members} {type : NodeType} {issue : Issue}
      (typed : members.lookup "type" = some (.str type.name)) (htype : type ≠ .text)
      (h : issue ∈ markPlaceIssues type path members) :
      Reports path parent allowed (.obj members) issue

/-! ## One node and its children -/

section

variable {path : Path} {parent : String} {allowed : List NodeType} {issue : Issue}

theorem nodeIssues_typed {members : Members} {type : NodeType}
    (typed : members.lookup "type" = some (.str type.name)) :
    nodeIssues path parent allowed (.obj members) =
      placeIssues type allowed parent path ++ attrsIssues path members ++
        nodeAttrIssues type (attrs? members) path ++
        contentIssues path type.name (contentRule type) members ++
        if type = .text then textIssues path parent members else markPlaceIssues type path members := by
  rw [nodeIssues, typed]
  simp only [knownNode?_name]

theorem mem_itemIssues_iff {places : Nat → List NodeType} {items : List Json} {i : Nat} :
    issue ∈ itemIssues path parent places i items ↔
      ∃ item ∈ items.zipIdx i, issue ∈ nodeIssues (path.index item.2) parent (places item.2) item.1 := by
  induction items generalizing i with
  | nil => simp [itemIssues]
  | cons item rest ih =>
    simp only [itemIssues, List.mem_append, ih, List.zipIdx_cons, List.mem_cons, exists_eq_or_imp]

theorem mem_childrenIssues_iff {rule : ContentRule} {content : Json} :
    issue ∈ childrenIssues path parent rule content ↔
      issue ∈ shapeIssues rule path content ∨
        (∃ places least most, rule = .children places least most) ∧
          ∃ items i item, content = .arr items ∧ items[i]? = some item ∧
            issue ∈ nodeIssues (path.index i) parent (rule.places i) item := by
  cases content with
  | arr items =>
    cases rule with
    | ignored => simp [childrenIssues, shapeIssues]
    | empty => simp [childrenIssues, shapeIssues]
    | children places least most =>
      simp only [childrenIssues, shapeIssues, List.mem_append, mem_itemIssues_iff]
      refine or_congr Iff.rfl ?_
      constructor
      · rintro ⟨⟨item, i⟩, hitem, hissue⟩
        exact ⟨⟨_, _, _, rfl⟩, items, i, item, rfl, List.mem_zipIdx_iff_getElem?.mp hitem, hissue⟩
      · rintro ⟨-, _, i, item, ⟨⟩, hitem, hissue⟩
        exact ⟨(item, i), List.mem_zipIdx_iff_getElem?.mpr hitem, hissue⟩
  | _ => cases rule <;> simp [childrenIssues, shapeIssues]

theorem mem_contentIssues_iff {type : NodeType} {members : Members}
    (typed : members.lookup "type" = some (.str type.name)) :
    issue ∈ contentIssues path type.name (contentRule type) members ↔
      members.lookup "content" = none ∧ issue ∈ absenceIssues (contentRule type) path ∨
        (∃ content, members.lookup "content" = some content ∧
          issue ∈ shapeIssues (contentRule type) (path.key "content") content) ∨
        ∃ i child, IsChild (.obj members) type i child ∧
          issue ∈ nodeIssues ((path.key "content").index i) type.name ((contentRule type).places i) child := by
  rw [contentIssues_eq]
  cases hcontent : members.lookup "content" with
  | none =>
    constructor
    · exact fun h => Or.inl ⟨rfl, h⟩
    · rintro (⟨-, h⟩ | ⟨_, ⟨⟩, -⟩ | ⟨i, child, ⟨-, -, items, h, -⟩, -⟩)
      · exact h
      · have hnone : members.lookup "content" = some (.arr items) := h
        rw [hcontent] at hnone
        contradiction
  | some content =>
    dsimp only
    rw [mem_childrenIssues_iff]
    constructor
    · rintro (h | ⟨hrule, items, i, item, rfl, hitem, hissue⟩)
      · exact Or.inr (Or.inl ⟨content, rfl, h⟩)
      · exact Or.inr (Or.inr ⟨i, item, ⟨typed, hrule, items, hcontent, hitem⟩, hissue⟩)
    · rintro (⟨⟨⟩, -⟩ | ⟨_, ⟨⟩, h⟩ | ⟨i, child, ⟨-, hrule, items, h, hitem⟩, hissue⟩)
      · exact Or.inl h
      · have hsome : members.lookup "content" = some (.arr items) := h
        rw [hcontent, Option.some.injEq] at hsome
        exact Or.inr ⟨hrule, items, i, child, hsome, hitem, hissue⟩

theorem reports_or_child_of_mem {node : Json} (h : issue ∈ nodeIssues path parent allowed node) :
    Reports path parent allowed node issue ∨
      ∃ type i child, IsChild node type i child ∧
        issue ∈ nodeIssues ((path.key "content").index i) type.name ((contentRule type).places i) child := by
  cases node with
  | obj members =>
    cases htype : members.lookup "type" with
    | none =>
      rw [nodeIssues, htype] at h
      obtain rfl := List.mem_singleton.mp h
      exact Or.inl (.untyped htype)
    | some value =>
      cases value with
      | str name =>
        cases hfind : knownNode? name with
        | none =>
          rw [nodeIssues, htype] at h
          simp only [hfind] at h
          obtain rfl := List.mem_singleton.mp h
          refine Or.inl (.unknown htype fun type hname => ?_)
          rw [knownNode?_eq_some_iff.mpr hname] at hfind
          contradiction
        | some type =>
          obtain rfl := knownNode?_eq_some_iff.mp hfind
          rw [nodeIssues_typed htype] at h
          simp only [List.mem_append, mem_contentIssues_iff htype] at h
          rcases h with (((hplace | hattrs) | hattributes) | hcontent) | hlast
          · rw [placeIssues] at hplace
            split at hplace
            · contradiction
            · rename_i hallowed
              obtain rfl := List.mem_singleton.mp hplace
              exact Or.inl (.place htype hallowed)
          · exact Or.inl (.attrs htype hattrs)
          · exact Or.inl (.attributes htype hattributes)
          · rcases hcontent with ⟨habsent, hissue⟩ | ⟨content, hfound, hissue⟩ | ⟨i, child, hchild, hissue⟩
            · exact Or.inl (.noContent htype habsent hissue)
            · exact Or.inl (.content htype hfound hissue)
            · exact Or.inr ⟨type, i, child, hchild, hissue⟩
          · split at hlast
            · rename_i htext
              subst htext
              exact Or.inl (.text htype hlast)
            · rename_i htext
              exact Or.inl (.marks htype htext hlast)
      | _ =>
        rw [nodeIssues, htype] at h
        obtain rfl := List.mem_singleton.mp h
        exact Or.inl (.typeShape htype (by simp))
  | _ =>
    obtain rfl := List.mem_singleton.mp h
    exact Or.inl (.shape (by simp))

theorem mem_nodeIssues_of_attrs {members : Members} {type : NodeType}
    (typed : members.lookup "type" = some (.str type.name)) (h : issue ∈ attrsIssues path members) :
    issue ∈ nodeIssues path parent allowed (.obj members) := by
  rw [nodeIssues_typed typed]
  simp only [List.mem_append]
  exact Or.inl (Or.inl (Or.inl (Or.inr h)))

theorem mem_nodeIssues_of_child {holder child : Json} {type : NodeType} {i : Nat}
    (hchild : IsChild holder type i child)
    (h : issue ∈ nodeIssues ((path.key "content").index i) type.name ((contentRule type).places i) child) :
    issue ∈ nodeIssues path parent allowed holder := by
  cases holder with
  | obj members =>
    have typed : members.lookup "type" = some (.str type.name) := hchild.typed
    rw [nodeIssues_typed typed]
    simp only [List.mem_append, mem_contentIssues_iff typed]
    exact Or.inl (Or.inr (Or.inr (Or.inr ⟨i, child, hchild, h⟩)))
  | _ => exact absurd hchild.typed nofun

end

/-! ## Documents -/

/-- A document with the given content, whatever that is. -/
def docOf (content : List Json) : Json :=
  .obj [("version", .nat 1), ("type", .str "doc"), ("content", .arr content)]

theorem sizeOf_lookup_lt {members : Members} {name : String} {value : Json}
    (h : members.lookup name = some value) : sizeOf value < sizeOf members := by
  induction members with
  | nil => contradiction
  | cons member rest ih =>
    obtain ⟨key, first⟩ := member
    rw [Json.lookup_cons_eq] at h
    split at h
    · obtain rfl := Option.some.inj h
      simp only [List.cons.sizeOf_spec, Prod.mk.sizeOf_spec]
      omega
    · have hrest := ih h
      simp only [List.cons.sizeOf_spec]
      omega

theorem IsChild.sizeOf_lt {holder child : Json} {type : NodeType} {i : Nat}
    (h : IsChild holder type i child) : sizeOf child < sizeOf holder := by
  obtain ⟨items, hcontent, hitem⟩ := h.content
  cases holder with
  | obj members =>
    have hitems : sizeOf (Json.arr items) < sizeOf members := sizeOf_lookup_lt hcontent
    have hchild : sizeOf child < sizeOf items := List.sizeOf_lt_of_mem (List.mem_of_getElem? hitem)
    simp only [Json.arr.sizeOf_spec, Json.obj.sizeOf_spec] at hitems ⊢
    omega
  | _ => contradiction

variable {v : Json} {issue : Issue}

/-- What is found in a node is found at one of the nodes that are visited from there. -/
theorem exists_visited_of_mem_nodeIssues {path : Path} {parent : String} {allowed : List NodeType}
    {node : Json} (hvisited : Visited v path parent allowed node)
    (h : issue ∈ nodeIssues path parent allowed node) :
    ∃ path parent allowed node, Visited v path parent allowed node ∧
      Reports path parent allowed node issue := by
  rcases reports_or_child_of_mem h with hreports | ⟨type, i, child, hchild, hissue⟩
  · exact ⟨path, parent, allowed, node, hvisited, hreports⟩
  · -- what is found below the node is found again at a child, which is smaller
    have hsmaller := hchild.sizeOf_lt
    exact exists_visited_of_mem_nodeIssues (hvisited.nested hchild) hissue
termination_by sizeOf node

/-- What the checks report of a document, apart from what they report of its content. -/
inductive ReportsDocument : Json → Issue → Prop
  | shape {v : Json} (h : ∀ members, v ≠ .obj members) : ReportsDocument v (mismatch .root "object" v)
  | absent {members : Members} {name : String} (h : members.lookup name = none) :
      ReportsDocument (.obj members) (missing .root name)
  | version {members : Members} {version : Json} {issue : Issue}
      (found : members.lookup "version" = some version)
      (h : issue ∈ integerIssues (some 1) (some 1) (Path.root.key "version") version) :
      ReportsDocument (.obj members) issue
  | type {members : Members} {type : Json} {issue : Issue} (found : members.lookup "type" = some type)
      (h : issue ∈ choiceIssues ["doc"] (Path.root.key "type") type) :
      ReportsDocument (.obj members) issue
  | content {members : Members} {content : Json} {issue : Issue}
      (found : members.lookup "content" = some content)
      (h : issue ∈ shapeIssues (.any topLevel) (Path.root.key "content") content) :
      ReportsDocument (.obj members) issue

/-- **Where an issue comes from.** It is reported of the document itself or of a node that is visited. -/
theorem reports_of_mem_validate (h : issue ∈ validate v) :
    ReportsDocument v issue ∨
      ∃ path parent allowed node, Visited v path parent allowed node ∧
        Reports path parent allowed node issue := by
  cases v with
  | obj members =>
    rw [validate, documentIssues, List.mem_append, List.mem_append] at h
    rcases h with (hversion | htype) | hcontent
    · cases hfound : members.lookup "version" with
      | none =>
        rw [hfound] at hversion
        obtain rfl := List.mem_singleton.mp hversion
        exact Or.inl (.absent hfound)
      | some version =>
        rw [hfound] at hversion
        exact Or.inl (.version hfound hversion)
    · cases hfound : members.lookup "type" with
      | none =>
        rw [hfound] at htype
        obtain rfl := List.mem_singleton.mp htype
        exact Or.inl (.absent hfound)
      | some type =>
        rw [hfound] at htype
        exact Or.inl (.type hfound htype)
    · cases hfound : members.lookup "content" with
      | none =>
        rw [hfound] at hcontent
        obtain rfl := List.mem_singleton.mp hcontent
        exact Or.inl (.absent hfound)
      | some content =>
        rw [hfound] at hcontent
        rcases mem_childrenIssues_iff.mp hcontent with hshape | ⟨-, items, i, item, rfl, hitem, hissue⟩
        · exact Or.inl (.content hfound hshape)
        · exact Or.inr (exists_visited_of_mem_nodeIssues (.top hfound hitem) hissue)
  | _ =>
    obtain rfl := List.mem_singleton.mp h
    exact Or.inl (.shape (by simp))

/-- Nothing that is found in a visited node is left out. -/
theorem mem_validate_of_visited {path : Path} {parent : String} {allowed : List NodeType} {node : Json}
    (hvisited : Visited v path parent allowed node) (h : issue ∈ nodeIssues path parent allowed node) :
    issue ∈ validate v := by
  induction hvisited with
  | @top items i node content item =>
    cases v with
    | obj members =>
      have hfound : members.lookup "content" = some (.arr items) := content
      rw [validate, documentIssues, hfound, List.mem_append]
      exact Or.inr (mem_childrenIssues_iff.mpr (Or.inr ⟨⟨_, _, _, rfl⟩, items, i, node, rfl, item, h⟩))
    | _ => contradiction
  -- from child to holder, up to the content of the document
  | nested above child ih => exact ih (mem_nodeIssues_of_child child h)

end Adf.Schema
