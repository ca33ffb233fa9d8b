import Adf.Proofs.Convert.Emission

/-!
# The flow of inline content

`joined` makes nodes of inline content: texts that follow each other with the same marks grow together.
`flow` does the same for content with blocks in it: it is cut at the blocks, and each piece gets a container
of its own. `closeScope_emitAll` says that this is what an assembly leaves behind when it takes in the
content one emission after the other and then ends the scope.
-/

namespace Adf.Convert

/-- The text that is growing, as a node. -/
def grown : Option (String × List Mark) → List Node
  | some (s, marks) => [.text s marks]
  | none => []

/-- The nodes of inline content behind a text that may still grow. -/
def joinedAfter (text? : Option (String × List Mark)) : List Emission → List Node
  | [] => grown text?
  | .run s marks :: rest =>
    if s.isEmpty then joinedAfter text? rest
    else
      match text? with
      | some (before, m) =>
        if m = marks then joinedAfter (some (before ++ s, marks)) rest
        else .text before m :: joinedAfter (some (s, marks)) rest
      | none => joinedAfter (some (s, marks)) rest
  | .single node :: rest | .block node :: rest => grown text? ++ node :: joinedAfter none rest

/-- The nodes of inline content. Texts that follow each other with the same marks are one. -/
def joined (es : List Emission) : List Node := joinedAfter none es

/-- Content cut at its blocks: what stands before the first one, and each block with what follows it. -/
def cut : List Emission → List Emission × List (Node × List Emission)
  | [] => ([], [])
  | .block node :: rest => ([], (node, (cut rest).1) :: (cut rest).2)
  | e :: rest => (e :: (cut rest).1, (cut rest).2)

/-- The blocks with the pieces that follow them, each piece in a container unless nothing is in it. -/
def flowBehind (c : Container) (pieces : List (Node × List Emission)) : List Node :=
  pieces.flatMap fun (block, piece) => block :: remains c true (joined piece)

/-- The nodes that a container makes of its content. Without a block in the content they are the container
alone, empty or not. -/
def flow (c : Container) (es : List Emission) : List Node :=
  match cut es with
  | (whole, []) => [.container c (joined whole)]
  | (first, behind) => remains c true (joined first) ++ flowBehind c behind

theorem flow_eq (c : Container) (es : List Emission) :
    flow c es = remains c (!(cut es).2.isEmpty) (joined (cut es).1) ++ flowBehind c (cut es).2 := by
  unfold flow
  obtain ⟨first, behind⟩ := cut es
  cases behind with
  | nil => simp [remains, flowBehind]
  | cons block behind => rfl

/-! ## What is in a flow -/

theorem flow_ne_nil (c : Container) (es : List Emission) : flow c es ≠ [] := by
  unfold flow
  obtain ⟨first, behind⟩ := cut es
  cases behind with
  | nil => exact List.cons_ne_nil _ _
  | cons block behind =>
    intro h
    exact List.cons_ne_nil _ _ (List.append_eq_nil_iff.mp h).2

/-- Every node in a container that the emission can become has the first property, and a block has the
second one. A text may grow, but is never empty. -/
def Emission.Yields (p q : Node → Prop) : Emission → Prop
  | .run _ marks => ∀ s : String, ¬s.isEmpty → p (.text s marks)
  | .single node => p node
  | .block node => q node

theorem forall_mem_grown {p : Node → Prop} {text? : Option (String × List Mark)}
    (h : ∀ t ∈ text?, ¬t.1.isEmpty ∧ ∀ s : String, ¬s.isEmpty → p (.text s t.2)) :
    ∀ node ∈ grown text?, p node := by
  intro node hnode
  cases text? with
  | none => contradiction
  | some t =>
    obtain rfl := List.mem_singleton.mp hnode
    exact (h t rfl).2 t.1 (h t rfl).1

theorem append_not_isEmpty {before s : String} (h : ¬before.isEmpty) : ¬(before ++ s).isEmpty := by
  simp only [String.isEmpty_iff, String.append_eq_empty_iff] at h ⊢
  exact fun happend => h happend.1

theorem forall_mem_joinedAfter {p : Node → Prop} {es : List Emission} {text? : Option (String × List Mark)}
    (hes : ∀ e ∈ es, e.Yields p p)
    (htext : ∀ t ∈ text?, ¬t.1.isEmpty ∧ ∀ s : String, ¬s.isEmpty → p (.text s t.2)) :
    ∀ node ∈ joinedAfter text? es, p node := by
  induction es generalizing text? with
  | nil => exact forall_mem_grown htext
  | cons e es ih =>
    have he := hes e List.mem_cons_self
    have hlater : ∀ e ∈ es, e.Yields p p := fun e he => hes e (List.mem_cons_of_mem _ he)
    cases e with
    | run s marks =>
      by_cases hs : s.isEmpty
      · simp only [joinedAfter, if_pos hs]
        exact ih hlater htext
      · have hstart : ∀ t ∈ some (s, marks), ¬t.1.isEmpty ∧ ∀ s : String, ¬s.isEmpty → p (.text s t.2) := by
          rintro t ⟨⟩
          exact ⟨hs, he⟩
        cases text? with
        | none =>
          simp only [joinedAfter, if_neg hs]
          exact ih hlater hstart
        | some t =>
          obtain ⟨before, m⟩ := t
          obtain ⟨hbefore, hm⟩ := htext (before, m) rfl
          simp only [joinedAfter, if_neg hs]
          by_cases hsame : m = marks
          · simp only [if_pos hsame]
            refine ih hlater ?_
            rintro t ⟨⟩
            exact ⟨append_not_isEmpty hbefore, he⟩
          · simp only [if_neg hsame]
            intro node hnode
            rcases List.mem_cons.mp hnode with rfl | hrest
            · exact hm before hbefore
            · exact ih hlater hstart node hrest
    | single node | block node =>
      rw [joinedAfter]
      intro node' hnode
      rcases List.mem_append.mp hnode with hgrown | hnode
      · exact forall_mem_grown htext node' hgrown
      · rcases List.mem_cons.mp hnode with rfl | hrest
        · exact he
        · exact ih hlater (by simp) node' hrest

theorem forall_mem_joined {p : Node → Prop} {es : List Emission} (h : ∀ e ∈ es, e.Yields p p) :
    ∀ node ∈ joined es, p node :=
  forall_mem_joinedAfter h (by simp)

/-- A cut leaves the blocks and what stands between them. -/
theorem yields_cut {p q : Node → Prop} {es : List Emission} (h : ∀ e ∈ es, e.Yields p q) :
    (∀ e ∈ (cut es).1, e.Yields p p) ∧ ∀ x ∈ (cut es).2, q x.1 ∧ ∀ e ∈ x.2, e.Yields p p := by
  induction es with
  | nil => exact ⟨nofun, nofun⟩
  | cons e es ih =>
    obtain ⟨hfirst, hbehind⟩ := ih fun e he => h e (List.mem_cons_of_mem _ he)
    have he := h e List.mem_cons_self
    cases e with
    | run s marks => exact ⟨List.forall_mem_cons.mpr ⟨he, hfirst⟩, hbehind⟩
    | single node => exact ⟨List.forall_mem_cons.mpr ⟨he, hfirst⟩, hbehind⟩
    | block node => exact ⟨nofun, List.forall_mem_cons.mpr ⟨⟨he, hfirst⟩, hbehind⟩⟩

/-- A flow consists of containers with inline content, and of blocks. -/
theorem forall_mem_flow {p q : Node → Prop} {c : Container} {es : List Emission}
    (hes : ∀ e ∈ es, e.Yields p q)
    (hc : ∀ content, (∀ node ∈ content, p node) → q (.container c content)) :
    ∀ node ∈ flow c es, q node := by
  obtain ⟨hfirst, hbehind⟩ := yields_cut hes
  have hremains (elide : Bool) {piece : List Emission} (hpiece : ∀ e ∈ piece, e.Yields p p) :
      ∀ node ∈ remains c elide (joined piece), q node := by
    intro node hnode
    unfold remains at hnode
    split at hnode
    · contradiction
    · obtain rfl := List.mem_singleton.mp hnode
      exact hc _ (forall_mem_joined hpiece)
  intro node hnode
  rw [flow_eq] at hnode
  rcases List.mem_append.mp hnode with hnode | hnode
  · exact hremains _ hfirst node hnode
  · obtain ⟨x, hx, hnode⟩ := List.mem_flatMap.mp hnode
    rcases List.mem_cons.mp hnode with rfl | hnode
    · exact (hbehind x hx).1
    · exact hremains _ (hbehind x hx).2 node hnode

namespace Assembly

/-- Only the last node can be the text that grows. -/
theorem extendLast?_concat (s : String) (marks : List Mark) (done : List Node) (last : Node) :
    extendLast? s marks (done ++ [last]) =
      if last.text?.isSome ∧ last.marks = marks then some (done ++ [last.pushText s]) else none := by
  induction done with
  | nil =>
    cases last with
    | leaf l => cases l <;> simp [extendLast?, Node.text?, Node.marks, Node.pushText, Node.text]
    | container c content => rfl
  | cons node done ih =>
    -- the rest is not empty, so the first node is not the last one
    obtain ⟨next, rest, hrest⟩ : ∃ next rest, done ++ [last] = next :: rest :=
      List.exists_cons_of_ne_nil (by simp)
    rw [List.cons_append, hrest, extendLast?, ← hrest, ih]
    · split <;> rfl
    · simp

theorem extendLast?_text (s before : String) (marks m : List Mark) (done : List Node) :
    extendLast? s marks (done ++ [.text before m]) =
      if m = marks then some (done ++ [.text (before ++ s) m]) else none := by
  rw [extendLast?_concat]
  simp [Node.text, Node.text?, Node.marks, Node.pushText]

/-- An open scope with `done` in it and behind that a text that may grow. -/
def growing (c : Container) (continuation : Bool) (done : List Node)
    (text? : Option (String × List Mark)) (a : Assembly) : Assembly :=
  a.pushScope ⟨c, done ++ grown text?, continuation⟩ text?.isSome

variable (c : Container) (k : Bool) (done : List Node) (a : Assembly)

theorem emit_run_of_isEmpty {s : String} (hs : s.isEmpty) (marks : List Mark) (a : Assembly) :
    a.emit (.run s marks) = a := by
  simp [emit, addText, hs, withMarks]

theorem emit_run_growing_none {s : String} (hs : ¬s.isEmpty) (marks : List Mark) :
    (growing c k done none a).emit (.run s marks) = growing c k done (some (s, marks)) a := by
  simp [growing, emit, addText, hs, continueRun?, pushScope, withMarks, grown, add]

theorem emit_run_growing_same {s : String} (hs : ¬s.isEmpty) (before : String) (marks : List Mark) :
    (growing c k done (some (before, marks)) a).emit (.run s marks) =
      growing c k done (some (before ++ s, marks)) a := by
  simp [growing, emit, addText, hs, continueRun?, pushScope, withMarks, grown, extendLast?_text]

theorem emit_run_growing_other {s : String} (hs : ¬s.isEmpty) (before : String) {m marks : List Mark}
    (hm : m ≠ marks) :
    (growing c k done (some (before, m)) a).emit (.run s marks) =
      growing c k (done ++ [.text before m]) (some (s, marks)) a := by
  simp [growing, emit, addText, hs, continueRun?, pushScope, withMarks, grown, extendLast?_text, hm, add]

theorem emit_single_growing (text? : Option (String × List Mark)) (node : Node) :
    (growing c k done text? a).emit (.single node) = growing c k (done ++ grown text? ++ [node]) none a := by
  simp [growing, emit, add, pushScope, grown]

theorem emit_block_growing (hc : c.holdsInlines) (text? : Option (String × List Mark)) (block : Node) :
    (growing c k done text? a).emit (.block block) =
      growing c true [] none (a.append (remains c true (done ++ grown text?) ++ [block])) := by
  rw [growing, emit, splice_pushScope block hc]
  simp [growing, grown]

/-- What an assembly leaves behind of inline content that it takes in step by step. -/
theorem closeScope_emitAll (hc : c.holdsInlines) (es : List Emission)
    (text? : Option (String × List Mark)) :
    ((growing c k done text? a).emitAll es).closeScope =
      a.append (remains c (k || !(cut es).2.isEmpty) (done ++ joinedAfter text? (cut es).1) ++
        flowBehind c (cut es).2) := by
  induction es generalizing k done text? a with
  | nil =>
    rw [emitAll_nil, growing, closeScope_pushScope]
    simp [cut, flowBehind, joinedAfter]
  | cons e es ih =>
    rw [emitAll_cons]
    cases e with
    | run s marks =>
      by_cases hs : s.isEmpty
      · rw [emit_run_of_isEmpty hs, ih]
        simp [cut, joinedAfter, hs]
      · match text? with
        | none =>
          rw [emit_run_growing_none c k done a hs, ih]
          simp [cut, joinedAfter, hs]
        | some (before, m) =>
          by_cases hm : m = marks
          · subst hm
            rw [emit_run_growing_same c k done a hs, ih]
            simp [cut, joinedAfter, hs]
          · rw [emit_run_growing_other c k done a hs before hm, ih]
            simp [cut, joinedAfter, hs, hm]
    | single node =>
      rw [emit_single_growing, ih]
      simp [cut, joinedAfter]
    | block node =>
      rw [emit_block_growing c k done a hc, ih, append_append]
      simp [cut, joinedAfter, flowBehind, joined]

end Assembly

end Adf.Convert
