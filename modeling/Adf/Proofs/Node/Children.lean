import Adf.Node.Json

/-!
# Nodes without and with their children

The type, the attributes, the children, the place of the children and the empty form of a node are read off its
form by one case for each type. `Place.Holds` says how these readings have to agree for a form whose children
have a place: what is put there is what is read there, and nothing else of the form depends on it. It is shown
for each type by itself (`holds_of_place?`). What an added child does, and what many do, follows from it for all
of them at once: an emptied form takes its children again, one after the other, and is the form that it was
(`emptyLike?_agrees_with_append`). A form without a place for children has no empty form and takes no child.
-/

namespace Adf

namespace Form

/-- The readings of a form agree about its children: they stand in this place. -/
structure Place.Holds (p : Place) (f : Form) : Prop where
  content_eq : f.content = p.content
  put_content : p.put p.content = f
  content_put : ∀ xs, (p.put xs).content = xs
  place?_put : ∀ xs, (p.put xs).place? = some ⟨xs, p.put⟩
  type_put : ∀ xs, (p.put xs).type = f.type
  attrs_put : ∀ xs, (p.put xs).attrs = f.attrs
  holdsInlines_put : ∀ xs, (p.put xs).holdsInlines = f.holdsInlines
  emptyLike?_put : ∀ xs, (p.put xs).emptyLike? = some (p.put [])

theorem holds_of_place? {f : Form} {p : Place} (h : f.place? = some p) : p.Holds f := by
  cases f with
  | rule | media | text | hardBreak => cases h
  | _ =>
    -- in each of the other forms the place is the field of the children itself
    cases h
    constructor <;> intros <;> rfl

theorem emptyLike?_of_place? {f : Form} {p : Place} (h : f.place? = some p) :
    f.emptyLike? = some (p.put []) := by
  have hp := holds_of_place? h
  rw [← hp.emptyLike?_put p.content, hp.put_content]

theorem emptyLike?_eq_none_iff {f : Form} : f.emptyLike? = none ↔ f.place? = none := by
  cases f <;> simp [emptyLike?, place?]

/-! ## Adding children -/

theorem append_of_place? {f : Form} {p : Place} (h : f.place? = some p) (child : Node) :
    f.append child = .ok (p.put (p.content ++ [child])) := by
  rw [append, h]

theorem append_eq_error_iff {f : Form} {child : Node} {e : Node.LeafError} :
    f.append child = .error e ↔ f.place? = none ∧ e = ⟨f.type⟩ := by
  rw [append]
  cases f.place? with
  | none => simp [eq_comm]
  | some p => simp

/-- Children that are added one after the other stand behind those that are there. -/
theorem foldlM_append {f : Form} {p : Place} (h : f.place? = some p) (content children : List Node) :
    children.foldlM append (p.put content) = .ok (p.put (content ++ children)) := by
  induction children generalizing content with
  | nil =>
    rw [List.append_nil]
    rfl
  | cons child rest ih =>
    have hplace := (holds_of_place? h).place?_put content
    rw [List.foldlM_cons, append_of_place? hplace, List.append_cons content child rest]
    exact ih (content ++ [child])

end Form

/-! ## Nodes and their forms -/

theorem Form.form_node (f : Form) : f.node.form = f := by
  cases f <;> rfl

theorem Node.node_form (node : Node) : node.form.node = node := by
  rcases node with l | ⟨c, content⟩
  · cases l <;> rfl
  · cases c <;> rfl

theorem Media.attrs_eq (m : Media) : m.attrs = (Form.media m).attrs := by
  obtain ⟨type, id, collection, url, alt⟩ := m
  cases id <;> cases collection <;> cases url <;> cases alt <;> rfl

/-- The node is of this form, and whatever is read from it, or done to it, is what the form says. -/
structure Node.HasForm (node : Node) (f : Form) : Prop where
  form : node.form = f
  type : node.type = f.type
  attrs : node.attrs = f.attrs
  holdsInlines : node.holdsInlines = f.holdsInlines
  content : node.content = f.content
  append : ∀ child, node.append child = (f.append child).map Form.node
  emptyLike? : node.emptyLike? = f.emptyLike?.map Form.node

theorem Form.hasForm_node (f : Form) : f.node.HasForm f where
  form := f.form_node
  type := by cases f <;> rfl
  attrs := by
    cases f with
    | media m => exact m.attrs_eq
    | codeBlock language content => cases language <;> rfl
    | orderedList order content => exact (ite_not _ _ _).symm
    | _ => rfl
  holdsInlines := by cases f <;> rfl
  content := by cases f <;> rfl
  append := by
    intro child
    rw [Node.append, f.form_node]
  emptyLike? := by rw [Node.emptyLike?, f.form_node]

theorem Node.hasForm_form (node : Node) : node.HasForm node.form := by
  have h := node.form.hasForm_node
  rwa [node.node_form] at h

/-! ## Emptying and filling -/

namespace Form

/-- **Emptying and filling agree.** A form is without an empty form exactly if it refuses every child, and then
it names its type. The empty form has no children and everything else that the form has; with the children of
the form, added one after the other, it is the form again. A child that is added comes last and changes nothing
but the children. A leaf or container has all this from its form, and every form is that of one. -/
theorem emptyLike?_agrees_with_append (f : Form) :
    (∀ child, f.emptyLike? = none ↔ ∃ e, f.append child = .error e) ∧
    (∀ child e, f.append child = .error e → e.message = f.type.name ++ " nodes cannot hold children") ∧
    (∀ empty, f.emptyLike? = some empty →
      empty.content = [] ∧ empty.type = f.type ∧ empty.attrs = f.attrs ∧ empty.holdsInlines = f.holdsInlines ∧
      f.content.foldlM append empty = .ok f ∧
      ∀ child, ∃ longer, f.append child = .ok longer ∧ longer.content = f.content ++ [child] ∧
        longer.type = f.type ∧ longer.attrs = f.attrs ∧ longer.holdsInlines = f.holdsInlines ∧
        longer.emptyLike? = some empty) ∧
    f.node.form = f ∧ ∀ node : Node, node.form = f → node.HasForm f := by
  refine ⟨?_, ?_, ?_, f.form_node, ?_⟩
  · intro child
    simp [emptyLike?_eq_none_iff, append_eq_error_iff]
  · intro child e he
    rw [(append_eq_error_iff.mp he).2, Node.LeafError.message]
  · intro empty hempty
    cases hplace : f.place? with
    | none =>
      rw [emptyLike?_eq_none_iff.mpr hplace] at hempty
      cases hempty
    | some p =>
      have hp := holds_of_place? hplace
      have hput : empty = p.put [] := Option.some.inj (hempty.symm.trans (emptyLike?_of_place? hplace))
      subst hput
      refine ⟨hp.content_put [], hp.type_put [], hp.attrs_put [], hp.holdsInlines_put [], ?_, ?_⟩
      · rw [hp.content_eq, foldlM_append hplace [] p.content, List.nil_append, hp.put_content]
      · intro child
        refine ⟨_, append_of_place? hplace child, ?_, hp.type_put _, hp.attrs_put _, hp.holdsInlines_put _,
          hp.emptyLike?_put _⟩
        rw [hp.content_put, hp.content_eq]
  · rintro node rfl
    exact node.hasForm_form

/-- A list from 3 on, with two items. -/
def listFrom3 : Form := .orderedList 3 [.container .listItem [], .container .listItem [.rule]]

theorem emptyLike?_of_listFrom3 :
    listFrom3.emptyLike? = some (.orderedList 3 []) ∧
      listFrom3.content.foldlM append (.orderedList 3 []) = .ok listFrom3 ∧
    hardBreak.append .rule = .error ⟨.hardBreak⟩ ∧
      (⟨.hardBreak⟩ : Node.LeafError).message = "hardBreak nodes cannot hold children" := by
  have hempty : listFrom3.emptyLike? = some (.orderedList 3 []) := rfl
  have herror : hardBreak.append .rule = .error ⟨.hardBreak⟩ := rfl
  obtain ⟨-, -, hfilled, -⟩ := emptyLike?_agrees_with_append listFrom3
  obtain ⟨-, hmessage, -, -⟩ := emptyLike?_agrees_with_append hardBreak
  obtain ⟨-, -, -, -, hagain, -⟩ := hfilled _ hempty
  exact ⟨hempty, hagain, herror, hmessage .rule _ herror⟩

end Form

end Adf
