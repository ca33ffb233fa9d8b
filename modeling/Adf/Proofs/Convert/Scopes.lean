import Adf.Convert.Assembly

/-!
# Open scopes

An assembly with an open scope is an assembly around it and the scope itself (`pushScope`). Each operation
is given by what it does to the scope and what it adds around it (`append`); for the three operations with
a choice in them the lemmas `addText_cases`, `closeScope_cases` and `splice_cases` list every outcome.
-/

namespace Adf.Convert

/-- What a scope leaves behind when it ends. With `elide` nothing is left of an empty one. -/
def remains (c : Container) (elide : Bool) (content : List Node) : List Node :=
  if elide && content.isEmpty then [] else [.container c content]

namespace Assembly

/-- Adds nodes to the innermost scope, or to the document. Everything else stays as it is, and no text at
the end can grow any more. -/
def append (nodes : List Node) (a : Assembly) : Assembly :=
  match a.scopes with
  | [] => { a with document := ⟨a.document.content ++ nodes⟩, textRun := false }
  | s :: rest => { a with scopes := { s with content := s.content ++ nodes } :: rest, textRun := false }

/-- One more scope is open; `run` says whether it ends with a text that may grow. -/
def pushScope (s : Scope) (run : Bool) (a : Assembly) : Assembly :=
  { a with scopes := s :: a.scopes, textRun := run }

def withMarks (marks : List Mark) (a : Assembly) : Assembly := { a with marks }

/-- The containers of the open scopes, the innermost one first. -/
def openContainers (a : Assembly) : List Container := a.scopes.map Scope.container

/-! ## Adding at the end -/

theorem add_eq_append (node : Node) (a : Assembly) : a.add node = a.append [node] := rfl

theorem openScope_eq_pushScope (c : Container) (a : Assembly) :
    a.openScope c = a.pushScope ⟨c, [], false⟩ false := rfl

theorem append_append (xs ys : List Node) (a : Assembly) :
    (a.append xs).append ys = a.append (xs ++ ys) := by
  cases h : a.scopes <;> simp [append, h]

/-- Nothing is added: only a text at the end stops growing. -/
theorem append_nil (a : Assembly) : a.append [] = { a with textRun := false } := by
  obtain ⟨document, scopes, marks, textRun, finished⟩ := a
  cases scopes <;> simp [append]

theorem append_pushScope (nodes : List Node) (s : Scope) (run : Bool) (a : Assembly) :
    (a.pushScope s run).append nodes = a.pushScope { s with content := s.content ++ nodes } false := rfl

/-- An assembly has no open scope, or it is one with a scope open in another. -/
theorem eq_pushScope (a : Assembly) : a.scopes = [] ∨ ∃ b s, a = pushScope s a.textRun b := by
  obtain ⟨document, scopes, marks, textRun, finished⟩ := a
  cases scopes with
  | nil => exact Or.inl rfl
  | cons s rest => exact Or.inr ⟨⟨document, rest, marks, textRun, finished⟩, s, rfl⟩

/-! ## Every outcome of an operation -/

theorem closeScope_pushScope (s : Scope) (run : Bool) (a : Assembly) :
    (a.pushScope s run).closeScope = a.append (remains s.container s.continuation s.content) := by
  obtain ⟨document, scopes, marks, textRun, finished⟩ := a
  by_cases h : s.continuation ∧ s.content.isEmpty
  · simp [closeScope, pushScope, remains, h, append_nil]
  · have hr : remains s.container s.continuation s.content = [s.node] := by
      simpa [remains, Scope.node] using h
    rw [hr]
    simp only [closeScope, pushScope, if_neg h]
    rfl

theorem closeScope_cases (a : Assembly) :
    a.scopes = [] ∧ a.closeScope = a.append [] ∨
      ∃ b s run, a = pushScope s run b ∧
        a.closeScope = b.append (remains s.container s.continuation s.content) := by
  rcases a.eq_pushScope with h | ⟨b, s, h⟩
  · refine Or.inl ⟨h, ?_⟩
    simp [closeScope, h, append_nil]
  · exact Or.inr ⟨b, s, a.textRun, h, by rw [h, closeScope_pushScope]⟩

/-- Inline content ends before a block and goes on behind it. -/
theorem splice_pushScope (block : Node) {s : Scope} (hs : s.container.holdsInlines) (run : Bool)
    (a : Assembly) :
    (a.pushScope s run).splice block =
      (a.append (remains s.container true s.content ++ [block])).pushScope
        ⟨s.container, [], true⟩ false := by
  obtain ⟨document, scopes, marks, textRun, finished⟩ := a
  by_cases h : s.content.isEmpty <;> cases scopes <;>
    simp [splice, pushScope, remains, hs, h, append, add, Scope.node, Document.push]

theorem splice_cases (block : Node) (a : Assembly) :
    a.splice block = a.append [block] ∨
      ∃ b s run, a = pushScope s run b ∧ s.container.holdsInlines ∧
        a.splice block =
          (b.append (remains s.container true s.content ++ [block])).pushScope
            ⟨s.container, [], true⟩ false := by
  rcases a.eq_pushScope with h | ⟨b, s, h⟩
  · left
    simp [splice, h, add_eq_append]
  · by_cases hs : s.container.holdsInlines
    · exact Or.inr ⟨b, s, a.textRun, h, hs, by rw [h, splice_pushScope block hs]⟩
    · left
      rw [h]
      simp [splice, pushScope, hs, add_eq_append]

theorem addText_cases (s : String) (a : Assembly) :
    s.isEmpty ∧ a.addText s = a ∨
      (∃ b scope content, a = pushScope scope true b ∧
        extendLast? s a.marks scope.content = some content ∧
        a.addText s = pushScope { scope with content } true b) ∨
      a.addText s = { a.append [.text s a.marks] with textRun := true } := by
  by_cases hs : s.isEmpty
  · exact Or.inl ⟨hs, by simp [addText, hs]⟩
  cases hrun : a.continueRun? s with
  | none => exact Or.inr (Or.inr (by simp [addText, hs, hrun, add_eq_append]))
  | some scopes =>
    obtain ⟨document, open', marks, textRun, finished⟩ := a
    cases open' with
    | nil => simp [continueRun?] at hrun
    | cons scope rest =>
      cases textRun with
      | false => simp [continueRun?] at hrun
      | true =>
        obtain ⟨content, hcontent, rfl⟩ := Option.map_eq_some_iff.mp hrun
        refine Or.inr (Or.inl ⟨⟨document, rest, marks, true, finished⟩, scope, content, rfl, hcontent, ?_⟩)
        simp [addText, hs, hrun, pushScope]

/-! ## What stays the same -/

@[simp] theorem marks_append (nodes : List Node) (a : Assembly) : (a.append nodes).marks = a.marks := by
  unfold append
  split <;> rfl

@[simp] theorem openContainers_append (nodes : List Node) (a : Assembly) :
    (a.append nodes).openContainers = a.openContainers := by
  unfold append openContainers
  split <;> simp [*]

@[simp] theorem marks_add (node : Node) (a : Assembly) : (a.add node).marks = a.marks :=
  marks_append [node] a

@[simp] theorem openContainers_add (node : Node) (a : Assembly) :
    (a.add node).openContainers = a.openContainers :=
  openContainers_append [node] a

@[simp] theorem marks_pushScope (s : Scope) (run : Bool) (a : Assembly) :
    (a.pushScope s run).marks = a.marks := rfl

@[simp] theorem openContainers_pushScope (s : Scope) (run : Bool) (a : Assembly) :
    (a.pushScope s run).openContainers = s.container :: a.openContainers := rfl

@[simp] theorem marks_addText (s : String) (a : Assembly) : (a.addText s).marks = a.marks := by
  obtain ⟨-, h⟩ | ⟨b, scope, content, rfl, -, h⟩ | h := addText_cases s a <;> simp [h]

@[simp] theorem openContainers_addText (s : String) (a : Assembly) :
    (a.addText s).openContainers = a.openContainers := by
  obtain ⟨-, h⟩ | ⟨b, scope, content, rfl, -, h⟩ | h := addText_cases s a
  · rw [h]
  · simp [h]
  · rw [h]
    exact openContainers_append _ a

@[simp] theorem marks_splice (block : Node) (a : Assembly) : (a.splice block).marks = a.marks := by
  obtain h | ⟨b, s, run, rfl, -, h⟩ := splice_cases block a <;> simp [h]

@[simp] theorem openContainers_splice (block : Node) (a : Assembly) :
    (a.splice block).openContainers = a.openContainers := by
  obtain h | ⟨b, s, run, rfl, -, h⟩ := splice_cases block a <;> simp [h]

@[simp] theorem marks_closeScope (a : Assembly) : a.closeScope.marks = a.marks := by
  obtain ⟨-, h⟩ | ⟨b, s, run, rfl, h⟩ := closeScope_cases a <;> simp [h]

@[simp] theorem openContainers_closeScope (a : Assembly) :
    a.closeScope.openContainers = a.openContainers.tail := by
  obtain ⟨hs, h⟩ | ⟨b, s, run, rfl, h⟩ := closeScope_cases a
  · simp [h, openContainers, hs, append]
  · simp [h]

end Assembly

end Adf.Convert
