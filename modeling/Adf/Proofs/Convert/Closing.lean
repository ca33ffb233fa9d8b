import Adf.Proofs.Convert.Emission
import Adf.Proofs.Markdown.Balance

/-!
# Scopes that stay open

Leaving a document ends every scope that is still open. `completed` is the document that would be there if it
were left now, and leaving any other element does not change it: whether a scope ends at its own end or at
that of the document, it leaves the same nodes behind. So steps that leave what is open can as well be missing
(`result_of_missing_exits`).
-/

namespace Adf.Convert

open Markdown (Balanced Element Event balanced_append_unclosed enter_mem_of_mem_unclosed unclosed)

/-- What scopes leave behind when all of them end, with `inner` at the end of the innermost one. A continuation
with nothing in it leaves nothing. -/
def leftBehind (inner : List Node) : List Scope → List Node
  | [] => inner
  | s :: rest => leftBehind (remains s.container s.continuation (s.content ++ inner)) rest

namespace Assembly

/-- The document with all that is in the open scopes. -/
def completed (a : Assembly) : Document := ⟨a.document.content ++ leftBehind [] a.scopes⟩

/-! ## What does not change it -/

theorem completed_append (nodes : List Node) (a : Assembly) :
    (a.append nodes).completed = ⟨a.document.content ++ leftBehind nodes a.scopes⟩ := by
  obtain ⟨document, scopes, marks, textRun, finished⟩ := a
  cases scopes <;> simp [append, completed, leftBehind]

theorem completed_pushScope (s : Scope) (run : Bool) (a : Assembly) :
    (a.pushScope s run).completed =
      ⟨a.document.content ++ leftBehind (remains s.container s.continuation s.content) a.scopes⟩ := by
  simp [pushScope, completed, leftBehind]

@[simp] theorem completed_withMarks (marks : List Mark) (a : Assembly) :
    (a.withMarks marks).completed = a.completed := rfl

theorem completed_closeScope (a : Assembly) : a.closeScope.completed = a.completed := by
  obtain ⟨-, h⟩ | ⟨b, s, run, rfl, h⟩ := closeScope_cases a
  · rw [h, completed_append, completed]
  · rw [h, completed_append, completed_pushScope]

theorem completed_closeScopes (n : Nat) (a : Assembly) : (a.closeScopes n).completed = a.completed := by
  induction n generalizing a with
  | zero => rfl
  | succ n ih => rw [closeScopes, ih, completed_closeScope]

/-- **A step** that leaves an element. -/
theorem completed_exit {e : Element} (he : e ≠ .document) (a : Assembly) : (a.exit e).completed = a.completed := by
  rw [exit_eq {} a he, completed_withMarks, completed_closeScopes]

theorem completed_feedAll_exits (config : Config) {exits : List Element} (h : .document ∉ exits) (a : Assembly) :
    (feedAll config (exits.map Event.exit) a).completed = a.completed := by
  induction exits generalizing a with
  | nil => rfl
  | cons e exits ih =>
    obtain ⟨he, hlater⟩ := List.ne_and_not_mem_of_not_mem_cons h
    have hrest := ih hlater (a.exit e)
    exact hrest.trans (completed_exit he.symm a)

/-! ## Leaving the document -/

theorem document_closeAll (a : Assembly) : a.closeAll.document = a.completed := by
  have hcompleted : a.closeAll.completed = a.completed := by rw [closeAll_eq, completed_closeScopes]
  rw [← hcompleted, completed, scopes_closeAll, leftBehind, List.append_nil]

theorem result_exit_document (config : Config) (events : List Event) (a : Assembly) :
    (feedAll config (events ++ [.exit .document]) a).result = .ok (feedAll config events a).completed := by
  rw [feedAll_append, ← document_closeAll]
  rfl

/-- **Leaving scopes open is the same as closing them.** Whatever has been reported, it makes no difference to a
document whether elements are left before it ends, and which ones: each open scope leaves behind what it has.
In particular steps that are cut off make the same document as with all the exits that they miss. -/
theorem result_of_missing_exits (config : Config) (events : List Event) (a : Assembly) :
    (∀ exits : List Element, .document ∉ exits →
      (feedAll config (events ++ exits.map Event.exit ++ [.exit .document]) a).result =
          .ok (feedAll config events a).completed ∧
        (feedAll config (events ++ [.exit .document]) a).result = .ok (feedAll config events a).completed) ∧
    (.enter .document ∉ events →
      let whole : List Event :=
        .enter .document :: (events ++ (unclosed events).map Event.exit) ++ [.exit .document]
      (feedAll config whole a).result =
          (feedAll config (.enter .document :: events ++ [.exit .document]) a).result ∧
        ∀ later, Balanced Event.Ends (events ++ later) → Balanced Event.Ends whole) := by
  have hexits (events : List Event) (exits : List Element) (h : .document ∉ exits) :
      (feedAll config (events ++ exits.map Event.exit ++ [.exit .document]) a).result =
        .ok (feedAll config events a).completed := by
    rw [result_exit_document, feedAll_append, completed_feedAll_exits config h]
  refine ⟨fun exits h => ⟨hexits events exits h, result_exit_document config events a⟩, ?_⟩
  intro hdocument
  refine ⟨?_, fun later hbalanced => (balanced_append_unclosed hbalanced).pair (.leave .document)⟩
  have hunclosed : .document ∉ unclosed events := fun h => hdocument (enter_mem_of_mem_unclosed h)
  have hwhole := hexits (.enter .document :: events) (unclosed events) hunclosed
  exact hwhole.trans (result_exit_document config (.enter .document :: events) a).symm

/-- In a cell, behind an image in emphasis: the continuation has nothing in it. Of the exits in the first list
some are missing and some leave what is not open. -/
theorem result_of_open_cell :
    let config : Config := { externalMedia := true }
    let events : List Event :=
      [.enter .table, .enter .tableRow, .enter (.tableCell false), .enter (.emphasis 1),
        .enter (.text "a" false), .exit (.text "a" false), .enter (.image "i" "" "")]
    let exits : List Element := [.codeSpan, .tableCell false, .strikethrough, .tableRow]
    let later : List Event :=
      [.exit (.image "i" "" ""), .exit (.emphasis 1), .exit (.tableCell false), .exit .tableRow, .exit .table]
    let whole : List Event :=
      .enter .document :: (events ++ (unclosed events).map Event.exit) ++ [.exit .document]
    let d : Document :=
      ⟨[.container (.table false .default)
        [.container .tableRow
          [.container .tableCell
            [.container .paragraph [.text "a" [.em]],
              .container (.mediaSingle .center) [.externalMedia "i" ""]]]]]⟩
    .document ∉ exits ∧ .enter .document ∉ events ∧ Balanced Event.Ends (events ++ later) ∧
      (feedAll config (events ++ exits.map Event.exit ++ [.exit .document]) start).result = .ok d ∧
      (feedAll config (events ++ [.exit .document]) start).result = .ok d ∧
      (feedAll config whole start).result =
        (feedAll config (.enter .document :: events ++ [.exit .document]) start).result ∧
      Balanced Event.Ends whole := by
  intro config events exits later whole d
  have hexits : .document ∉ exits := by decide
  have hevents : .enter .document ∉ events := by decide
  have htext : Balanced Event.Ends [.enter (.text "a" false), .exit (.text "a" false)] :=
    Balanced.nil.pair (.leave (.text "a" false))
  have himage : Balanced Event.Ends [.enter (.image "i" "" ""), .exit (.image "i" "" "")] :=
    Balanced.nil.pair (.leave (.image "i" "" ""))
  have hlater : Balanced Event.Ends (events ++ later) :=
    ((((htext.append himage).pair (.leave (.emphasis 1))).pair (.leave (.tableCell false))).pair
      (.leave .tableRow)).pair (.leave .table)
  obtain ⟨hleft, hopen⟩ := (result_of_missing_exits config events start).1 exits hexits
  obtain ⟨hcompleted, hbalanced⟩ := (result_of_missing_exits config events start).2 hevents
  have hd : (feedAll config events start).completed = d := by decide
  rw [hd] at hleft hopen
  exact ⟨hexits, hevents, hlater, hleft, hopen, hcompleted, hbalanced later hlater⟩

end Assembly

end Adf.Convert
