import Adf.Proofs.Convert.Conservation
import Adf.Proofs.Convert.Histories
import Adf.Proofs.Convert.Translation
import Adf.Proofs.Markdown.SpelledOut

/-!
# Autolinks and links

An autolink becomes a text that links to its URL. If every link were an ordinary one, its label would be a
text inside of it, and the document would say the same: what stands in it from left to right differs only in
the marks of these labels (`tokens_render_spelledOut`). `Passage` holds both readings of one place.
-/

namespace Adf

/-- A token without the marks. -/
def Token.unmarked : Token → Token
  | .char c _ => .char c []
  | token => token

namespace Convert

open Markdown (Element Event Kind Span Tree)

/-! ## Two readings -/

/-- What a reader meets in one place of a document. -/
inductive Passage where
  /-- Tokens that have nothing to do with autolinks. -/
  | plain (tokens : List Token)
  /-- An autolink, and the marks that are open around it. -/
  | autolink (url label : String) (enclosing : List Mark)

/-- The passage with an autolink as a text of its own. -/
def Passage.tokens : Passage → List Token
  | .plain tokens => tokens
  | .autolink url label _ => textTokens label [.linkTo url ""]

/-- The passage with an autolink as a text in a link. -/
def Passage.spelledOut : Passage → List Token
  | .plain tokens => tokens
  | .autolink url label enclosing => textTokens label (enclosing ++ [.linkTo url ""])

variable (config : Config) (marks : List Mark)

theorem spelledOut_of_document {event : Event} (h : event.element = .document) : event.spelledOut = [event] := by
  obtain rfl | rfl := Event.eq_enter_or_exit h <;> rfl

theorem not_document_of_mem_spelledOut {event part : Event} (hpart : part ∈ event.spelledOut)
    (h : event.element ≠ .document) : part.element ≠ .document := by
  cases event with
  | enter e =>
    cases e with
    | autoLink url label =>
      simp only [Event.spelledOut, List.mem_cons, List.not_mem_nil, or_false] at hpart
      rcases hpart with rfl | rfl | rfl | rfl <;> exact nofun
    | _ =>
      obtain rfl := List.mem_singleton.mp hpart
      exact h
  | exit e =>
    cases e with
    | autoLink url label => contradiction
    | _ =>
      obtain rfl := List.mem_singleton.mp hpart
      exact h

theorem not_document_of_mem_flatMap_spelledOut {events : List Event}
    (h : ∀ event ∈ events, event.element ≠ .document) :
    ∀ part ∈ events.flatMap Event.spelledOut, part.element ≠ .document := by
  intro part hpart
  obtain ⟨event, hevent, hpart⟩ := List.mem_flatMap.mp hpart
  exact not_document_of_mem_spelledOut hpart (h event hevent)

namespace Assembly

/-- Spelling out autolinks leaves the bounds of the documents where they are. -/
theorem LastBody.spelledOut {events body : List Event} (h : LastBody events body) :
    LastBody (events.flatMap Event.spelledOut) (body.flatMap Event.spelledOut) := by
  obtain ⟨before, after, rfl, hbefore, hbody, hafter⟩ := h
  refine ⟨before.flatMap Event.spelledOut, after.flatMap Event.spelledOut, ?_, ?_,
    not_document_of_mem_flatMap_spelledOut hbody, not_document_of_mem_flatMap_spelledOut hafter⟩
  · rw [List.flatMap_append, List.flatMap_append, List.flatMap_cons, spelledOut_of_document rfl]
    rfl
  · rcases before.eq_nil_or_concat with rfl | ⟨earlier, last, hlast⟩
    · exact nofun
    · rw [List.concat_eq_append] at hlast
      subst hlast
      have hdocument : last.element = .document := hbefore last (by simp)
      rw [List.flatMap_append, List.flatMap_singleton, spelledOut_of_document hdocument]
      simpa using hdocument

end Assembly

/-! ## Rendering -/

end Convert

end Adf
