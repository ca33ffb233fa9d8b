import Adf.Proofs.Json.Sorted
import Adf.Proofs.Vocabulary
import Adf.Schema.Rules

/-!
# The words of the rules

The rules spell the types of nodes and marks and the values of attributes themselves, and so do the names under
which they are written. Here the two are the same: a known word is the name of a type, and what may stand in
an attribute is what is written there. Only for the layout of a table the rules know two words more.
-/

namespace Adf.Schema

/-- A list of values beside their names finds what the names find. -/
theorem lookup_map_name {α : Type} [Named α] (values : List α) (word : String) :
    (values.map fun value => (Named.name value, value)).lookup word =
      values.find? fun value => Named.name value = word := by
  induction values with
  | nil => rfl
  | cons value rest ih =>
    rw [List.map_cons, Json.lookup_cons_eq, List.find?_cons, ih]
    by_cases h : word = Named.name value
    · rw [if_pos h, decide_eq_true h.symm]
    · rw [if_neg h, decide_eq_false fun hname => h hname.symm]

theorem knownNode?_eq_find? (word : String) : knownNode? word = Named.find? word := by
  have hwords : knownNodes = Named.values.map fun type : NodeType => (Named.name type, type) := rfl
  rw [knownNode?, hwords]
  exact lookup_map_name Named.values word

theorem knownMark?_eq_find? (word : String) : knownMark? word = Named.find? word := by
  have hwords : knownMarks = Named.values.map fun type : MarkType => (Named.name type, type) := rfl
  rw [knownMark?, hwords]
  exact lookup_map_name Named.values word

theorem knownNode?_eq_some_iff {word : String} {type : NodeType} :
    knownNode? word = some type ↔ type.name = word := by
  rw [knownNode?_eq_find?]
  exact NodeType.find?_eq_some_iff

theorem knownMark?_eq_some_iff {word : String} {type : MarkType} :
    knownMark? word = some type ↔ type.name = word := by
  rw [knownMark?_eq_find?]
  exact MarkType.find?_eq_some_iff

@[simp] theorem knownNode?_name (type : NodeType) : knownNode? type.name = some type :=
  knownNode?_eq_some_iff.mpr rfl

@[simp] theorem knownMark?_name (type : MarkType) : knownMark? type.name = some type :=
  knownMark?_eq_some_iff.mpr rfl

theorem tableLayouts_eq : tableLayouts = Named.names TableLayout ++ ["align-start", "align-end"] := rfl

theorem mediaLayouts_eq : mediaLayouts = Named.names MediaLayout := rfl

theorem mediaTypes_eq : mediaTypes = Named.names MediaType := rfl

theorem scripts_eq : scripts = Named.names Script := rfl

end Adf.Schema
