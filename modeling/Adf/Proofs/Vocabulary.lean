import Adf.Vocabulary

/-!
# The words of the format

A word is read back as the value that it names, so no two values share a name.
-/

namespace Adf

namespace Named

variable {α : Type} [Named α]

theorem find?_eq_some_iff (hfind : ∀ a : α, find? (name a) = some a) {text : String} {value : α} :
    find? text = some value ↔ name value = text := by
  constructor
  · intro h
    simpa using List.find?_some h
  · rintro rfl
    exact hfind value

theorem name_inj (hfind : ∀ a : α, find? (name a) = some a) {a b : α} : name a = name b ↔ a = b := by
  constructor
  · intro h
    have hb := hfind b
    rw [← h, hfind a] at hb
    exact Option.some.inj hb
  · rintro rfl
    rfl

end Named

theorem NodeType.find?_name (type : NodeType) : Named.find? type.name = some type := by
  cases type <;> decide

theorem MarkType.find?_name (type : MarkType) : Named.find? type.name = some type := by
  cases type <;> decide

theorem TableLayout.find?_name (layout : TableLayout) : Named.find? layout.name = some layout := by
  cases layout <;> decide

theorem MediaLayout.find?_name (layout : MediaLayout) : Named.find? layout.name = some layout := by
  cases layout <;> decide

theorem MediaType.find?_name (type : MediaType) : Named.find? type.name = some type := by
  cases type <;> decide

theorem Script.find?_name (script : Script) : Named.find? script.name = some script := by
  cases script <;> decide

theorem NodeType.find?_eq_some_iff {name : String} {type : NodeType} :
    Named.find? name = some type ↔ type.name = name :=
  Named.find?_eq_some_iff NodeType.find?_name

theorem MarkType.find?_eq_some_iff {name : String} {type : MarkType} :
    Named.find? name = some type ↔ type.name = name :=
  Named.find?_eq_some_iff MarkType.find?_name

theorem NodeType.name_inj {type other : NodeType} : type.name = other.name ↔ type = other :=
  Named.name_inj NodeType.find?_name

theorem MarkType.name_inj {type other : MarkType} : type.name = other.name ↔ type = other :=
  Named.name_inj MarkType.find?_name

end Adf
