import Adf.Proofs.Json.Sorted
import Mathlib.Data.List.Nodup

/-!
# The same members in other words

Who reads an object by the names of its members takes no notice of their order nor of members of other names,
and may take a member that is not there for one that is null. `Restates fields members` allows for all of
this, and `Restates.lookup` says that a look-up still finds what the fields say, also after sorting.
-/

namespace Adf.Json

/-- The members are the fields in any order, perhaps with members of other names among them and without some
that are null. -/
inductive Restates (fields : List (String × Json)) : List (String × Json) → Prop
  | intro {kept extra members : List (String × Json)} (kept_sublist : kept.Sublist fields)
      (left_out : ∀ field ∈ fields, field ∉ kept → field.2 = .null)
      (other_names : ∀ member ∈ extra, member.1 ∉ fields.map Prod.fst)
      (order : members.Perm (kept ++ extra)) : Restates fields members

/-- What may be found where the value is said to be. -/
def Says (value : Json) (found : Option Json) : Prop := found = some value ∨ value = .null ∧ found = none

/-- What cannot be left out is found. -/
theorem Says.eq_some {value : Json} {found : Option Json} (h : Says value found) (hvalue : value ≠ .null) :
    found = some value :=
  h.resolve_right fun hnull => hvalue hnull.1

theorem Restates.of_perm {fields members : List (String × Json)} (h : members.Perm fields) :
    Restates fields members :=
  .intro (List.Sublist.refl fields) (fun _ hfield hnot => absurd hfield hnot) (List.forall_mem_nil _)
    (by rwa [List.append_nil])

/-! ## Looking up -/

theorem lookup_eq_some_of_mem {name : String} {value : Json} {members : List (String × Json)}
    (hmem : (name, value) ∈ members) (honly : ∀ other, (name, other) ∈ members → other = value) :
    members.lookup name = some value := by
  induction members with
  | nil => contradiction
  | cons member rest ih =>
    obtain ⟨key, old⟩ := member
    rw [lookup_cons_eq]
    split
    · rename_i hkey
      subst hkey
      rw [honly old List.mem_cons_self]
    · rename_i hkey
      refine ih ?_ fun other hother => honly other (List.mem_cons_of_mem _ hother)
      rcases List.mem_cons.mp hmem with heq | hrest
      · exact absurd (congrArg Prod.fst heq) hkey
      · exact hrest

/-- No field is said twice. -/
theorem eq_of_mem_fields {fields : List (String × Json)} (hnodup : (fields.map Prod.fst).Nodup) {name : String}
    {value other : Json} (hvalue : (name, value) ∈ fields) (hother : (name, other) ∈ fields) : other = value :=
  congrArg Prod.snd (List.inj_on_of_nodup_map hnodup hother hvalue rfl)

theorem Restates.lookup {fields members : List (String × Json)} (h : Restates fields members)
    (hnodup : (fields.map Prod.fst).Nodup) {name : String} {value : Json} (hfield : (name, value) ∈ fields) :
    Says value (members.lookup name) := by
  obtain ⟨hkept, hleft, hother, horder⟩ := h
  rename_i kept extra
  have hname : name ∈ fields.map Prod.fst := List.mem_map_of_mem hfield
  -- whatever has this name is among the fields that were kept
  have hnamed : ∀ other, (name, other) ∈ members → (name, other) ∈ kept := by
    intro other hmem
    rcases List.mem_append.mp (horder.mem_iff.mp hmem) with hmem | hmem
    · exact hmem
    · exact absurd hname (hother _ hmem)
  have honly : ∀ other, (name, other) ∈ members → other = value := fun other hmem =>
    eq_of_mem_fields hnodup hfield (hkept.subset (hnamed other hmem))
  by_cases hmem : (name, value) ∈ members
  · exact Or.inl (lookup_eq_some_of_mem hmem honly)
  · have hnot : (name, value) ∉ kept := fun hin => hmem (horder.mem_iff.mpr (List.mem_append_left _ hin))
    refine Or.inr ⟨hleft _ hfield hnot, lookup_eq_none_of_not_mem fun hin => ?_⟩
    obtain ⟨⟨key, other⟩, hother', rfl⟩ := List.mem_map.mp hin
    rw [honly other hother'] at hother'
    exact hmem hother'

/-! ## Sorting -/

theorem Restates.reverse {fields members : List (String × Json)} (h : Restates fields members) :
    Restates fields members.reverse := by
  obtain ⟨hkept, hleft, hother, horder⟩ := h
  exact .intro hkept hleft hother (members.reverse_perm.trans horder)

/-- Sorting hides no field. -/
theorem Restates.lookup_sorted {fields members : List (String × Json)} (h : Restates fields members)
    (hnodup : (fields.map Prod.fst).Nodup) {name : String} {value : Json} (hfield : (name, value) ∈ fields) :
    Says value.sorted ((sortedMembers [] members).lookup name) := by
  rw [lookup_sortedMembers, List.lookup_nil, Option.or_none]
  obtain hfound | ⟨rfl, hfound⟩ := h.reverse.lookup hnodup hfield
  · rw [hfound]
    exact Or.inl rfl
  · rw [hfound]
    exact Or.inr ⟨rfl, rfl⟩

end Adf.Json
