import Adf.Mark

/-!
# Looking up sorted members

Sorting the members of an object moves them, but what is found under a name stays the same up to the order
of what is inside. Of two members with one name the last counts, so names are looked up from the end.
-/

namespace Adf.Json

theorem lookup_cons_eq {α : Type} (k name : String) (value : α) (rest : List (String × α)) :
    ((name, value) :: rest).lookup k = if k = name then some value else rest.lookup k := by
  rw [List.lookup_cons]
  by_cases h : k = name
  · simp [h]
  · rw [beq_false_of_ne h, if_neg h]

theorem lookup_insertMember (k name : String) (value : Json) (members : List (String × Json)) :
    (insertMember name value members).lookup k = if k = name then some value else members.lookup k := by
  induction members with
  | nil => exact lookup_cons_eq k name value []
  | cons member rest ih =>
    obtain ⟨key, old⟩ := member
    rw [insertMember]
    split
    · exact lookup_cons_eq k name value _
    · split
      · rename_i hkey
        subst hkey
        by_cases h : k = name <;> simp [lookup_cons_eq, h]
      · rename_i hkey
        rw [lookup_cons_eq, lookup_cons_eq, ih]
        by_cases h : k = key
        · have hname : k ≠ name := fun hk => hkey (hk.symm.trans h)
          rw [if_pos h, if_neg hname, if_pos h]
        · rw [if_neg h, if_neg h]

theorem lookup_sortedMembers (k : String) (members done : List (String × Json)) :
    (sortedMembers done members).lookup k =
      ((members.reverse.lookup k).map sorted).or (done.lookup k) := by
  induction members generalizing done with
  | nil => rw [sortedMembers]; rfl
  | cons member rest ih =>
    obtain ⟨name, value⟩ := member
    rw [sortedMembers, ih, lookup_insertMember, List.reverse_cons, List.lookup_append, lookup_cons_eq]
    by_cases h : k = name
    · cases rest.reverse.lookup k <;> simp [h]
    · cases rest.reverse.lookup k <;> simp [h]

/-! ## Members that may be left out -/

/-- The value, unless it has nothing in it. -/
def present? : Json → Option Json
  | .arr [] | .obj [] => none
  | .str s => if s.isEmpty then none else some (.str s)
  | value => some value

theorem member_eq (name : String) (value : Json) :
    member name value = value.present?.toList.map (name, ·) := by
  cases value with
  | arr items => cases items <;> rfl
  | obj members => cases members <;> rfl
  | str s =>
    rw [member, present?]
    by_cases hs : s.isEmpty
    · rw [if_pos hs, if_pos hs]
      rfl
    · rw [if_neg hs, if_neg hs]
      rfl
  | _ => rfl

theorem lookup_member (k name : String) (value : Json) :
    (member name value).lookup k = if k = name then value.present? else none := by
  rw [member_eq]
  cases value.present? with
  | none => simp
  | some v => exact lookup_cons_eq k name v []

/-- An object that has been left out is read like an empty one. -/
theorem get?_present? (name : String) (members : List (String × Json)) :
    ((present? (.obj members)).map sorted).bind (get? name) = (members.reverse.lookup name).map sorted := by
  cases members with
  | nil => rfl
  | cons member rest =>
    show (sortedMembers [] (member :: rest)).lookup name = _
    rw [lookup_sortedMembers]
    exact Option.or_none

/-- The members of an object with these fields, without the fields that have nothing in them. -/
abbrev membersOf (fields : List (String × Json)) : List (String × Json) :=
  fields.flatMap fun field => member field.1 field.2

/-- The sorted members of an object with these fields, without the fields that have nothing in them. -/
def written (fields : List (String × Json)) : List (String × Json) :=
  sortedMembers [] (fields.flatMap fun field => member field.1 field.2)

theorem sorted_obj_membersOf (fields : List (String × Json)) :
    sorted (.obj (membersOf fields)) = .obj (written fields) :=
  rfl

theorem map_fst_membersOf_sublist (fields : List (String × Json)) :
    ((membersOf fields).map Prod.fst).Sublist (fields.map Prod.fst) := by
  induction fields with
  | nil => exact List.Sublist.refl []
  | cons field rest ih =>
    obtain ⟨name, value⟩ := field
    rw [membersOf, List.flatMap_cons, List.map_append, member_eq]
    cases value.present? with
    | none => exact ih.cons name
    | some v => exact ih.cons_cons name

theorem lookup_eq_none_of_not_mem {k : String} {fields : List (String × Json)}
    (h : k ∉ fields.map Prod.fst) : fields.lookup k = none := by
  rw [List.lookup_eq_none_iff]
  intro field hfield
  refine bne_iff_ne.mpr fun hk => h ?_
  exact List.mem_map.mpr ⟨field, hfield, hk.symm⟩

/-- Where no name comes twice, the last member of a name is the first. -/
theorem lookup_reverse (k : String) {members : List (String × Json)} (h : (members.map Prod.fst).Nodup) :
    members.reverse.lookup k = members.lookup k := by
  induction members with
  | nil => rfl
  | cons member rest ih =>
    obtain ⟨name, value⟩ := member
    obtain ⟨hname, hrest⟩ := List.nodup_cons.mp h
    rw [List.reverse_cons, List.lookup_append, ih hrest, lookup_cons_eq, lookup_cons_eq, List.lookup_nil]
    by_cases hk : k = name
    · subst hk
      rw [lookup_eq_none_of_not_mem hname, Option.none_or]
    · rw [if_neg hk, if_neg hk, Option.or_none]

theorem lookup_membersOf (k : String) {fields : List (String × Json)} (h : (fields.map Prod.fst).Nodup) :
    (membersOf fields).lookup k = (fields.lookup k).bind present? := by
  induction fields with
  | nil => rfl
  | cons field rest ih =>
    obtain ⟨name, value⟩ := field
    obtain ⟨hname, hrest⟩ := List.nodup_cons.mp h
    rw [membersOf, List.flatMap_cons, List.lookup_append, ih hrest, lookup_member, lookup_cons_eq]
    by_cases hk : k = name
    · subst hk
      rw [lookup_eq_none_of_not_mem hname, if_pos rfl, if_pos rfl]
      exact Option.or_none
    · rw [if_neg hk, if_neg hk]
      rfl

theorem lookup_written (k : String) {fields : List (String × Json)} (h : (fields.map Prod.fst).Nodup) :
    (written fields).lookup k = ((fields.lookup k).bind present?).map sorted := by
  have hnodup : ((membersOf fields).map Prod.fst).Nodup := h.sublist (map_fst_membersOf_sublist fields)
  rw [written, lookup_sortedMembers, lookup_reverse k hnodup, lookup_membersOf k h]
  exact Option.or_none

/-! ## Lists -/

theorem sortedItems_eq_map (items : List Json) : sortedItems items = items.map sorted := by
  induction items with
  | nil => rfl
  | cons item rest ih => rw [sortedItems, ih, List.map_cons]

end Adf.Json
