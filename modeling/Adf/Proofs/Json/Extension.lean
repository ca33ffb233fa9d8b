import Adf.Proofs.Json.Sorted

/-!
# Values with more members

`Extends new v v'` says that `v'` is `v` with more members in its objects, at any depth, the names of which
are all `new`. The order of the members that were there before stays, and the new ones stand anywhere between
them. Leaving the members with new names out again gives one value for both (`Extends.restrict_eq`), so
whoever looks up no new name cannot tell them apart (`lookup_restrictMembers`).
-/

namespace Adf.Json

/-! ## More members -/

mutual

/-- The second value is the first one with more members of new names. -/
inductive Extends (new : String → Prop) : Json → Json → Prop
  | null : Extends new .null .null
  | bool (b : Bool) : Extends new (.bool b) (.bool b)
  | num (n : Number) : Extends new (.num n) (.num n)
  | str (s : String) : Extends new (.str s) (.str s)
  | arr {items items' : List Json} (h : ItemsExtend new items items') : Extends new (.arr items) (.arr items')
  | obj {members members' : List (String × Json)} (h : MembersExtend new members members') :
    Extends new (.obj members) (.obj members')

inductive ItemsExtend (new : String → Prop) : List Json → List Json → Prop
  | nil : ItemsExtend new [] []
  | cons {item item' : Json} {rest rest' : List Json} (first : Extends new item item')
      (h : ItemsExtend new rest rest') : ItemsExtend new (item :: rest) (item' :: rest')

inductive MembersExtend (new : String → Prop) : List (String × Json) → List (String × Json) → Prop
  | nil : MembersExtend new [] []
  /-- A member that was there before. There may be more in its value. -/
  | kept (name : String) {value value' : Json} {rest rest' : List (String × Json)}
      (first : Extends new value value') (h : MembersExtend new rest rest') :
      MembersExtend new ((name, value) :: rest) ((name, value') :: rest')
  /-- A new member, which may have any value. -/
  | added {name : String} (value : Json) {rest rest' : List (String × Json)} (hname : new name)
      (h : MembersExtend new rest rest') : MembersExtend new rest ((name, value) :: rest')

end

/-! ## Fewer members -/

section

variable (keep : String → Bool)

mutual

/-- The value without the members, at any depth, whose names are not kept. -/
def restrict : Json → Json
  | .arr items => .arr (restrictItems items)
  | .obj members => .obj (restrictMembers members)
  | .null => .null
  | .bool b => .bool b
  | .num n => .num n
  | .str s => .str s

def restrictItems : List Json → List Json
  | [] => []
  | item :: rest => restrict item :: restrictItems rest

def restrictMembers : List (String × Json) → List (String × Json)
  | [] => []
  | (name, value) :: rest =>
    if keep name then (name, restrict value) :: restrictMembers rest else restrictMembers rest

end

theorem restrictItems_eq_map (items : List Json) : restrictItems keep items = items.map (restrict keep) := by
  induction items with
  | nil => rfl
  | cons item rest ih => rw [restrictItems, ih, List.map_cons]

@[simp] theorem typeName_restrict (v : Json) : (v.restrict keep).typeName = v.typeName := by
  cases v <;> rfl

variable {keep}

/-- Looking up a name that is kept commutes with leaving members out. -/
theorem lookup_restrictMembers {k : String} (h : keep k) (members : List (String × Json)) :
    (restrictMembers keep members).lookup k = (members.lookup k).map (restrict keep) := by
  induction members with
  | nil => rfl
  | cons member rest ih =>
    obtain ⟨name, value⟩ := member
    rw [restrictMembers, lookup_cons_eq]
    by_cases hk : k = name
    · subst hk
      rw [if_pos h, if_pos rfl, lookup_cons_eq, if_pos rfl]
      rfl
    · rw [if_neg hk, ← ih]
      split
      · rw [lookup_cons_eq, if_neg hk]
      · rfl

theorem get?_restrict {k : String} (h : keep k) (v : Json) :
    (v.restrict keep).get? k = (v.get? k).map (restrict keep) := by
  cases v with
  | obj members => exact lookup_restrictMembers h members
  | _ => rfl

end

/-! ## The two together -/

section

variable {new : String → Prop} {keep : String → Bool}

mutual

/-- Leaving out all that is new leaves the same of both values. -/
theorem Extends.restrict_eq (hnew : ∀ name, new name → keep name = false) :
    ∀ {v v' : Json}, Extends new v v' → v'.restrict keep = v.restrict keep
  | _, _, .null | _, _, .bool _ | _, _, .num _ | _, _, .str _ => rfl
  | _, _, .arr h => congrArg Json.arr (h.restrict_eq hnew)
  | _, _, .obj h => congrArg Json.obj (h.restrict_eq hnew)

theorem ItemsExtend.restrict_eq (hnew : ∀ name, new name → keep name = false) :
    ∀ {items items' : List Json}, ItemsExtend new items items' →
      restrictItems keep items' = restrictItems keep items
  | _, _, .nil => rfl
  | _, _, .cons first h => by
    rw [restrictItems, restrictItems, first.restrict_eq hnew, h.restrict_eq hnew]

theorem MembersExtend.restrict_eq (hnew : ∀ name, new name → keep name = false) :
    ∀ {members members' : List (String × Json)}, MembersExtend new members members' →
      restrictMembers keep members' = restrictMembers keep members
  | _, _, .nil => rfl
  | _, _, .kept name first h => by
    rw [restrictMembers, restrictMembers, first.restrict_eq hnew, h.restrict_eq hnew]
  | _, _, .added value hname h => by
    rw [restrictMembers, hnew _ hname, if_neg Bool.false_ne_true, h.restrict_eq hnew]

end

mutual

/-- A value is what is left of it, and the members that were left out. -/
theorem restrict_extends (hnew : ∀ name, keep name = false → new name) :
    ∀ v : Json, Extends new (v.restrict keep) v
  | .arr items => .arr (restrictItems_extend hnew items)
  | .obj members => .obj (restrictMembers_extend hnew members)
  | .null => .null
  | .bool b => .bool b
  | .num n => .num n
  | .str s => .str s

theorem restrictItems_extend (hnew : ∀ name, keep name = false → new name) :
    ∀ items : List Json, ItemsExtend new (restrictItems keep items) items
  | [] => .nil
  | item :: rest => .cons (restrict_extends hnew item) (restrictItems_extend hnew rest)

theorem restrictMembers_extend (hnew : ∀ name, keep name = false → new name) :
    ∀ members : List (String × Json), MembersExtend new (restrictMembers keep members) members
  | [] => .nil
  | (name, value) :: rest => by
    rw [restrictMembers]
    split
    · exact .kept name (restrict_extends hnew value) (restrictMembers_extend hnew rest)
    · rename_i hname
      exact .added value (hnew name (Bool.eq_false_iff.mpr hname)) (restrictMembers_extend hnew rest)

end

end

end Adf.Json
