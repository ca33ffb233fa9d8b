import Adf.Proofs.Json.Reading
import Adf.Proofs.Json.Restatement
import Adf.Schema.ProblemJson

/-!
# Reading problems back

A problem is read back from what is written of it, and just so from a restatement of that: with its two
members or its fields in another order, with further fields, or without fields that are null. The fields of
one kind of problem have different names, so none is taken for another (`ofJson?_of_restates`).
-/

namespace Adf

/-! ## Values of fields -/

namespace Json

/-- A text, a number, a list of texts, or nothing. -/
inductive Plain : Json → Prop
  | null : Plain .null
  | str (s : String) : Plain (.str s)
  | nat {n : Nat} (h : n < 2 ^ 64) : Plain (.nat n)
  | strings (texts : List String) : Plain (.arr (texts.map .str))

variable {v : Json}

theorem Plain.sorted_eq (h : v.Plain) : v.sorted = v := by
  cases h with
  | strings texts =>
    have hmap : (texts.map Json.str).map sorted = texts.map .str := by
      rw [List.map_map]
      rfl
    rw [sorted, sortedItems_eq_map, hmap]
  | _ => rfl

theorem Plain.depth_le (h : v.Plain) : v.depth ≤ 1 := by
  cases h with
  | strings texts =>
    have hdepth : itemsDepth (texts.map .str) = 0 := by
      induction texts with
      | nil => rfl
      | cons s rest ih => rw [List.map_cons, itemsDepth, ih]; rfl
    rw [depth, hdepth]
  | _ => exact Nat.zero_le 1

theorem Plain.unsigned_eq (h : v.Plain) : v.unsigned = true := by
  cases h with
  | @nat n h =>
    have hint : (Number.int n).toUInt64? = some (UInt64.ofNat n) := if_pos h
    rw [Json.nat, unsigned, hint]
    rfl
  | strings texts =>
    rw [unsigned]
    induction texts with
    | nil => rfl
    | cons s rest ih => exact ih
  | _ => rfl

section

variable {members : List (String × Json)} (h : ∀ member ∈ members, member.2.Plain)

include h

theorem membersDepth_le_of_plain : membersDepth members ≤ 1 := by
  induction members with
  | nil => exact Nat.zero_le 1
  | cons member rest ih =>
    obtain ⟨hmember, hrest⟩ := List.forall_mem_cons.mp h
    exact Nat.max_le.mpr ⟨hmember.depth_le, ih hrest⟩

theorem unsignedMembers_of_plain : unsignedMembers members = true := by
  induction members with
  | nil => rfl
  | cons member rest ih =>
    obtain ⟨hmember, hrest⟩ := List.forall_mem_cons.mp h
    exact Bool.and_eq_true_iff.mpr ⟨hmember.unsigned_eq, ih hrest⟩

end

end Json

open Json

namespace Schema.Problem

/-! ## What is written -/

/-- The name of the kind of problem. -/
def kind (p : Problem) : String :=
  match p.toJson.get? "type" with
  | some (.str name) => name
  | _ => ""

/-- The fields as they are written. -/
def fields (p : Problem) : List (String × Json) :=
  match p.toJson.get? "data" with
  | some (.obj data) => data
  | _ => []

theorem toJson_eq (p : Problem) : p.toJson = .obj [("type", .str p.kind), ("data", .obj p.fields)] := by
  cases p <;> rfl

/-- Every number is an integer of 64 bits without a sign, as lengths are. Where a number is out of its range,
it is a double. -/
def Exact : Problem → Prop
  | numberOutOfRange _ _ _ => False
  | stringTooShort length least => length < 2 ^ 64 ∧ least < 2 ^ 64
  | badArrayLength length least most =>
    length < 2 ^ 64 ∧ (∀ n ∈ least, n < 2 ^ 64) ∧ ∀ n ∈ most, n < 2 ^ 64
  | _ => True

theorem nodup_fields (p : Problem) : (p.fields.map Prod.fst).Nodup := by
  cases p <;> simp [fields, toJson, get?, lookup_cons_eq]

theorem plain_orNull {n? : Option Nat} (h : ∀ n ∈ n?, n < 2 ^ 64) : Plain (n?.elim .null .nat) := by
  cases n? with
  | none => exact .null
  | some n => exact .nat (h n rfl)

theorem plain_fields {p : Problem} (h : p.Exact) : ∀ field ∈ p.fields, field.2.Plain := by
  cases p with
  | numberOutOfRange => exact absurd h id
  | notAllowedValue value allowed =>
    exact List.forall_mem_cons.mpr ⟨.str value, List.forall_mem_singleton.mpr (.strings allowed)⟩
  | stringTooShort length least =>
    exact List.forall_mem_cons.mpr ⟨.nat h.1, List.forall_mem_singleton.mpr (.nat h.2)⟩
  | badArrayLength length least most =>
    exact List.forall_mem_cons.mpr ⟨.nat h.1, List.forall_mem_cons.mpr ⟨plain_orNull h.2.1,
      List.forall_mem_singleton.mpr (plain_orNull h.2.2)⟩⟩
  | typeMismatch a b | patternMismatch a b | nodeNotAllowed a b | incompatibleMarks a b =>
    exact List.forall_mem_cons.mpr ⟨.str a, List.forall_mem_singleton.mpr (.str b)⟩
  | invalidJson a | missingProperty a | unknownNode a | unknownMark a | marksNotAllowed a =>
    exact List.forall_mem_singleton.mpr (.str a)

/-! ## Reading fields -/

section

variable {found : Option Json}

theorem string?_of_says {s : String} (h : Says (.str s) found) : string? found = some s := by
  rw [h.eq_some nofun, string?]

theorem strings?_map (texts : List String) : strings? (some (.arr (texts.map .str))) = some texts := by
  rw [strings?]
  induction texts with
  | nil => rfl
  | cons s rest ih => rw [List.map_cons, List.mapM_cons, ih]; rfl

theorem strings?_of_says {texts : List String} (h : Says (.arr (texts.map .str)) found) :
    strings? found = some texts := by
  rw [h.eq_some nofun, strings?_map]

theorem length?_nat {n : Nat} (hn : n < 2 ^ 64) : length? (some (.nat n)) = some n := by
  have hint : (Number.int n).toUInt64? = some (UInt64.ofNat n) := if_pos hn
  rw [nat, length?, hint, Option.map_some, UInt64.toNat_ofNat_of_lt' hn]

theorem length?_of_says {n : Nat} (hn : n < 2 ^ 64) (h : Says (.nat n) found) : length? found = some n := by
  rw [h.eq_some nofun, length?_nat hn]

/-- A length that need not be there may be null or left out. -/
theorem optional?_of_says {n? : Option Nat} (hn : ∀ n ∈ n?, n < 2 ^ 64) (h : Says (n?.elim .null .nat) found) :
    optional? length? found = some n? := by
  cases n? with
  | none => obtain rfl | ⟨-, rfl⟩ := h <;> rfl
  | some n =>
    have hlength : optional? length? (some (.nat n)) = (length? (some (.nat n))).map some := rfl
    rw [h.eq_some nofun, Option.elim_some, hlength, length?_nat (hn n rfl), Option.map_some]

end

/-- The fields tell the problem. -/
theorem ofFields?_of_says {p : Problem} (hp : p.Exact) {data : List (String × Json)}
    (h : ∀ {name : String} {value : Json}, (name, value) ∈ p.fields → Says value (data.lookup name)) :
    ofFields? p.kind (.obj data) = some p := by
  have hnext {field other : String × Json} {rest : List (String × Json)} : other ∈ field :: other :: rest :=
    List.mem_cons_of_mem field List.mem_cons_self
  have hlast {a b c : String × Json} : c ∈ [a, b, c] :=
    List.mem_cons_of_mem a (List.mem_cons_of_mem b List.mem_cons_self)
  -- kinds with fields of the same types are read alike
  cases p with
  | numberOutOfRange => exact absurd hp id
  | invalidJson a | missingProperty a | unknownNode a | unknownMark a | marksNotAllowed a =>
    have ha := string?_of_says (h List.mem_cons_self)
    simp [kind, toJson, get?, ofFields?, fields?, ha]
  | typeMismatch a b | patternMismatch a b | nodeNotAllowed a b | incompatibleMarks a b =>
    have ha := string?_of_says (h List.mem_cons_self)
    have hb := string?_of_says (h hnext)
    simp [kind, toJson, get?, ofFields?, fields?, ha, hb]
  | notAllowedValue value allowed =>
    have hvalue := string?_of_says (h List.mem_cons_self)
    have hallowed := strings?_of_says (h hnext)
    simp [kind, toJson, get?, ofFields?, fields?, hvalue, hallowed]
  | stringTooShort length least =>
    have hlength := length?_of_says hp.1 (h List.mem_cons_self)
    have hleast := length?_of_says hp.2 (h hnext)
    simp [kind, toJson, get?, ofFields?, fields?, hlength, hleast]
  | badArrayLength length least most =>
    have hlength := length?_of_says hp.1 (h List.mem_cons_self)
    have hleast := optional?_of_says hp.2.1 (h hnext)
    have hmost := optional?_of_says hp.2.2 (h hlast)
    simp [kind, toJson, get?, ofFields?, fields?, hlength, hleast, hmost]

/-! ## Reading problems -/

/-- A value tells a problem if it is what is written of it, perhaps in other words: both of the object of
`type` and `data` and of the fields in `data`. -/
inductive Told (p : Problem) : Json → Prop
  | intro {data members : List (String × Json)} (fields : Restates p.fields data)
      (tagged : Restates [("type", .str p.kind), ("data", .obj data)] members) : Told p (.obj members)

theorem told_toJson (p : Problem) : p.Told p.toJson := by
  rw [toJson_eq]
  exact .intro (.of_perm (.refl _)) (.of_perm (.refl _))

section

variable {p : Problem} {data members : List (String × Json)}

theorem nodup_tagged : ([("type", Json.str p.kind), ("data", .obj data)].map Prod.fst).Nodup := by
  simp

theorem ofJson?_obj (htype : members.lookup "type" = some (.str p.kind))
    (hdata : members.lookup "data" = some (.obj data)) :
    ofJson? (.obj members) = ofFields? p.kind (.obj data) := by
  simp [ofJson?, fields?, htype, hdata, tag?]

theorem ofJson?_of_told (hp : p.Exact) {v : Json} (h : p.Told v) : ofJson? v = some p := by
  obtain ⟨hfields, htagged⟩ := h
  have htype := (htagged.lookup nodup_tagged List.mem_cons_self).eq_some nofun
  have hdata := (htagged.lookup nodup_tagged (List.mem_cons_of_mem _ List.mem_cons_self)).eq_some nofun
  rw [ofJson?_obj htype hdata]
  exact ofFields?_of_says hp (hfields.lookup p.nodup_fields)

theorem ofJson?_sorted_of_told (hp : p.Exact) {v : Json} (h : p.Told v) : ofJson? v.sorted = some p := by
  obtain @⟨data, members, hfields, htagged⟩ := h
  have htype : (sortedMembers [] members).lookup "type" = some (.str p.kind) :=
    (htagged.lookup_sorted nodup_tagged List.mem_cons_self).eq_some nofun
  have hdata : (sortedMembers [] members).lookup "data" = some (.obj (sortedMembers [] data)) :=
    (htagged.lookup_sorted nodup_tagged (List.mem_cons_of_mem _ List.mem_cons_self)).eq_some nofun
  rw [sorted, ofJson?_obj htype hdata]
  refine ofFields?_of_says hp fun {name value} hfield => ?_
  have hsays := hfields.lookup_sorted p.nodup_fields hfield
  rwa [(plain_fields hp _ hfield).sorted_eq] at hsays

end

/-! ## Depth and numbers of what is written -/

section

variable {p : Problem} (hp : p.Exact)

include hp

theorem depth_toJson_le : p.toJson.depth ≤ depthLimit := by
  have hfields : membersDepth p.fields ≤ 1 := membersDepth_le_of_plain (plain_fields hp)
  have hdepth : p.toJson.depth = max 0 (max (membersDepth p.fields + 1) 0) + 1 := by
    rw [toJson_eq]
    rfl
  rw [hdepth, depthLimit]
  omega

theorem unsigned_toJson : p.toJson.unsigned = true := by
  have hfields : unsignedMembers p.fields = true := unsignedMembers_of_plain (plain_fields hp)
  rw [toJson_eq]
  exact Bool.and_eq_true_iff.mpr ⟨hfields, rfl⟩

theorem reads_text {style : Style} (hstyle : style.Blank) {v : Json} (h : p.Told v)
    (hunsigned : v.unsigned = true) (hdepth : v.depth ≤ depthLimit) :
    ∃ found, read depthLimit (v.text style).toByteArray.toList = .ok found ∧ ofJson? found = some p := by
  refine ⟨v.sorted, ?_, ofJson?_sorted_of_told hp h⟩
  rw [read_text hstyle depthLimit hunsigned, within_of_le hdepth]

end

/-- **Problems are read back.** A problem without doubles is read back from what is written of it, and from
that in other words: with its two members or its fields in any order, with further ones of other names, and
without fields that are null. It is read back from the texts of all of these, too, as long as they can be read
and the numbers in them are unsigned integers. -/
theorem ofJson?_of_restates (p : Problem) (hp : p.Exact) :
    p.toJson = .obj [("type", .str p.kind), ("data", .obj p.fields)] ∧
    ofJson? p.toJson = some p ∧
    (∀ text ∈ [p.toJson.compact, p.toJson.pretty],
      ∃ v, read depthLimit text.toByteArray.toList = .ok v ∧ ofJson? v = some p) ∧
    ∀ data members, Restates p.fields data → Restates [("type", .str p.kind), ("data", .obj data)] members →
      ofJson? (.obj members) = some p ∧
      (unsigned (.obj members) = true → depth (.obj members) ≤ depthLimit →
        ∀ text ∈ [compact (.obj members), pretty (.obj members)],
          ∃ v, read depthLimit text.toByteArray.toList = .ok v ∧ ofJson? v = some p) := by
  have htexts : ∀ v, p.Told v → v.unsigned = true → v.depth ≤ depthLimit → ∀ text ∈ [v.compact, v.pretty],
      ∃ found, read depthLimit text.toByteArray.toList = .ok found ∧ ofJson? found = some p := by
    intro v hv hunsigned hdepth
    refine List.forall_mem_cons.mpr ⟨reads_text hp Style.blank_compact hv hunsigned hdepth, ?_⟩
    exact List.forall_mem_singleton.mpr (reads_text hp Style.blank_pretty hv hunsigned hdepth)
  refine ⟨p.toJson_eq, ofJson?_of_told hp p.told_toJson,
    htexts _ p.told_toJson (unsigned_toJson hp) (depth_toJson_le hp), fun data members hfields htagged => ?_⟩
  have htold : p.Told (.obj members) := .intro hfields htagged
  exact ⟨ofJson?_of_told hp htold, htexts _ htold⟩

/-- A list of three where four or more should be, with the two members swapped, the fields in another order,
the upper bound left out and a note added. -/
def rephrased : Json :=
  .obj [("data", .obj [("min_items", .nat 4), ("note", .bool true), ("length", .nat 3)]),
    ("type", .str "ArrayLengthInvalid")]

theorem ofJson?_rephrased :
    (badArrayLength 3 (some 4) none).Exact ∧ ofJson? rephrased = some (badArrayLength 3 (some 4) none) ∧
      ∃ v, read depthLimit rephrased.pretty.toByteArray.toList = .ok v ∧
        ofJson? v = some (badArrayLength 3 (some 4) none) := by
  have hexact : (badArrayLength 3 (some 4) none).Exact := by simp [Exact]
  have hdropped : [("length", Json.nat 3), ("min_items", .nat 4)].Sublist
      (badArrayLength 3 (some 4) none).fields := List.sublist_append_left _ [("max_items", Json.null)]
  have horder : [("min_items", Json.nat 4), ("note", .bool true), ("length", .nat 3)].Perm
      ([("length", .nat 3), ("min_items", .nat 4)] ++ [("note", .bool true)]) :=
    @List.perm_append_comm _ [("min_items", Json.nat 4), ("note", Json.bool true)] _
  have hfields := Restates.intro hdropped
    (by simp [fields, toJson, get?, lookup_cons_eq]) (by simp [fields, toJson, get?, lookup_cons_eq]) horder
  obtain ⟨-, -, -, hrestated⟩ := ofJson?_of_restates (badArrayLength 3 (some 4) none) hexact
  obtain ⟨hvalue, htexts⟩ := hrestated _ _ hfields (.of_perm (.swap _ _ []))
  exact ⟨hexact, hvalue, htexts rfl (by decide) _ (List.mem_cons_of_mem _ List.mem_cons_self)⟩

end Schema.Problem

end Adf
