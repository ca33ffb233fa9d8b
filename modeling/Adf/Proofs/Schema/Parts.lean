import Adf.Proofs.Schema.Agreement
import Adf.Proofs.Schema.Grammar

/-!
# The checks of values, attributes and marks

Each list of issues that the checks make of a value, of an attribute or of a list of marks is empty if and
only if one predicate of the grammar holds.
-/

namespace Adf

namespace Schema

/-! ## Single values -/

theorem stringIssues_eq_nil_iff {path : Path} {v : Json} : stringIssues path v = [] ↔ IsString v := by
  cases v <;> simp [stringIssues, IsString]

theorem booleanIssues_eq_nil_iff {path : Path} {v : Json} : booleanIssues path v = [] ↔ IsBoolean v := by
  cases v <;> simp [booleanIssues, IsBoolean]

theorem integer?_eq_some_iff {v : Json} {z : Int} :
    integer? v = some z ↔ v = .num (.int z) ∧ -0x8000000000000000 ≤ z ∧ z ≤ 0x7fffffffffffffff := by
  constructor
  · intro h
    match v, h with
    | .num (.int y), h =>
      simp only [integer?, Number.toInt64?, Option.ite_none_right_eq_some, Option.some.injEq] at h
      obtain ⟨hbounds, rfl⟩ := h
      exact ⟨rfl, by omega, by omega⟩
  · rintro ⟨rfl, hleast, hmost⟩
    have hbounds : -0x8000000000000000 ≤ z ∧ z < 0x8000000000000000 := by omega
    simp only [integer?, Number.toInt64?, if_pos hbounds]

theorem IsInteger.congr {p q : Int → Prop} (h : ∀ z, p z ↔ q z) {v : Json} : IsInteger p v ↔ IsInteger q v := by
  simp only [IsInteger, h]

theorem isInteger_int_iff {p : Int → Prop} {z : Int}
    (hz : -0x8000000000000000 ≤ z ∧ z ≤ 0x7fffffffffffffff) :
    IsInteger p (.num (.int z)) ↔ p z := by
  constructor
  · rintro ⟨y, hy, -, hp⟩
    cases hy
    exact hp
  · exact fun hp => ⟨z, rfl, hz, hp⟩

theorem integerIssues_eq_nil_iff {least most : Option Int} {path : Path} {v : Json} :
    integerIssues least most path v = [] ↔
      IsInteger (fun z => (∀ l ∈ least, l ≤ z) ∧ ∀ m ∈ most, z ≤ m) v := by
  rw [integerIssues]
  cases hv : integer? v with
  | none =>
    refine iff_of_false (List.cons_ne_nil _ _) ?_
    rintro ⟨z, rfl, hz, -⟩
    rw [integer?_eq_some_iff.mpr ⟨rfl, hz⟩] at hv
    contradiction
  | some z =>
    obtain ⟨rfl, hz⟩ := integer?_eq_some_iff.mp hv
    have hbounds : (least.any (z < ·) || most.any (· < z)) = false ↔
        (∀ l ∈ least, l ≤ z) ∧ ∀ m ∈ most, z ≤ m := by
      cases least <;> cases most <;> simp
    rw [isInteger_int_iff hz, ← hbounds]
    dsimp only
    split
    · rename_i houtside
      simp [houtside]
    · rename_i hinside
      simpa using hinside

theorem choiceIssues_eq_nil_iff_isOneOf {allowed : List String} {path : Path} {v : Json} :
    choiceIssues allowed path v = [] ↔ IsOneOf allowed v := by
  cases v with
  | str s => simp [choiceIssues_eq_nil_iff, IsOneOf]
  | _ => simp [choiceIssues, IsOneOf]

theorem isHexDigit_iff {c : Char} : isHexDigit c ↔ c ∈ "0123456789abcdefABCDEF".toList := by
  constructor
  · intro h
    have hsmall : c.toNat < 0x80 := by
      simp only [isHexDigit, Char.isDigit, Bool.or_eq_true, Bool.and_eq_true, decide_eq_true_eq,
        Char.le_def, UInt32.le_iff_toNat_le] at h
      have h9 : ('9' : Char).val.toNat = 57 := rfl
      have hf : ('f' : Char).val.toNat = 102 := rfl
      have hF : ('F' : Char).val.toNat = 70 := rfl
      simp only [Char.toNat]
      omega
    have hall : ∀ n < 0x80, isHexDigit (Char.ofNat n) →
        Char.ofNat n ∈ "0123456789abcdefABCDEF".toList := by
      decide
    have hc := hall c.toNat hsmall
    rw [Char.ofNat_toNat] at hc
    exact hc h
  · have hall : "0123456789abcdefABCDEF".toList.all isHexDigit := by decide
    exact List.all_eq_true.mp hall c

theorem colorIssues_eq_nil_iff {path : Path} {v : Json} : colorIssues path v = [] ↔ IsColor v := by
  cases v with
  | str s =>
    have hcolor : isColor s ↔ IsColor (.str s) := by
      rw [isColor.eq_def]
      constructor
      · intro h
        split at h
        · rename_i digits hs
          obtain ⟨hlength, hdigits⟩ := Bool.and_eq_true_iff.mp h
          exact ⟨s, digits, rfl, hs, of_decide_eq_true hlength,
            fun c hc => isHexDigit_iff.mp (List.all_eq_true.mp hdigits c hc)⟩
        · contradiction
      · rintro ⟨_, digits, ⟨⟩, hs, hlength, hdigits⟩
        rw [hs]
        exact Bool.and_eq_true_iff.mpr ⟨decide_eq_true hlength,
          List.all_eq_true.mpr fun c hc => isHexDigit_iff.mpr (hdigits c hc)⟩
    rw [colorIssues, ← hcolor]
    cases isColor s <;> simp
  | _ => simp [colorIssues, IsColor]

/-! ## Attributes -/

theorem attrsIssues_eq_nil_iff {path : Path} {members : Members} :
    attrsIssues path members = [] ↔ AbsentOrObject (members.lookup "attrs") := by
  rw [attrsIssues]
  cases members.lookup "attrs" with
  | none => exact iff_of_true rfl .absent
  | some attrs =>
    cases attrs with
    | obj attrs => exact iff_of_true rfl (.object attrs)
    | _ => exact iff_of_false (List.cons_ne_nil _ _) (by rintro ⟨⟩)

theorem lookup_attrs?_eq_attr? (members : Members) (name : String) :
    (attrs? members).bind (List.lookup name) = attr? name (.obj members) :=
  bind_lookup_attrs? members name

section

variable {members : Members} {name : String} {path : Path} {check : Path → Json → List Issue}
  {p : Json → Prop}

theorem required_eq_nil_iff_requires (hcheck : ∀ {path v}, check path v = [] ↔ p v) :
    required (attrs? members) name path check = [] ↔ Requires name p (.obj members) := by
  rw [required_eq_nil_iff, lookup_attrs?_eq_attr?, Requires]
  simp only [hcheck]

theorem optional_eq_nil_iff_permits (hcheck : ∀ {path v}, check path v = [] ↔ p v) :
    optional (attrs? members) name path check = [] ↔ Permits name p (.obj members) := by
  rw [optional_eq_nil_iff, lookup_attrs?_eq_attr?, Permits]
  simp only [hcheck]

end

/-- The type of media decides which attributes they must have. -/
theorem isOneOf_mediaTypes_and_keys {type : Json} {p : String → Prop} :
    (IsOneOf mediaTypes type ∧ ∀ name ∈ mediaKeys type, p name) ↔
      IsOneOf ["external"] type ∧ p "url" ∨ IsOneOf ["file", "link"] type ∧ p "id" ∧ p "collection" := by
  have hfile : mediaKeys (.str "file") = ["id", "collection"] := rfl
  have hlink : mediaKeys (.str "link") = ["id", "collection"] := rfl
  have hexternal : mediaKeys (.str "external") = ["url"] := rfl
  have htypes : mediaTypes = ["file", "link", "external"] := rfl
  rw [htypes]
  constructor
  · rintro ⟨⟨s, hs, rfl⟩, hkeys⟩
    simp only [List.mem_cons, List.not_mem_nil, or_false] at hs
    rcases hs with rfl | rfl | rfl
    · rw [hfile] at hkeys
      exact Or.inr ⟨⟨"file", by simp, rfl⟩, hkeys "id" (by simp), hkeys "collection" (by simp)⟩
    · rw [hlink] at hkeys
      exact Or.inr ⟨⟨"link", by simp, rfl⟩, hkeys "id" (by simp), hkeys "collection" (by simp)⟩
    · rw [hexternal] at hkeys
      exact Or.inl ⟨⟨"external", by simp, rfl⟩, hkeys "url" (by simp)⟩
  · rintro (⟨⟨s, hs, rfl⟩, hurl⟩ | ⟨⟨s, hs, rfl⟩, hid, hcollection⟩)
    · obtain rfl := List.mem_singleton.mp hs
      refine ⟨⟨"external", by simp, rfl⟩, ?_⟩
      rw [hexternal]
      simpa using hurl
    · simp only [List.mem_cons, List.not_mem_nil, or_false] at hs
      rcases hs with rfl | rfl
      · refine ⟨⟨"file", by simp, rfl⟩, ?_⟩
        rw [hfile]
        simpa using ⟨hid, hcollection⟩
      · refine ⟨⟨"link", by simp, rfl⟩, ?_⟩
        rw [hlink]
        simpa using ⟨hid, hcollection⟩

theorem mediaIssues_eq_nil_iff {members : Members} {path : Path} :
    mediaIssues (attrs? members) path = [] ↔ IsMedia (.obj members) := by
  have hrequired (name : String) : required (attrs? members) name path stringIssues = [] ↔
      Requires name IsString (.obj members) := required_eq_nil_iff_requires stringIssues_eq_nil_iff
  have halt : optional (attrs? members) "alt" path stringIssues = [] ↔
      Permits "alt" IsString (.obj members) := optional_eq_nil_iff_permits stringIssues_eq_nil_iff
  have htype : required (attrs? members) "type" path (choiceIssues mediaTypes) = [] ↔
      Requires "type" (IsOneOf mediaTypes) (.obj members) :=
    required_eq_nil_iff_requires choiceIssues_eq_nil_iff_isOneOf
  rw [mediaIssues, List.append_eq_nil_iff, htype, lookup_attrs?_eq_attr?, IsMedia]
  cases hvalue : attr? "type" (.obj members) with
  | none => simp [Requires, hvalue]
  | some type =>
    have hvalues (names : List String) : Requires "type" (IsOneOf names) (.obj members) ↔
        IsOneOf names type := by
      simp [Requires, hvalue]
    simp only [hvalues, List.append_eq_nil_iff, List.flatMap_eq_nil_iff, hrequired, halt]
    rw [← and_assoc, isOneOf_mediaTypes_and_keys]

theorem nodeAttrIssues_eq_nil_iff {members : Members} {path : Path} {type : NodeType} :
    nodeAttrIssues type (attrs? members) path = [] ↔ HasAttributes (.obj members) type := by
  cases type with
  | heading =>
    have hlevel : ∀ {path v}, integerIssues (some 1) (some 6) path v = [] ↔
        IsInteger (fun z => 1 ≤ z ∧ z ≤ 6) v := by
      intro path v
      rw [integerIssues_eq_nil_iff]
      exact IsInteger.congr fun z => by simp
    exact required_eq_nil_iff_requires hlevel
  | codeBlock => exact optional_eq_nil_iff_permits stringIssues_eq_nil_iff
  | orderedList =>
    have horder : ∀ {path v}, integerIssues (some 0) none path v = [] ↔ IsInteger (fun z => 0 ≤ z) v := by
      intro path v
      rw [integerIssues_eq_nil_iff]
      exact IsInteger.congr fun z => by simp
    exact optional_eq_nil_iff_permits horder
  | table =>
    refine List.append_eq_nil_iff.trans (and_congr ?_ ?_)
    · exact optional_eq_nil_iff_permits booleanIssues_eq_nil_iff
    · exact optional_eq_nil_iff_permits choiceIssues_eq_nil_iff_isOneOf
  | mediaSingle => exact optional_eq_nil_iff_permits choiceIssues_eq_nil_iff_isOneOf
  | media => exact mediaIssues_eq_nil_iff
  | _ => exact iff_of_true rfl trivial

theorem markAttrIssues_eq_nil_iff {members : Members} {path : Path} {type : MarkType} :
    markAttrIssues type (attrs? members) path = [] ↔ HasMarkAttributes (.obj members) type := by
  cases type with
  | link =>
    refine List.append_eq_nil_iff.trans (and_congr ?_ ?_)
    · exact required_eq_nil_iff_requires stringIssues_eq_nil_iff
    · exact optional_eq_nil_iff_permits stringIssues_eq_nil_iff
  | subsup => exact required_eq_nil_iff_requires choiceIssues_eq_nil_iff_isOneOf
  | textColor => exact required_eq_nil_iff_requires colorIssues_eq_nil_iff
  | _ => exact iff_of_true rfl trivial

/-! ## Marks -/

theorem markType?_eq_some_iff {v : Json} {type : MarkType} :
    markType? v = some type ↔ v.get? "type" = some (.str type.name) := by
  rw [markType?]
  cases v.get? "type" with
  | none => simp
  | some value =>
    cases value with
    | str name =>
      dsimp only
      rw [knownMark?_eq_some_iff, Option.some.injEq, Json.str.injEq, eq_comm]
    | _ => simp

theorem IsMark.markType?_eq {type : MarkType} {v : Json} (h : IsMark type v) : markType? v = some type :=
  markType?_eq_some_iff.mpr h.typed

theorem IsMark.isMark_iff {type other : MarkType} {v : Json} (h : IsMark type v) :
    IsMark other v ↔ type = other := by
  constructor
  · intro h'
    have htype := h.markType?_eq
    rw [h'.markType?_eq] at htype
    exact (Option.some.inj htype).symm
  · rintro rfl
    exact h

theorem exists_isMark_obj_iff {members : Members} {type : MarkType}
    (htype : members.lookup "type" = some (.str type.name)) :
    (∃ t, IsMark t (.obj members)) ↔
      AbsentOrObject (members.lookup "attrs") ∧ HasMarkAttributes (.obj members) type := by
  constructor
  · rintro ⟨t, h⟩
    obtain rfl : t = type := by
      have htyped : members.lookup "type" = some (.str t.name) := h.typed
      rw [htype, Option.some.injEq, Json.str.injEq, MarkType.name_inj] at htyped
      exact htyped.symm
    exact ⟨h.attrs, h.attributes⟩
  · rintro ⟨hattrs, hattributes⟩
    exact ⟨type, htype, hattrs, hattributes⟩

theorem markIssues_eq_nil_iff {path : Path} {v : Json} :
    markIssues path v = [] ↔ ∃ type, IsMark type v := by
  cases v with
  | obj members =>
    have hnone (h : ∀ type : MarkType, members.lookup "type" ≠ some (.str type.name)) :
        ¬∃ type, IsMark type (.obj members) := by
      rintro ⟨type, hmark⟩
      exact h type hmark.typed
    rw [markIssues]
    cases htype : members.lookup "type" with
    | none =>
      refine iff_of_false (List.cons_ne_nil _ _) (hnone ?_)
      simp [htype]
    | some value =>
      cases value with
      | str name =>
        dsimp only
        cases hfind : knownMark? name with
        | none =>
          refine iff_of_false (List.cons_ne_nil _ _) (hnone ?_)
          intro type hname
          rw [htype, Option.some.injEq, Json.str.injEq] at hname
          rw [hname, knownMark?_name] at hfind
          contradiction
        | some type =>
          obtain rfl := knownMark?_eq_some_iff.mp hfind
          have hattrs : attrsIssues path members = [] ↔ _ := attrsIssues_eq_nil_iff
          have hattributes : markAttrIssues type (attrs? members) path = [] ↔ _ :=
            markAttrIssues_eq_nil_iff
          rw [exists_isMark_obj_iff htype, ← hattrs, ← hattributes]
          cases attrsIssues path members <;> simp
      | _ =>
        refine iff_of_false (List.cons_ne_nil _ _) (hnone ?_)
        simp [htype]
  | _ =>
    refine iff_of_false (List.cons_ne_nil _ _) ?_
    rintro ⟨type, hmark⟩
    have htyped := hmark.typed
    contradiction

theorem exclusionIssues_eq_nil_iff {marks : List Json} (h : ∀ m ∈ marks, ∃ type, IsMark type m)
    {path : Path} :
    exclusionIssues path marks = [] ↔
      ((∃ m ∈ marks, IsMark .code m) → ∀ m ∈ marks, IsMark .code m ∨ IsMark .link m) := by
  have hcode : marks.any (markType? · = some .code) ↔ ∃ m ∈ marks, IsMark .code m := by
    rw [List.any_eq_true]
    refine exists_congr fun m => and_congr_right fun hm => ?_
    obtain ⟨type, hmark⟩ := h m hm
    rw [hmark.isMark_iff, hmark.markType?_eq, decide_eq_true_eq, Option.some.injEq]
  have hbeside (f : Json × Nat → List Issue)
      (hf : ∀ m i, f (m, i) = [] ↔ ∀ type, markType? m = some type → type ∈ besideCode) :
      marks.zipIdx.flatMap f = [] ↔ ∀ m ∈ marks, IsMark .code m ∨ IsMark .link m := by
    rw [flatMap_zipIdx_eq_nil_iff hf]
    refine forall_congr' fun m => imp_congr_right fun hm => ?_
    obtain ⟨type, hmark⟩ := h m hm
    rw [hmark.isMark_iff, hmark.isMark_iff, hmark.markType?_eq]
    simp [besideCode]
  rw [exclusionIssues]
  by_cases hany : marks.any (markType? · = some .code)
  · rw [if_pos hany, forall_prop_of_true (hcode.mp hany)]
    refine hbeside _ fun m i => ?_
    dsimp only
    cases markType? m with
    | none => simp
    | some type => by_cases htype : type ∈ besideCode <;> simp [htype]
  · rw [if_neg hany]
    exact iff_of_true rfl fun hexists => absurd (hcode.mpr hexists) hany

theorem markListIssues_eq_nil_iff {path : Path} {v : Json} :
    markListIssues path v = [] ↔ IsMarkList v := by
  cases v with
  | arr marks =>
    have hmarks (f : Json × Nat → List Issue) (hf : ∀ m i, f (m, i) = markIssues (path.index i) m) :
        marks.zipIdx.flatMap f = [] ↔ ∀ m ∈ marks, ∃ type, IsMark type m := by
      refine flatMap_zipIdx_eq_nil_iff fun m i => ?_
      rw [hf]
      exact markIssues_eq_nil_iff
    rw [markListIssues, List.append_eq_nil_iff, hmarks _ fun _ _ => rfl]
    constructor
    · rintro ⟨heach, hexclusion⟩
      exact ⟨marks, rfl, heach, (exclusionIssues_eq_nil_iff heach).mp hexclusion⟩
    · rintro ⟨_, ⟨⟩, heach, hcode⟩
      exact ⟨heach, (exclusionIssues_eq_nil_iff heach).mpr hcode⟩
  | _ =>
    refine iff_of_false (List.cons_ne_nil _ _) ?_
    rintro ⟨marks, hmarks, -⟩
    contradiction

end Schema

end Adf
