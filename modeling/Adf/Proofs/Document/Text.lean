import Adf.Document
import Adf.Proofs.Json.Reading
import Adf.Proofs.Json.Sorted
import Adf.Schema.Check

/-!
# The text of a document and its value

A document reaches the checks as its text or as its value. The numbers in a written document are a level, the
number of a list or the version, so its text can be read back, and the two ways agree. A document that opens
more containers at once than the reader allows has a value that can be checked and a text that is refused.
-/

namespace Adf

/-! ## Numbers in a written document -/

namespace Json

theorem unsignedItems_iff (items : List Json) :
    unsignedItems items = true ↔ ∀ item ∈ items, item.unsigned = true := by
  induction items with
  | nil => simp [unsignedItems]
  | cons item rest ih => rw [unsignedItems, Bool.and_eq_true_iff, ih, List.forall_mem_cons]

theorem unsignedMembers_iff (members : List (String × Json)) :
    unsignedMembers members = true ↔ ∀ member ∈ members, member.2.unsigned = true := by
  induction members with
  | nil => simp [unsignedMembers]
  | cons member rest ih => rw [unsignedMembers, Bool.and_eq_true_iff, ih, List.forall_mem_cons]

theorem unsignedMembers_append {members rest : List (String × Json)}
    (hmembers : unsignedMembers members = true) (hrest : unsignedMembers rest = true) :
    unsignedMembers (members ++ rest) = true := by
  rw [unsignedMembers_iff] at hmembers hrest ⊢
  exact List.forall_mem_append.mpr ⟨hmembers, hrest⟩

theorem unsigned_nat {n : Nat} (hn : n < 0x10000000000000000) : (nat n).unsigned = true := by
  have hint : (Number.int n).toUInt64? = some (UInt64.ofNat n) := if_pos hn
  rw [nat, unsigned, hint]
  rfl

/-- A member that may be left out has the numbers of its value. -/
theorem unsigned_member (name : String) {value : Json} (hvalue : value.unsigned = true) :
    unsignedMembers (member name value) = true := by
  have hsame : ∀ v ∈ value.present?, v = value := by
    intro v hv
    unfold present? at hv
    split at hv
    · cases hv
    · cases hv
    · split at hv
      · cases hv
      · exact (Option.some_inj.mp hv).symm
    · exact (Option.some_inj.mp hv).symm
  rw [unsignedMembers_iff, member_eq]
  intro m hm
  obtain ⟨v, hv, rfl⟩ := List.mem_map.mp hm
  rw [hsame v (Option.mem_toList.mp hv)]
  exact hvalue

/-- Texts have no numbers. -/
theorem unsignedMembers_optional (name : String) (value : Option String) :
    unsignedMembers (value.map fun s => (name, Json.str s)).toList = true := by
  cases value <;> rfl

end Json

open Json

theorem Mark.unsigned_toJson (m : Mark) : m.toJson.unsigned = true := by
  have hattrs : unsignedMembers m.attrs = true := by
    cases m with
    | link href title => exact Bool.and_eq_true_iff.mpr ⟨rfl, unsignedMembers_optional "title" title⟩
    | _ => rfl
  have hmember : unsignedMembers (member "attrs" (.obj m.attrs)) = true := unsigned_member "attrs" hattrs
  exact Bool.and_eq_true_iff.mpr ⟨rfl, hmember⟩

theorem Leaf.unsigned_attrs (l : Leaf) : unsignedMembers l.attrs = true := by
  cases l with
  | media m =>
    have hoptional := unsignedMembers_optional
    have hrest := unsignedMembers_append (unsignedMembers_append (unsignedMembers_append
      (hoptional "id" m.id) (hoptional "collection" m.collection)) (hoptional "url" m.url))
      (hoptional "alt" m.alt)
    exact Bool.and_eq_true_iff.mpr ⟨rfl, hrest⟩
  | _ => rfl

theorem Container.unsigned_attrs (c : Container) : unsignedMembers c.attrs = true := by
  cases c with
  | heading level =>
    have hlevel : level.toNat < 0x10000000000000000 := Nat.lt_trans level.toNat_lt (by decide)
    exact Bool.and_eq_true_iff.mpr ⟨unsigned_nat hlevel, rfl⟩
  | codeBlock language => exact unsignedMembers_optional "language" language
  | orderedList order =>
    rw [attrs]
    split
    · rfl
    · exact Bool.and_eq_true_iff.mpr ⟨unsigned_nat order.toNat_lt, rfl⟩
  | _ => rfl

namespace Node

theorem unsigned_leafJson (l : Leaf) : (leafJson l).unsigned = true := by
  have hattrs : unsignedMembers (member "attrs" (.obj l.attrs)) = true :=
    unsigned_member "attrs" l.unsigned_attrs
  refine Bool.and_eq_true_iff.mpr ⟨rfl, unsignedMembers_append hattrs ?_⟩
  cases l with
  | text s marks =>
    have hmarks : unsignedItems (marks.map Mark.toJson) = true := by
      rw [unsignedItems_iff]
      intro item hitem
      obtain ⟨m, -, rfl⟩ := List.mem_map.mp hitem
      exact m.unsigned_toJson
    exact unsignedMembers_append (unsigned_member "marks" hmarks) (unsigned_member "text" rfl)
  | _ => rfl

mutual

theorem unsigned_toJson : ∀ node : Node, node.toJson.unsigned = true
  | .leaf l => unsigned_leafJson l
  | .container c content => by
    have hattrs : unsignedMembers (member "attrs" (.obj c.attrs)) = true :=
      unsigned_member "attrs" c.unsigned_attrs
    have hcontent : unsignedMembers (member "content" (.arr (listToJson content))) = true :=
      unsigned_member "content" (unsigned_listToJson content)
    exact Bool.and_eq_true_iff.mpr ⟨rfl, unsignedMembers_append hattrs hcontent⟩

theorem unsigned_listToJson : ∀ nodes : List Node, unsignedItems (listToJson nodes) = true
  | [] => rfl
  | node :: rest => Bool.and_eq_true_iff.mpr ⟨unsigned_toJson node, unsigned_listToJson rest⟩

end

end Node

namespace Document

theorem unsigned_toJson (d : Document) : d.toJson.unsigned = true := by
  have hcontent : unsignedMembers [("content", .arr (Node.listToJson d.content))] = true :=
    Bool.and_eq_true_iff.mpr ⟨Node.unsigned_listToJson d.content, rfl⟩
  have hheader : unsignedMembers [("version", .nat 1), ("type", .str "doc")] = true := rfl
  exact unsignedMembers_append hheader hcontent

/-! ## Reading and checking the text -/

theorem read_text {style : Style} (hstyle : style.Blank) (d : Document) :
    read depthLimit (d.text style).toByteArray.toList = within depthLimit d.toJson.depth (.ok d.toValue) :=
  Json.read_text hstyle depthLimit d.unsigned_toJson

open Schema

theorem validateText_of_read_ok {text : String} {value : Json}
    (h : read depthLimit text.toByteArray.toList = .ok value) : validateText text = validate value := by
  rw [validateText, validateBytes, h]

theorem messageIn_eq (e : ReadError) (limit : Nat) (bytes : List UInt8) :
    ∃ line column : Nat, e.messageIn limit bytes = e.message ++ s!" at line {line} column {column}" := by
  refine ⟨(lastPlace (readPart limit ReadState.start bytes)).1,
    (lastPlace (readPart limit ReadState.start bytes)).2, ?_⟩
  simp only [ReadError.messageIn, toString, String.append_assoc]

theorem validateText_of_read_error {text : String} {e : ReadError}
    (h : read depthLimit text.toByteArray.toList = .error e) :
    ∃ line column : Nat,
      validateText text = [⟨.invalidJson (e.message ++ s!" at line {line} column {column}"), .root⟩] := by
  obtain ⟨line, column, hmessage⟩ := messageIn_eq e depthLimit text.toByteArray.toList
  refine ⟨line, column, ?_⟩
  rw [validateText, validateBytes, h, ← hmessage]

/-- **Text and value agree.** Where at most 127 containers of a document are open at once, both of its texts
are read as its value, and so the checks of a text and of the value give the same issues. Where more are
open, each text has exactly one issue: it cannot be read. -/
theorem texts_agree_with_value (d : Document) :
    (d.toJson.depth ≤ 127 → ∀ text ∈ [d.compact, d.pretty],
      read depthLimit text.toByteArray.toList = .ok d.toValue ∧ validateText text = validate d.toValue) ∧
    (127 < d.toJson.depth → ∀ text ∈ [d.compact, d.pretty], ∃ line column : Nat, validateText text =
      [⟨.invalidJson ("recursion limit exceeded" ++ s!" at line {line} column {column}"), .root⟩]) := by
  have hread : ∀ text ∈ [d.compact, d.pretty],
      read depthLimit text.toByteArray.toList = within 127 d.toJson.depth (.ok d.toValue) := by
    refine List.forall_mem_cons.mpr ⟨read_text Style.blank_compact d, ?_⟩
    exact List.forall_mem_singleton.mpr (read_text Style.blank_pretty d)
  constructor
  · intro hdepth text htext
    have hok : read depthLimit text.toByteArray.toList = .ok d.toValue := by
      rw [hread text htext, within_of_le hdepth]
    exact ⟨hok, validateText_of_read_ok hok⟩
  · intro hdepth text htext
    have herror : read depthLimit text.toByteArray.toList = .error .tooDeep := by
      rw [hread text htext, within_of_lt hdepth]
    exact validateText_of_read_error herror

/-- Quotes within each other, `n` around the innermost, which is empty. -/
def nestedQuotes : Nat → Node
  | 0 => .container .blockquote []
  | n + 1 => .container .blockquote [nestedQuotes n]

theorem depth_nestedQuotes (n : Nat) : (nestedQuotes n).toJson.depth = 2 * n + 1 := by
  induction n with
  | zero => rfl
  | succ n ih =>
    have hdepth : (nestedQuotes (n + 1)).toJson.depth =
        max 0 (max (max (nestedQuotes n).toJson.depth 0 + 1) 0) + 1 := rfl
    rw [hdepth, ih]
    omega

theorem depth_of_nestedQuotes (n : Nat) : (⟨[nestedQuotes n]⟩ : Document).toJson.depth = 2 * n + 3 := by
  have hdepth : (⟨[nestedQuotes n]⟩ : Document).toJson.depth =
      max 0 (max 0 (max (max (nestedQuotes n).toJson.depth 0 + 1) 0)) + 1 := rfl
  rw [hdepth, depth_nestedQuotes]
  omega

/-- Sixty-three quotes within each other are just within the limit, and one more is beyond it. -/
theorem texts_of_nestedQuotes :
    (read depthLimit (⟨[nestedQuotes 62]⟩ : Document).compact.toByteArray.toList =
        .ok (⟨[nestedQuotes 62]⟩ : Document).toValue ∧
      validateText (⟨[nestedQuotes 62]⟩ : Document).compact =
        validate (⟨[nestedQuotes 62]⟩ : Document).toValue) ∧
    ∃ line column : Nat, validateText (⟨[nestedQuotes 63]⟩ : Document).pretty =
      [⟨.invalidJson ("recursion limit exceeded" ++ s!" at line {line} column {column}"), .root⟩] := by
  have hwithin : (⟨[nestedQuotes 62]⟩ : Document).toJson.depth ≤ 127 := by
    rw [depth_of_nestedQuotes]
  have hbeyond : 127 < (⟨[nestedQuotes 63]⟩ : Document).toJson.depth := by
    rw [depth_of_nestedQuotes]
    decide
  constructor
  · exact (texts_agree_with_value ⟨[nestedQuotes 62]⟩).1 hwithin _ List.mem_cons_self
  · exact (texts_agree_with_value ⟨[nestedQuotes 63]⟩).2 hbeyond _
      (List.mem_cons_of_mem _ List.mem_cons_self)

end Document

end Adf
