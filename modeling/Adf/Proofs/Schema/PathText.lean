import Adf.Proofs.Schema.Subjects
import Mathlib

/-!
# The texts of paths

Two paths may have the same text, as a name may hold points and digits. The names of the members that the
checks look at are words, though, and indices are written with digits. So the text of a path to an issue tells
the path (`segments_eq_of_text_eq`).
-/

namespace Adf.Schema

/-! ## Steps -/

/-- The names are words. -/
theorem isAlpha_of_mem_checkedNames {name : String} (h : name ∈ checkedNames) :
    name ≠ "" ∧ ∀ c ∈ name.toList, c.isAlpha ∧ ¬c.isDigit := by
  have hall : checkedNames.all fun name => name != "" && name.toList.all fun c => c.isAlpha && !c.isDigit := by
    decide
  have hname := List.all_eq_true.mp hall name h
  simpa using hname

theorem isDigit_of_mem_toString {i : Nat} {c : Char} (h : c ∈ (toString i).toList) : c.isDigit := by
  rw [Nat.toString_eq_repr, Nat.toList_repr] at h
  exact Nat.isDigit_of_mem_toDigits (by decide) (by decide) h

namespace Segment

variable {s t : Segment}

/-- A step is written with letters or digits. -/
theorem isAlphanum_of_mem_text (hs : s.Checked) {c : Char} (h : c ∈ s.text.toList) : c.isAlphanum := by
  cases s with
  | key name => simp [Char.isAlphanum, (isAlpha_of_mem_checkedNames hs).2 c h]
  | index i => simp [Char.isAlphanum, isDigit_of_mem_toString h]

/-- No name is written like an index. -/
theorem text_key_ne_text_index {name : String} (h : name ∈ checkedNames) (i : Nat) :
    (key name).text ≠ (index i).text := by
  intro heq
  obtain ⟨hne, hword⟩ := isAlpha_of_mem_checkedNames h
  obtain ⟨c, hc⟩ := List.exists_mem_of_ne_nil name.toList fun hnil => hne (String.toList_eq_nil_iff.mp hnil)
  have hindex : c ∈ (toString i).toList := by
    have hname : name = toString i := heq
    rwa [← hname]
  exact (hword c hc).2 (isDigit_of_mem_toString hindex)

theorem text_inj (hs : s.Checked) (ht : t.Checked) (h : s.text = t.text) : s = t := by
  cases s with
  | key name =>
    cases t with
    | key other => exact congrArg key h
    | index j => exact absurd h (text_key_ne_text_index hs j)
  | index i =>
    cases t with
    | key other => exact absurd h.symm (text_key_ne_text_index ht i)
    | index j => exact congrArg index (Nat.repr_inj.mp h)

theorem map_text_inj {ss ts : List Segment} (hss : ∀ s ∈ ss, s.Checked) (hts : ∀ t ∈ ts, t.Checked)
    (h : ss.map text = ts.map text) : ss = ts := by
  induction ss generalizing ts with
  | nil => exact (List.map_eq_nil_iff.mp h.symm).symm
  | cons s ss ih =>
    cases ts with
    | nil => contradiction
    | cons t ts =>
      obtain ⟨hs, hss⟩ := List.forall_mem_cons.mp hss
      obtain ⟨ht, hts⟩ := List.forall_mem_cons.mp hts
      obtain ⟨hfirst, hrest⟩ := List.cons.inj h
      rw [text_inj hs ht hfirst, ih hss hts hrest]

end Segment

/-! ## Paths -/

namespace Path

/-- What stands between the points of the text. -/
def words (p : Path) : List String :=
  match p.segments with
  | [] => ["(root)"]
  | segments => segments.map Segment.text

theorem text_eq_intercalate (p : Path) : p.text = ".".intercalate p.words := by
  obtain ⟨segments⟩ := p
  cases segments with
  | nil => exact String.intercalate_singleton.symm
  | cons s segments => rfl

theorem words_ne_nil (p : Path) : p.words ≠ [] := by
  obtain ⟨segments⟩ := p
  cases segments <;> exact List.cons_ne_nil _ _

variable {p q : Path}

theorem Checked.not_mem_word (hp : p.Checked) : ∀ word ∈ p.words, '.' ∉ word.toList := by
  obtain ⟨segments⟩ := p
  cases segments with
  | nil => decide
  | cons s segments =>
    intro word hword hpoint
    obtain ⟨t, ht, rfl⟩ := List.mem_map.mp hword
    exact absurd (Segment.isAlphanum_of_mem_text (hp t ht) hpoint) (by decide)

/-- The words are read back from the text by cutting it at its points. -/
theorem Checked.splitOn_text (hp : p.Checked) : p.text.toList.splitOn '.' = p.words.map String.toList := by
  rw [text_eq_intercalate, String.toList_intercalate]
  refine List.splitOn_intercalate '.' (fun word hword => ?_) fun hnil => ?_
  · obtain ⟨word', hword', rfl⟩ := List.mem_map.mp hword
    exact hp.not_mem_word word' hword'
  · exact p.words_ne_nil (List.map_eq_nil_iff.mp hnil)

/-- The text of the root is the text of no step. -/
theorem text_ne_root {s : Segment} (hs : s.Checked) : s.text ≠ "(root)" := by
  intro h
  have hbracket : '(' ∈ s.text.toList := by
    rw [h]
    decide
  exact absurd (Segment.isAlphanum_of_mem_text hs hbracket) (by decide)

theorem Checked.words_inj (hp : p.Checked) (hq : q.Checked) (h : p.words = q.words) : p = q := by
  obtain ⟨ss⟩ := p
  obtain ⟨ts⟩ := q
  cases ss with
  | nil =>
    cases ts with
    | nil => rfl
    | cons t ts => exact absurd (List.cons.inj h).1.symm (text_ne_root (hq t List.mem_cons_self))
  | cons s ss =>
    cases ts with
    | nil => exact absurd (List.cons.inj h).1 (text_ne_root (hp s List.mem_cons_self))
    | cons t ts => exact congrArg mk (Segment.map_text_inj hp hq h)

/-- Where the checks look at all that is on the way, the text tells the path. -/
theorem Checked.text_inj (hp : p.Checked) (hq : q.Checked) (h : p.text = q.text) : p = q := by
  refine hp.words_inj hq ?_
  have hwords : p.words.map String.toList = q.words.map String.toList := by
    rw [← hp.splitOn_text, ← hq.splitOn_text, h]
  exact List.map_injective_iff.mpr (fun _ _ => String.toList_inj.mp) hwords

/-- The name of a member may look like a path. -/
theorem not_injective_text : ¬Function.Injective text := by
  intro h
  have heq : (⟨[.key "content.0"]⟩ : Path) = ⟨[.key "content", .index 0]⟩ := h (by decide)
  contradiction

end Path

/-! ## Issues -/

theorem Issue.checked_path {issue : Issue} (h : issue.subject.Checked) : issue.path.Checked := by
  obtain ⟨problem, path⟩ := issue
  cases problem with
  | missingProperty name => exact fun s hs => h s (List.mem_append_left _ hs)
  | _ => exact h

/-- Whatever names there are in a document, the checks report none but those of their rules. -/
theorem checked_of_mem_validate {v : Json} {issue : Issue} (h : issue ∈ validate v) : issue.path.Checked := by
  obtain ⟨q, hq, hsubject⟩ := (tidy_validate v).inside issue h
  refine Issue.checked_path ?_
  rwa [hsubject, Path.root_append]

/-- **The text of a path identifies the place.** If two issues, of one document or of two, are shown with the
same path, they have the same path, although the texts of paths are not different in general. -/
theorem segments_eq_of_text_eq :
    ¬Function.Injective Path.text ∧
      ∀ v w : Json, ∀ a ∈ validate v, ∀ b ∈ validate w, a.path.text = b.path.text →
        a.path.segments = b.path.segments := by
  refine ⟨Path.not_injective_text, fun v w a ha b hb h => ?_⟩
  exact congrArg Path.segments ((checked_of_mem_validate ha).text_inj (checked_of_mem_validate hb) h)

/-- A heading whose attributes have a name like the end of a path, in a document that has a member with a name
like a whole path. -/
def misleading : Json :=
  .obj [("content.0.attrs", .null), ("version", .nat 1), ("type", .str "doc"),
    ("content", .arr [.obj [("type", .str "heading"), ("attrs", .obj [("0.attrs", .null)])]])]

/-- The place of the attributes of a heading that is the first block. -/
def headingAttrs : Path := ((Path.root.key "content").index 0).key "attrs"

/-- The attributes lack a level in one document, and in the other they are no object. -/
theorem segments_eq_in_misleading :
    ∃ a ∈ validate misleading, ∃ b ∈ validate (docOf [.obj [("type", .str "heading"), ("attrs", .null)]]),
      a.path.text = "content.0.attrs" ∧ b.path.text = "content.0.attrs" ∧ a.path.segments = b.path.segments := by
  have ha : missing headingAttrs "level" ∈ validate misleading := List.mem_of_mem_head? rfl
  have hb : mismatch headingAttrs "object" .null ∈
      validate (docOf [.obj [("type", .str "heading"), ("attrs", .null)]]) := List.mem_of_mem_head? rfl
  refine ⟨_, ha, _, hb, by decide, by decide, ?_⟩
  exact segments_eq_of_text_eq.2 _ _ _ ha _ hb rfl

end Adf.Schema
