import Adf.CommandLine.Run
import Adf.Proofs.Schema.Subjects
import Mathlib.Data.Set.Card

/-!
# Counting issues

Issues about different places, or of different kinds, are different ones. So a document has no issue twice
(`nodup_validate`), and where the number of issues is shown, it is the number of different ones.
-/

namespace Adf.Schema

/-! ## Different issues -/

/-- The issues differ in their places, in the kind of problem, or in what is missing. -/
def Distinct (a b : Issue) : Prop :=
  a.path ≠ b.path ∨ a.problem.code ≠ b.problem.code ∨
    ∃ name other, name ≠ other ∧ a.problem = .missingProperty name ∧ b.problem = .missingProperty other

theorem Distinct.ne {a b : Issue} (h : Distinct a b) : a ≠ b := by
  rintro rfl
  obtain h | h | ⟨name, other, hne, hname, hother⟩ := h
  · exact h rfl
  · exact h rfl
  · exact hne (Problem.missingProperty.inj (hname.symm.trans hother))

theorem code_eq_missing_iff {problem : Problem} :
    problem.code = (Problem.missingProperty "").code ↔ ∃ name, problem = .missingProperty name := by
  cases problem <;> simp [Problem.code]

/-- Only what is missing is about another place than the one where it was found. -/
theorem subject_eq_path {issue : Issue} (h : issue.problem.code ≠ (Problem.missingProperty "").code) :
    issue.subject = issue.path := by
  obtain ⟨problem, path⟩ := issue
  cases problem with
  | missingProperty name => exact absurd rfl h
  | _ => rfl

theorem Apart.distinct {a b : Issue} (h : Apart a b) : Distinct a b := by
  by_cases hpath : a.path = b.path
  · by_cases hcode : a.problem.code = b.problem.code
    · have hsubject : a.subject ≠ b.subject := h.resolve_right (not_not.mpr hcode)
      by_cases hmissing : a.problem.code = (Problem.missingProperty "").code
      · obtain ⟨name, hname⟩ := code_eq_missing_iff.mp hmissing
        obtain ⟨other, hother⟩ := code_eq_missing_iff.mp (hcode.symm.trans hmissing)
        refine Or.inr (Or.inr ⟨name, other, ?_, hname, hother⟩)
        rintro rfl
        exact hsubject (by rw [Issue.subject, Issue.subject, hname, hother, hpath])
      · rw [subject_eq_path hmissing, subject_eq_path (hcode ▸ hmissing)] at hsubject
        exact absurd hpath hsubject
    · exact Or.inr (Or.inl hcode)
  · exact Or.inl hpath

theorem pairwise_distinct_validate (v : Json) : (validate v).Pairwise Distinct :=
  (tidy_validate v).apart.imp Apart.distinct

theorem pairwise_distinct_validateText (text : String) : (validateText text).Pairwise Distinct := by
  unfold validateText validateBytes
  split
  · exact pairwise_distinct_validate _
  · exact List.pairwise_singleton _ _

theorem nodup_of_distinct {issues : List Issue} (h : issues.Pairwise Distinct) : issues.Nodup := h.imp Distinct.ne

/-! ## The numbers that are shown -/

/-- How many different issues there are in a list. -/
noncomputable def different (issues : List Issue) : Nat := {issue | issue ∈ issues}.ncard

theorem different_of_nodup {issues : List Issue} (h : issues.Nodup) : different issues = issues.length := by
  classical
  have hset : {issue | issue ∈ issues} = (issues.toFinset : Set Issue) := Set.ext fun issue => by simp
  rw [different, hset, Set.ncard_coe_finset, List.toFinset_card_of_nodup h]

/-- **Every problem is reported once.** No two issues of a document have the same problem and the same path; even
issues of one kind at one path are of two things that are missing there. So the summary of the issues says how
many different ones follow the first, and a run that validates what it has written says how many different ones
there are. -/
theorem nodup_validate :
    (∀ v : Json, (validate v).Nodup ∧ (validate v).Pairwise Distinct ∧
      ∀ first second rest, validate v = first :: second :: rest →
        Issue.summary (validate v) =
          first.text ++ " (and " ++ toString (different (second :: rest)) ++ " more)") ∧
      ∀ text : String,
        (CommandLine.Failure.invalidDocument (validateText text)).text =
          String.join ((validateText text).map fun issue => issue.text ++ "\n") ++
            CommandLine.report ("Generated document is not valid ADF (" ++
              toString (different (validateText text)) ++ " errors)") none := by
  refine ⟨fun v => ?_, fun text => ?_⟩
  · have hnodup : (validate v).Nodup := nodup_of_distinct (pairwise_distinct_validate v)
    refine ⟨hnodup, pairwise_distinct_validate v, fun first second rest h => ?_⟩
    rw [h] at hnodup ⊢
    rw [different_of_nodup (List.nodup_cons.mp hnodup).2]
    rfl
  · rw [different_of_nodup (nodup_of_distinct (pairwise_distinct_validateText text))]
    rfl

/-- A file without its keys, with a wrong text and with marks, and a text with attributes that are no object and
with marks that exclude each other, of which one is wrong and one is incomplete. -/
def faultyNodes : Json :=
  docOf
    [.obj [("type", .str "mediaSingle"), ("content", .arr
      [.obj [("type", .str "media"), ("attrs", .obj [("type", .str "file"), ("alt", .nat 1)]),
        ("marks", .arr [.obj [("type", .str "em")]])]])],
    .obj [("type", .str "paragraph"), ("content", .arr
      [.obj [("type", .str "text"), ("text", .str "a"), ("attrs", .null),
        ("marks", .arr [.obj [("type", .str "code")],
          .obj [("type", .str "subsup"), ("attrs", .obj [("type", .str "super")])],
          .obj [("type", .str "textColor")]])]])]]

/-- Two issues are of one kind and at one path, as two attributes are missing there, and one mark has two issues:
the first, and eight more. -/
theorem nodup_validate_of_faultyNodes :
    let media := (((Path.root.key "content").index 0).key "content").index 0
    let text := (((Path.root.key "content").index 1).key "content").index 0
    let first := missing (media.key "attrs") "id"
    let rest : List Issue :=
      [missing (media.key "attrs") "collection",
        ⟨.typeMismatch "string" "number", (media.key "attrs").key "alt"⟩,
        ⟨.marksNotAllowed "media", media.key "marks"⟩,
        ⟨.typeMismatch "object" "null", text.key "attrs"⟩,
        ⟨.notAllowedValue "super" scripts, (((text.key "marks").index 1).key "attrs").key "type"⟩,
        missing ((text.key "marks").index 2) "attrs",
        ⟨.incompatibleMarks "code" "subsup", (text.key "marks").index 1⟩,
        ⟨.incompatibleMarks "code" "textColor", (text.key "marks").index 2⟩]
    validate faultyNodes = first :: rest ∧ (validate faultyNodes).Nodup ∧
      Issue.summary (validate faultyNodes) = first.text ++ " (and " ++ toString (different rest) ++ " more)" := by
  intro media text first rest
  have hissues : validate faultyNodes = first :: rest := rfl
  obtain ⟨hnodup, -, hsummary⟩ := nodup_validate.1 faultyNodes
  exact ⟨hissues, hnodup, hsummary first _ _ hissues⟩

end Adf.Schema
