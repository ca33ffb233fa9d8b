import Adf.Proofs.Schema.Reporting

/-!
# Programs for a context

Segments can be entered, problems reported and documents checked, in any order and to any depth. Whatever a
program does, it comes back to the path that it started at and keeps the issues that were there. It adds its
own, which are those that it finds at the root, below that path (`runAll_eq`).
-/

namespace Adf.Schema

/-- What can be done with a context. -/
inductive Step where
  /-- The steps of the body, one segment further in. -/
  | within (segment : Segment) (body : List Step)
  | report (problem : Problem)
  | check (document : Json)

namespace Step

mutual

def run : Step → Context → Context
  | within segment body, c => c.within segment (runAll body)
  | report problem, c => c.report problem
  | check document, c => c.checkDocument document

def runAll : List Step → Context → Context
  | [], c => c
  | step :: rest, c => runAll rest (step.run c)

end

theorem writes_checkDocument (document : Json) :
    Writes (modify (Context.checkDocument document)) () (documentIssues · document) where
  run _ := rfl
  relocates := (writes_document document).relocates

mutual

theorem exists_writes_run : ∀ step : Step, ∃ issues, Writes (modify step.run) () issues
  | within segment body => by
    obtain ⟨issues, hbody⟩ := exists_writes_runAll body
    exact ⟨_, hbody.within segment⟩
  | report problem => ⟨_, writes_report problem⟩
  | check document => ⟨_, writes_checkDocument document⟩

theorem exists_writes_runAll : ∀ program : List Step, ∃ issues, Writes (modify (runAll program)) () issues
  | [] => ⟨_, writes_pure ()⟩
  | step :: rest => by
    obtain ⟨issues, hstep⟩ := exists_writes_run step
    obtain ⟨issues', hrest⟩ := exists_writes_runAll rest
    -- the rest starts at the path where the first step started
    have hboth : Writes (do modify step.run; modify (runAll rest)) () _ := hstep.bind hrest
    exact ⟨_, hboth⟩

end

/-- **Contexts are compositional.** A program ends where it began, and has found what it finds at the root,
moved below its path. The same holds of the checks of a document, done step by step on the context. -/
theorem runAll_eq (program : List Step) (c : Context) :
    (runAll program c).path = c.path ∧
    (runAll program c).issues = c.issues ++ (runAll program .empty).issues.map (Issue.below c.path) ∧
    ∀ document, (Reporter.document document).run c = ((), c.checkDocument document) ∧
      (c.checkDocument document).issues = c.issues ++ (validate document).map (Issue.below c.path) := by
  obtain ⟨issues, h⟩ := exists_writes_runAll program
  have hrun (c : Context) : runAll program c = ⟨c.path, c.issues ++ issues c.path⟩ :=
    congrArg Prod.snd (h.run c)
  have hissues : issues c.path = (issues .root).map (Issue.below c.path) := by
    rw [← h.relocates, Path.append_root]
  refine ⟨?_, ?_, fun document => ⟨(writes_document document).run c, ?_⟩⟩
  · rw [hrun c]
  · rw [hrun c, hrun .empty, hissues]
    rfl
  · rw [validate, ← (writes_document document).relocates, Path.append_root]
    rfl

end Step

end Adf.Schema
