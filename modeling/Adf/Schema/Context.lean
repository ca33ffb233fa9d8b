import Adf.Schema.Check

/-!
# Checking contexts

A context knows the current path and the issues found so far. Whatever is reported is placed at the current
path, so a check that runs inside a part of a larger value names its issues by their path in the whole.
-/

namespace Adf.Schema

structure Context where
  path : Path
  /-- The issues so far, the first one first. -/
  issues : List Issue

namespace Context

def empty : Context := ⟨.root, []⟩

def enter (s : Segment) (c : Context) : Context := { c with path := c.path.push s }

/-- Back to the path before the last `enter`. -/
def leave (c : Context) : Context :=
  match c.path.pop? with
  | some (path, _) => { c with path }
  | none => c

/-- Runs `body` one segment further in. -/
def within (s : Segment) (body : Context → Context) (c : Context) : Context :=
  (body (c.enter s)).leave

def report (p : Problem) (c : Context) : Context :=
  { c with issues := c.issues ++ [⟨p, c.path⟩] }

/-- Checks a document that lies at the current path. -/
def checkDocument (document : Json) (c : Context) : Context :=
  { c with issues := c.issues ++ documentIssues c.path document }

@[simp] theorem leave_enter (s : Segment) (c : Context) : (c.enter s).leave = c := by
  simp [leave, enter, Path.pop?_push]

end Context

end Adf.Schema
