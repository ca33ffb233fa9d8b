import Adf.Convert.Assembly
import Adf.Markdown.Walk

/-!
# From trees to documents

A conversion takes no step that can fail, but it ends without a document if the tree has none in it.
-/

namespace Adf.Convert

inductive RenderError where
  /-- No document was left. -/
  | unfinished
  | unwritable (reason : String)
  | io (reason : String)
deriving DecidableEq, Repr

def RenderError.message : RenderError → String
  | unfinished => "Conversion ended before the document was finished"
  | unwritable reason => s!"Failed to serialize ADF document: {reason}"
  | io reason => s!"IO error: {reason}"

/-- The document that an assembly has finished. -/
def Assembly.result (a : Assembly) : Except RenderError Document :=
  match a.finished with
  | some document => .ok document
  | none => .error .unfinished

/-- The assembly after a walk over the whole tree. -/
def assemble (config : Config) (tree : Markdown.Tree) : Assembly :=
  (((tree.walk (Assembly.visitor config)).run Assembly.start).run).2

def render (config : Config) (tree : Markdown.Tree) : Except RenderError Document :=
  (assemble config tree).result

end Adf.Convert
