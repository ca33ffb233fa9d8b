/-!
# Dialects of Markdown

Which constructs a text may use beyond those that every dialect knows.
-/

namespace Adf.Markdown

structure Dialect where
  table : Bool
  strikethrough : Bool
  /-- Whether a bare URL, host name or address is a link. -/
  autolink : Bool
  taskList : Bool
  superscript : Bool
deriving DecidableEq, Repr

def Dialect.commonMark : Dialect := ⟨false, false, false, false, false⟩

/-- The extensions of GitHub, and superscripts. -/
def Dialect.gfm : Dialect := ⟨true, true, true, true, true⟩

end Adf.Markdown
