/-!
# Paths into a JSON value

A path lists the names and indices that lead from the root to a value, outermost first. Its text joins them
with points; the root itself is written `(root)`.
-/

namespace Adf.Schema

inductive Segment where
  | key (name : String)
  | index (i : Nat)
deriving DecidableEq, Repr

def Segment.text : Segment → String
  | .key name => name
  | .index i => toString i

structure Path where
  segments : List Segment
deriving DecidableEq, Repr

namespace Path

def root : Path := ⟨[]⟩

def push (p : Path) (s : Segment) : Path := ⟨p.segments ++ [s]⟩

def key (p : Path) (name : String) : Path := p.push (.key name)

def index (p : Path) (i : Nat) : Path := p.push (.index i)

/-- The path without its last segment, and that segment. -/
def pop? (p : Path) : Option (Path × Segment) :=
  p.segments.getLast?.map fun s => (⟨p.segments.dropLast⟩, s)

/-- The path that leads along `p` and from there along `q`. -/
def append (p q : Path) : Path := ⟨p.segments ++ q.segments⟩

instance : Append Path := ⟨append⟩

def text (p : Path) : String :=
  match p.segments with
  | [] => "(root)"
  | segments => ".".intercalate (segments.map Segment.text)

/-! ## Paths under concatenation -/

theorem append_push (p q : Path) (s : Segment) : p ++ q.push s = (p ++ q).push s :=
  congrArg mk (List.append_assoc p.segments q.segments [s]).symm

@[simp] theorem root_append (p : Path) : root ++ p = p := rfl

@[simp] theorem append_root (p : Path) : p ++ root = p :=
  congrArg mk (List.append_nil p.segments)

theorem pop?_push (p : Path) (s : Segment) : (p.push s).pop? = some (p, s) := by
  simp [push, pop?]

end Path

end Adf.Schema
