/-!
# Blanks

The characters of the Unicode property White_Space, the words between them, and the lines of a text.
-/

namespace Adf.Text

/-- The Unicode property White_Space. -/
def isBlank (c : Char) : Bool :=
  let n := c.toNat
  (0x09 ≤ n && n ≤ 0x0d) || n = 0x20 || n = 0x85 || n = 0xa0 || n = 0x1680 ||
    (0x2000 ≤ n && n ≤ 0x200a) || n = 0x2028 || n = 0x2029 || n = 0x202f || n = 0x205f || n = 0x3000

theorem isBlank_of_isWhitespace {c : Char} (h : c.isWhitespace = true) : isBlank c = true := by
  simp only [Char.isWhitespace, Bool.or_eq_true, decide_eq_true_eq] at h
  rcases h with ((rfl | rfl) | rfl) | rfl <;> rfl

/-- The first word of a text; none if it is blank. -/
def firstWord? (s : String) : Option String :=
  match (s.toList.dropWhile isBlank).takeWhile (¬isBlank ·) with
  | [] => none
  | word => some (String.ofList word)

/-- The lines of a text, each with the line feed that ends it. -/
def linesOf (current : List Char) : List Char → List String
  | [] => if current.isEmpty then [] else [String.ofList current.reverse]
  | '\n' :: rest => String.ofList ('\n' :: current).reverse :: linesOf [] rest
  | c :: rest => linesOf (c :: current) rest

def lines (s : String) : List String := linesOf [] s.toList

end Adf.Text
