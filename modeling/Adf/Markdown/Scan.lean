import Adf.Markdown.Character

/-!
# Scanning

A scanner takes something from the beginning of a text and gives what is behind it, or `none` if the text
begins otherwise.
-/

namespace Adf.Markdown

/-- Takes exactly the given characters. -/
def after? : List Char → List Char → Option (List Char)
  | [], s => some s
  | _ :: _, [] => none
  | c :: start, d :: s => if c = d then after? start s else none

theorem after?_eq_some_iff {start s rest : List Char} : after? start s = some rest ↔ s = start ++ rest := by
  induction start generalizing s with
  | nil => rw [after?, Option.some_inj, List.nil_append]
  | cons c start ih =>
    cases s with
    | nil => exact ⟨nofun, nofun⟩
    | cons d s =>
      rw [after?, List.cons_append, List.cons.injEq]
      by_cases h : c = d
      · rw [if_pos h, ih]
        exact ⟨fun hs => ⟨h.symm, hs⟩, fun hs => hs.2⟩
      · rw [if_neg h]
        exact ⟨nofun, fun hs => absurd hs.1.symm h⟩

/-- The same, with small letters standing for capital ones too. -/
def afterLower? : List Char → List Char → Option (List Char)
  | [], s => some s
  | _ :: _, [] => none
  | c :: start, d :: s => if c = d.toLower then afterLower? start s else none

/-- Takes everything up to and including the first place where the given text stands. -/
def through? (mark : List Char) : List Char → Option (List Char)
  | [] => after? mark []
  | c :: rest => (after? mark (c :: rest)).orElse fun _ => through? mark rest

/-- Whether one of the given texts, in small letters, stands somewhere; its case does not matter. -/
def holdsLower (marks : List (List Char)) : List Char → Bool
  | [] => false
  | c :: rest => marks.any (fun mark => (afterLower? mark (c :: rest)).isSome) || holdsLower marks rest

/-- Runs a scanner as often as it takes something. -/
def many (scan : List Char → Option (List Char)) (s : List Char) : List Char :=
  match scan s with
  | none => s
  | some rest => if rest.length < s.length then many scan rest else s
termination_by s.length
decreasing_by assumption

/-- What a scanner has taken, given the text and what is behind. -/
def taken (s rest : List Char) : List Char := s.take (s.length - rest.length)

end Adf.Markdown
