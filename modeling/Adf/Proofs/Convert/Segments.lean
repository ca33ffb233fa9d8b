import Adf.Proofs.Convert.Flow

/-!
# Texts in pieces

A text may be reported at once or in pieces, and nothing depends on where it is cut. Inside a scope, one piece
after the other leads to the assembly that the whole text leads to (`addText_addText`). `Pieces` are the steps
that report one text, and `Recut` relates steps that differ only in the pieces of their texts. Such steps lead
to the same assembly (`feedAll_recut`), provided that a scope is open whenever a text comes: outside of all
scopes texts do not grow.
-/

namespace Adf

/-! ## A text that grows -/

@[simp] theorem Node.marks_pushText (more : String) (node : Node) : (node.pushText more).marks = node.marks := by
  cases node with
  | leaf l => cases l <;> rfl
  | container c content => rfl

@[simp] theorem Node.isSome_text?_pushText (more : String) (node : Node) :
    (node.pushText more).text?.isSome = node.text?.isSome := by
  cases node with
  | leaf l => cases l <;> rfl
  | container c content => rfl

theorem Node.pushText_pushText (s t : String) (node : Node) :
    (node.pushText s).pushText t = node.pushText (s ++ t) := by
  cases node with
  | leaf l =>
    cases l with
    | text before marks => simp [pushText, String.append_assoc]
    | _ => rfl
  | container c content => rfl

namespace Convert

open Markdown (Element Event)

namespace Assembly

/-! ## One text after the other -/

/-- Content with a text put to its end. With `run` the last node grows, if it is a text with these marks. -/
def withText (s : String) (marks : List Mark) (run : Bool) (content : List Node) : List Node :=
  let behind := content ++ [.text s marks]
  if run then (extendLast? s marks content).getD behind else behind

theorem addText_pushScope {s : String} (hs : ¬s.isEmpty) (scope : Scope) (run : Bool) (a : Assembly) :
    (a.pushScope scope run).addText s =
      a.pushScope { scope with content := withText s a.marks run scope.content } true := by
  cases run with
  | false => simp [addText, hs, continueRun?, pushScope, add, withText]
  | true =>
    cases hlast : extendLast? s a.marks scope.content <;>
      simp [addText, hs, continueRun?, pushScope, add, withText, hlast]

theorem withText_concat (s : String) (marks : List Mark) (done : List Node) (last : Node) :
    withText s marks true (done ++ [last]) =
      if last.text?.isSome ∧ last.marks = marks then done ++ [last.pushText s]
      else done ++ [last] ++ [.text s marks] := by
  simp only [withText, extendLast?_concat, if_true]
  split <;> rfl

/-- A text that has been put to the end is the one that the next piece makes grow. -/
theorem withText_withText (s t : String) (marks : List Mark) (run : Bool) (content : List Node) :
    withText t marks true (withText s marks run content) = withText (s ++ t) marks run content := by
  have hnew (done : List Node) :
      withText t marks true (done ++ [.text s marks]) = done ++ [.text (s ++ t) marks] := by
    simp [withText, extendLast?_text]
  cases run with
  | false => exact hnew content
  | true =>
    rcases content.eq_nil_or_concat with rfl | ⟨done, last, hcontent⟩
    · exact hnew []
    · rw [List.concat_eq_append] at hcontent
      subst hcontent
      rw [withText_concat, withText_concat]
      split
      · rename_i hlast
        rw [withText_concat, Node.isSome_text?_pushText, Node.marks_pushText, if_pos hlast,
          Node.pushText_pushText]
      · exact hnew (done ++ [last])

theorem addText_of_isEmpty {s : String} (hs : s.isEmpty) (a : Assembly) : a.addText s = a := if_pos hs

theorem addText_addText {s t : String} {a : Assembly} (h : s ≠ "" → a.scopes ≠ []) :
    (a.addText s).addText t = a.addText (s ++ t) := by
  by_cases hs : s.isEmpty
  · rw [addText_of_isEmpty hs, String.isEmpty_iff.mp hs, String.empty_append]
  by_cases ht : t.isEmpty
  · rw [addText_of_isEmpty ht, String.isEmpty_iff.mp ht, String.append_empty]
  rcases a.eq_pushScope with hnil | ⟨b, scope, ha⟩
  · exact absurd hnil (h fun hempty => hs (String.isEmpty_iff.mpr hempty))
  · rw [ha, addText_pushScope hs, addText_pushScope ht, addText_pushScope (append_not_isEmpty hs),
      withText_withText]

theorem scopes_addText_ne_nil {s : String} {a : Assembly} (h : a.scopes ≠ []) : (a.addText s).scopes ≠ [] := by
  have hopen := openContainers_addText s a
  intro hnil
  rw [openContainers, hnil] at hopen
  exact h (List.map_eq_nil_iff.mp hopen.symm)

end Assembly

/-! ## Pieces -/

/-- The elements whose text goes on with the text before them. -/
def isText : Element → Bool
  | .text _ _ | .literal _ => true
  | _ => false

/-- Steps that report a text in pieces; `hard` says that a hard line break follows it. It makes no difference
when the pieces are left. -/
inductive Pieces : String → Bool → List Event → Prop
  | nothing : Pieces "" false []
  | text (s : String) {t : String} {hard : Bool} {rest : List Event} (h : Pieces t hard rest) :
      Pieces (s ++ t) hard (.enter (.text s false) :: rest)
  | literal (s : String) {t : String} {hard : Bool} {rest : List Event} (h : Pieces t hard rest) :
      Pieces (s ++ t) hard (.enter (.literal s) :: rest)
  | broken (s : String) {rest : List Event} (h : Pieces "" false rest) :
      Pieces s true (.enter (.text s true) :: rest)
  | left {e : Element} {s : String} {hard : Bool} {rest : List Event} (he : isText e) (h : Pieces s hard rest) :
      Pieces s hard (.exit e :: rest)

/-- Steps that differ only in the pieces of their texts. -/
inductive Recut : List Event → List Event → Prop
  | nil : Recut [] []
  | keep (event : Event) {xs ys : List Event} (h : Recut xs ys) : Recut (event :: xs) (event :: ys)
  | cut {s : String} {hard : Bool} {p q xs ys : List Event} (hp : Pieces s hard p) (hq : Pieces s hard q)
      (h : Recut xs ys) : Recut (p ++ xs) (q ++ ys)

namespace Assembly

/-- Whenever a text is entered, a scope is open. -/
def TextsInScopes (config : Config) : Assembly → List Event → Prop
  | _, [] => True
  | a, .enter e :: rest => (isText e → a.scopes ≠ []) ∧ TextsInScopes config (enter config a e) rest
  | a, .exit e :: rest => TextsInScopes config (a.exit e) rest

variable {config : Config}

theorem TextsInScopes.of_append {a : Assembly} {xs ys : List Event} (h : TextsInScopes config a (xs ++ ys)) :
    TextsInScopes config (feedAll config xs a) ys := by
  induction xs generalizing a with
  | nil => exact h
  | cons event xs ih =>
    cases event with
    | enter e => exact ih h.2
    | exit e => exact ih h

theorem exit_of_isText {e : Element} (he : isText e) (a : Assembly) : a.exit e = a := by
  cases e with
  | text | literal => rfl
  | _ => contradiction

/-- Where a text has something to say, a scope is open. -/
theorem scopes_ne_nil_of_pieces {s : String} {hard : Bool} {p rest : List Event} (hp : Pieces s hard p)
    {a : Assembly} (h : TextsInScopes config a (p ++ rest)) (hs : s ≠ "") : a.scopes ≠ [] := by
  induction hp with
  | nothing => exact absurd rfl hs
  | text | literal | broken => exact h.1 rfl
  | @left e s hard later he _ ih =>
    refine ih ?_ hs
    have hlater : TextsInScopes config (a.exit e) (later ++ rest) := h
    rwa [exit_of_isText he] at hlater

/-- The steps that report a text do what the text does at once. -/
theorem feedAll_pieces {s : String} {hard : Bool} {p : List Event} (hp : Pieces s hard p) {a : Assembly}
    (h : s ≠ "" → a.scopes ≠ []) : feedAll config p a = enter config a (.text s hard) := by
  induction hp generalizing a with
  | nothing => rfl
  | @text s t hard rest _ ih | @literal s t hard rest _ ih =>
    have hfirst : s ≠ "" → a.scopes ≠ [] := fun hs => h fun hst => hs (String.append_eq_empty_iff.mp hst).1
    have hrest : t ≠ "" → (a.addText s).scopes ≠ [] := fun ht =>
      scopes_addText_ne_nil (h fun hst => ht (String.append_eq_empty_iff.mp hst).2)
    show feedAll config rest (a.addText s) = _
    rw [ih hrest]
    simp only [enter, addText_addText hfirst]
  | @broken s rest _ ih =>
    show feedAll config rest (enter config a (.text s true)) = _
    exact ih fun hs => absurd rfl hs
  | @left e s hard rest he _ ih =>
    show feedAll config rest (a.exit e) = _
    rw [exit_of_isText he, ih h]

theorem feedAll_eq_of_recut {xs ys : List Event} (h : Recut xs ys) {a : Assembly}
    (htexts : TextsInScopes config a xs) : feedAll config ys a = feedAll config xs a := by
  induction h generalizing a with
  | nil => rfl
  | @keep event xs ys _ ih =>
    have hall : TextsInScopes config a ([event] ++ xs) := htexts
    exact ih hall.of_append
  | @cut s hard p q xs ys hp hq _ ih =>
    have hopen : s ≠ "" → a.scopes ≠ [] := scopes_ne_nil_of_pieces hp htexts
    have hcut : feedAll config q a = feedAll config p a :=
      (feedAll_pieces hq hopen).trans (feedAll_pieces hp hopen).symm
    rw [feedAll_append, feedAll_append, hcut]
    exact ih htexts.of_append

/-- **It makes no difference where a text is cut.** Inside a scope, a text or a literal and then a text do
what both do as one, with the hard line break that comes last. So steps that differ only in the pieces of
their texts lead to the same assembly, and to the same document. -/
theorem feedAll_recut (config : Config) :
    (∀ (a : Assembly), a.scopes ≠ [] → ∀ s t hard,
      feedAll config [.enter (.text s false), .enter (.text t hard)] a =
          feed config a (.enter (.text (s ++ t) hard)) ∧
        feedAll config [.enter (.literal s), .enter (.text t hard)] a =
          feed config a (.enter (.text (s ++ t) hard))) ∧
    ∀ (a : Assembly) (xs ys : List Event), Recut xs ys → TextsInScopes config a xs →
      feedAll config ys a = feedAll config xs a := by
  refine ⟨fun a ha s t hard => ?_, fun a xs ys h htexts => feedAll_eq_of_recut h htexts⟩
  have hpieces : Pieces t hard [.enter (.text t hard)] := by
    cases hard with
    | true => exact .broken t .nothing
    | false => simpa using Pieces.text t .nothing
  exact ⟨feedAll_pieces (hpieces.text s) fun _ => ha, feedAll_pieces (hpieces.literal s) fun _ => ha⟩

/-- The texts go on with one that is there, and the pieces of the first one are left at different times. -/
theorem feedAll_recut_of_grown_text :
    let a := ((start.openScope .blockquote).openScope .paragraph).addText "x"
    let xs : List Event := [.enter (.text "ab" true), .enter .codeSpan, .enter (.literal "cd")]
    let ys : List Event :=
      [.enter (.literal "a"), .exit (.literal "a"), .enter (.text "b" true), .exit (.text "b" true),
        .enter .codeSpan, .enter (.text "c" false), .enter (.text "" false), .enter (.text "d" false)]
    a.scopes ≠ [] ∧
      feedAll {} [.enter (.text "y" false), .enter (.text "z" true)] a = feed {} a (.enter (.text "yz" true)) ∧
      Recut xs ys ∧ TextsInScopes {} a xs ∧ feedAll {} ys a = feedAll {} xs a := by
  intro a xs ys
  have hopen : a.scopes ≠ [] := by decide
  have hbroken : Pieces "ab" true
      [.enter (.literal "a"), .exit (.literal "a"), .enter (.text "b" true), .exit (.text "b" true)] :=
    .literal "a" (.left rfl (.broken "b" (.left rfl .nothing)))
  have hwhole : Pieces "cd" false [.enter (.literal "cd")] := .literal "cd" .nothing
  have hpieces : Pieces "cd" false
      [.enter (.text "c" false), .enter (.text "" false), .enter (.text "d" false)] :=
    .text "c" (.text "" (.text "d" .nothing))
  have hrecut : Recut xs ys :=
    .cut (.broken "ab" .nothing) hbroken (.keep (.enter .codeSpan) (.cut hwhole hpieces .nil))
  have htexts : TextsInScopes {} a xs := ⟨fun _ => hopen, nofun, fun _ => by decide, trivial⟩
  exact ⟨hopen, ((feedAll_recut {}).1 a hopen "y" "z" true).1, hrecut, htexts,
    (feedAll_recut {}).2 a xs ys hrecut htexts⟩

/-- Outside of all scopes the pieces stay apart. -/
example : (feedAll {} [.enter (.text "a" false), .enter (.text "b" false)] start).document =
    ⟨[.text "a" [], .text "b" []]⟩ := by decide

end Assembly

end Convert

end Adf
