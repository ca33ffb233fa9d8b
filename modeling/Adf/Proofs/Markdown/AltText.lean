import Adf.Proofs.Markdown.Events
import Adf.Proofs.Markdown.Structure

/-!
# The description of an image

The description of an image is collected from its tree without any walk. It is the text that a walk reports
of what is in the image, if nothing of it is skipped (`alt_eq_said`): the segments and the literals in their
order, with a blank for each hard line break. A visitor that never skips anything is told the same steps as
any other such visitor, whatever it does with them (`walkChildren_of_neverSkips`).
-/

namespace Adf.Markdown

/-! ## What is said -/

/-- The text that an element reports; a hard line break counts as a blank. -/
def Element.said : Element → String
  | .text segment hard => segment ++ if hard then " " else ""
  | .literal value => value
  | _ => ""

/-- The text that is reported from step to step. -/
def said : List Event → String
  | [] => ""
  | .enter e :: rest => e.said ++ said rest
  | .exit _ :: rest => said rest

theorem said_append (xs ys : List Event) : said (xs ++ ys) = said xs ++ said ys := by
  induction xs with
  | nil => rw [List.nil_append, said, String.empty_append]
  | cons event xs ih =>
    cases event with
    | enter e => rw [List.cons_append, said, said, ih, String.append_assoc]
    | exit e => rw [List.cons_append, said, said, ih]

theorem said_around (e : Element) (inside : List Event) :
    said (.enter e :: inside ++ [.exit e]) = e.said ++ said inside := by
  rw [said_append, said, said, said, String.append_empty]

/-! ## Visitors that never skip -/

section

variable {σ : Type}

/-- What becomes of the state of a visitor by a step. -/
def Visitor.take (visitor : Visitor (StateM σ)) (s : σ) : Event → σ
  | .enter e => ((visitor.enter e).run s).run.2
  | .exit e => ((visitor.exit e).run s).run.2

/-- The visitor wants to be told what is inside of every element, in whatever state it is. -/
def Visitor.NeverSkips (visitor : Visitor (StateM σ)) : Prop :=
  ∀ e s, ((visitor.enter e).run s).run.1 = .descend

theorem Visitor.NeverSkips.eq_ofStep {visitor : Visitor (StateM σ)} (h : visitor.NeverSkips) :
    visitor = .ofStep (fun _ => .descend) visitor.take := by
  obtain ⟨enter, exit⟩ := visitor
  have henter : enter = (Visitor.ofStep (fun _ => .descend) (take ⟨enter, exit⟩)).enter := by
    funext e s
    exact Prod.ext (h e s) rfl
  exact congrArg (Visitor.mk · exit) henter

end

namespace Tree

/-- A visitor that never skips is told what the tree alone says, step by step. -/
theorem walkChildren_of_neverSkips {σ : Type} {visitor : Visitor (StateM σ)} (h : visitor.NeverSkips)
    (inHeader : Bool) (trees : List Tree) (s : σ) :
    (walkChildren visitor inHeader trees).run s =
      pure ((), (childrenEvents (fun _ => .descend) inHeader trees).foldl visitor.take s) := by
  have hwalk := walkChildren_ofStep (fun _ => .descend) visitor.take inHeader trees s
  rwa [← h.eq_ofStep] at hwalk

end Tree

/-! ## Inlines -/

/-- An inline; there is nothing in a code span but its literal. -/
def Kind.isInlineNode (kind : Kind) (children : List Tree) : Bool :=
  match kind with
  | .code _ => children.isEmpty
  | kind => kind.isInline

namespace Tree

/-- The steps of a walk that skips nothing. -/
abbrev allEvents (trees : List Tree) : List Event := childrenEvents (fun _ => .descend) false trees

mutual

theorem said_eventsFrom : ∀ tree : Tree, tree.all Kind.isInlineNode →
    said (eventsFrom (fun _ => .descend) false none tree) = plainText tree
  | .node kind span children, h => by
    obtain ⟨hkind, hall⟩ := all_node.mp h
    have hinside (e : Element) :
        said (.enter e :: allEvents children ++ [.exit e]) = e.said ++ plainTexts children := by
      rw [said_around, said_childrenEvents children hall]
    cases kind with
    | text s => exact (hinside (.text s false)).trans (by simp [Element.said, plainText])
    | softBreak => exact (hinside (.text " " false)).trans (by simp [Element.said, plainText])
    | lineBreak => exact (hinside (.text "" true)).trans (by simp [Element.said, plainText])
    | code literal =>
      obtain rfl : children = [] := List.isEmpty_iff.mp hkind
      rfl
    | htmlInline | emph | strong | strikethrough | superscript | image =>
      exact (hinside _).trans (by simp [Element.said, plainText])
    | link url title =>
      unfold eventsFrom
      simp only [describe]
      cases autolink? url title span children with
      | some label => exact (hinside (.autoLink url label)).trans (by simp [Element.said, plainText])
      | none => exact (hinside (.link url title)).trans (by simp [Element.said, plainText])
    | extension e =>
      have he : e.isBlock = false := by simpa [Kind.isInlineNode, Kind.isInline] using hkind
      unfold eventsFrom
      simp only [describe, he]
      exact (said_childrenEvents children hall).trans (by simp [plainText])
    | _ => contradiction

theorem said_childrenEvents : ∀ trees : List Tree, allOf Kind.isInlineNode trees →
    said (allEvents trees) = plainTexts trees
  | [], _ => rfl
  | tree :: rest, h => by
    obtain ⟨htree, hrest⟩ := allOf_cons.mp h
    rw [allEvents, childrenEvents, said_append, said_eventsFrom tree htree, said_childrenEvents rest hrest,
      plainTexts]

end

/-! ## Images -/

/-- **The description of an image is the text in it.** Where all in an image is inline, its description is the
text that is reported to a visitor that never skips, from the children of the image. -/
theorem alt_eq_said (url title : String) (span : Span) (inHeader : Bool) {children : List Tree}
    (h : allOf Kind.isInlineNode children) :
    ∃ events : List Event,
      (∀ {σ : Type} (visitor : Visitor (StateM σ)), visitor.NeverSkips → ∀ s,
        (walkChildren visitor false children).run s = pure ((), events.foldl visitor.take s)) ∧
      describe inHeader span children (.image url title) = some (.image url title (said events)) := by
  refine ⟨allEvents children, fun visitor hvisitor s => ?_, ?_⟩
  · exact walkChildren_of_neverSkips hvisitor false children s
  · rw [said_childrenEvents children h]
    rfl

/-- A link in a link, an image, a code span, breaks, and a construct that has no counterpart. -/
def richDescription : List Tree :=
  [of .emph [of (.text "a") [], of .softBreak [], of (.link "u" "t") [of (.link "b" "") [of (.text "b") []]]],
    of .lineBreak [],
    of (.image "v" "") [of (.text "c") [], of (.htmlInline "<i>") []],
    of (.extension .underline) [of (.code "d") []]]

theorem alt_of_richDescription :
    allOf Kind.isInlineNode richDescription ∧
      ∃ events : List Event,
        (∀ (visitor : Visitor (StateM (List Element))), visitor.NeverSkips → ∀ s,
          (walkChildren visitor false richDescription).run s = pure ((), events.foldl visitor.take s)) ∧
        describe false .none richDescription (.image "w" "") = some (.image "w" "" (said events)) ∧
        said events = "a b cd" := by
  have hinline : allOf Kind.isInlineNode richDescription := by decide
  obtain ⟨events, hwalk, hdescribe⟩ := alt_eq_said "w" "" .none false hinline
  refine ⟨hinline, events, fun visitor hvisitor s => hwalk visitor hvisitor s, hdescribe, ?_⟩
  have halt : describe false .none richDescription (.image "w" "") = some (.image "w" "" "a b cd") := by decide
  rw [halt] at hdescribe
  exact (Element.image.inj (Option.some.inj hdescribe)).2.2.symm

end Tree

end Adf.Markdown
