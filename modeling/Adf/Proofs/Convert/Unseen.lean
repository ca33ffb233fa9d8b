import Adf.Proofs.Convert.Translation
import Adf.Proofs.Markdown.Unseen
import Mathlib.Logic.Relation

/-!
# Rendering what leaves no trace

An assembly takes no notice of raw markup: texts on both sides of it still become one, and scopes, marks and
check boxes stay as they are. So nodes without a counterpart can be put into a tree, one after the other, and
it is rendered as before (`render_of_unseen`).
-/

namespace Adf.Convert

open Markdown (Event Tree shown)

namespace Assembly

theorem feed_of_isMarkup (config : Config) (a : Assembly) {event : Event} (h : event.isMarkup) :
    feed config a event = a := by
  unfold Event.isMarkup at h
  split at h
  · rfl
  · rfl
  · rfl
  · rfl
  · contradiction

theorem feedAll_shown (config : Config) (events : List Event) (a : Assembly) :
    feedAll config (shown events) a = feedAll config events a := by
  induction events generalizing a with
  | nil => rfl
  | cons event events ih =>
    cases h : event.isMarkup with
    | true =>
      have hshown : shown (event :: events) = shown events := List.filter_cons_of_neg (by simp [h])
      have hfeed : feedAll config (event :: events) a = feedAll config events (feed config a event) := rfl
      rw [hshown, hfeed, feed_of_isMarkup config a h, ih]
    | false =>
      have hshown : shown (event :: events) = event :: shown events := List.filter_cons_of_pos (by simp [h])
      rw [hshown]
      exact ih (feed config a event)

theorem assemble_of_unseen (config : Config) {tree tree' : Tree} (h : tree.Unseen tree') :
    assemble config tree' = assemble config tree := by
  calc assemble config tree'
      = feedAll config (shown (tree'.events status)) start := by
        rw [assemble_eq_feedAll, feedAll_shown]
    _ = feedAll config (shown (tree.events status)) start := by rw [h.shown_events]
    _ = assemble config tree := by rw [feedAll_shown, assemble_eq_feedAll]

end Assembly

theorem exists_render (config : Config) {tree : Tree} (hroot : tree.kind = .document) :
    ∃ d, render config tree = .ok d := by
  obtain ⟨kind, span, children⟩ := tree
  obtain rfl : kind = .document := hroot
  have hevents : Tree.events Assembly.status (.node .document span children) =
      .enter .document :: Tree.childrenEvents Assembly.status false children ++ [.exit .document] := rfl
  rw [render, Assembly.assemble_eq_feedAll, hevents, Assembly.result_feedAll_document]
  exact ⟨_, rfl⟩

/-- **Raw markup and constructs without a counterpart leave no trace.** A document is rendered, and with any
number of such nodes in it, put in one after the other, it is rendered to the same. -/
theorem render_of_unseen (config : Config) {tree tree' : Tree} (hroot : tree.kind = .document)
    (h : Relation.ReflTransGen Tree.Unseen tree tree') :
    ∃ d, render config tree = .ok d ∧ render config tree' = .ok d := by
  obtain ⟨d, hd⟩ := exists_render config hroot
  refine ⟨d, hd, ?_⟩
  induction h with
  | refl => exact hd
  | tail _ hlast ih => rw [render, Assembly.assemble_of_unseen config hlast, ← render, ih]

/-- An image between the texts of a task. -/
def illustratedTask : Tree :=
  .of .document [.of (.list false 1) [.of (.taskItem true)
    [.of .paragraph
      [.of (.text "a") [], .of (.text "b") [], .of (.image "u" "") [.of (.text "c") []], .of (.text "d") []]]]]

/-- The same with raw markup before the check box and in the description of the image. The image and the text
before it are underlined. -/
def underlinedTask : Tree :=
  .of .document [.of (.list false 1) [.of (.taskItem true)
    [.of (.htmlBlock "<p>") [],
      .of .paragraph
        [.of (.text "a") [],
          .of (.extension .underline)
            [.of (.text "b") [], .of (.image "u" "") [.of (.text "c") [], .of (.htmlInline "<i>") []]],
          .of (.text "d") []]]]]

theorem render_of_underlinedTask :
    illustratedTask.kind = .document ∧ Relation.ReflTransGen Tree.Unseen illustratedTask underlinedTask ∧
      ∃ d, render { externalMedia := true } illustratedTask = .ok d ∧
        render { externalMedia := true } underlinedTask = .ok d ∧
        d = ⟨[.container .bulletList [.container .listItem
          [.container .paragraph [.text "[x] " [], .text "ab" []],
            .container (.mediaSingle .center) [.externalMedia "u" "c"],
            .container .paragraph [.text "d" []]]]]⟩ := by
  have hchain : Relation.ReflTransGen Tree.Unseen illustratedTask underlinedTask := by
    -- into the description, then around text and image, then before the paragraph
    refine .head (.inside [] [] (.inside [] [] (.inside [] [] (.inside [.of (.text "a") [], .of (.text "b") []]
      [.of (.text "d") []] (.markup [.of (.text "c") []] [] (.htmlInline "<i>") .none (by decide) rfl))))) ?_
    refine .head (.inside [] [] (.inside [] [] (.inside [] [] (.wrapper [.of (.text "a") []]
      [.of (.text "b") [], .of (.image "u" "") [.of (.text "c") [], .of (.htmlInline "<i>") []]]
      [.of (.text "d") []] .underline .none (by decide) (by decide) (by decide))))) ?_
    exact .single (.inside [] [] (.inside [] [] (.markup [] _ (.htmlBlock "<p>") .none (by decide) rfl)))
  obtain ⟨d, hd, hd'⟩ := render_of_unseen { externalMedia := true } rfl hchain
  refine ⟨rfl, hchain, d, hd, hd', ?_⟩
  exact Except.ok.inj (hd.symm.trans rfl)

end Adf.Convert
