import Adf.Proofs.Convert.Emission

/-!
# One document after the other

An assembly can take in any number of documents. `visible` is what the next steps can see of it: the document
that was finished last is out of sight, and whether a text may grow counts only inside a scope. What a step
makes visible depends on nothing else (`oblivious_feed`), and behind a document that was entered or left the
assembly looks as it did at the start. So a result comes from the steps of one document alone
(`result_feedAll_eq_last_body`).
-/

namespace Adf.Convert

open Markdown (Element Event)

namespace Assembly

/-! ## What the next steps can see -/

/-- An assembly without what no step looks at: the finished document, and outside of every scope whether the
last thing was a text. -/
def visible (a : Assembly) : Assembly :=
  { a with textRun := !a.scopes.isEmpty && a.textRun, finished := none }

/-- What `f` makes visible depends only on what was visible before. -/
def Oblivious (f : Assembly → Assembly) : Prop :=
  ∀ {a b : Assembly}, a.visible = b.visible → (f a).visible = (f b).visible

theorem oblivious_of_visible {f : Assembly → Assembly} (h : ∀ a, (f a.visible).visible = (f a).visible) :
    Oblivious f := by
  intro a b hab
  rw [← h a, hab, h b]

theorem Oblivious.comp {f g : Assembly → Assembly} (hf : Oblivious f) (hg : Oblivious g) :
    Oblivious fun a => f (g a) :=
  fun hab => hf (hg hab)

theorem document_eq_of_visible {a b : Assembly} (h : a.visible = b.visible) : a.document = b.document := by
  have h' := congrArg Assembly.document h
  exact h'

theorem scopes_eq_of_visible {a b : Assembly} (h : a.visible = b.visible) : a.scopes = b.scopes := by
  have h' := congrArg Assembly.scopes h
  exact h'

theorem marks_eq_of_visible {a b : Assembly} (h : a.visible = b.visible) : a.marks = b.marks := by
  have h' := congrArg Assembly.marks h
  exact h'

/-! ## Steps that look at nothing else -/

theorem oblivious_add (node : Node) : Oblivious (add node) := by
  refine oblivious_of_visible fun a => ?_
  obtain ⟨document, scopes, marks, textRun, finished⟩ := a
  cases scopes <;> rfl

theorem oblivious_openScope (c : Container) : Oblivious (openScope c) :=
  oblivious_of_visible fun _ => rfl

theorem oblivious_withMarks (marks : List Mark) : Oblivious (withMarks marks) := by
  refine oblivious_of_visible fun a => ?_
  obtain ⟨document, scopes, marks', textRun, finished⟩ := a
  cases scopes <;> rfl

theorem oblivious_addText (s : String) : Oblivious (addText s) := by
  refine oblivious_of_visible fun a => ?_
  obtain ⟨document, scopes, marks, textRun, finished⟩ := a
  by_cases hs : s.isEmpty
  · cases scopes <;> simp [addText, hs, visible]
  · cases scopes with
    | nil => simp [addText, hs, visible, continueRun?, add]
    | cons scope rest =>
      cases textRun with
      | false => simp [addText, hs, visible, continueRun?, add]
      | true =>
        cases hlast : extendLast? s marks scope.content <;>
          simp [addText, hs, visible, continueRun?, add, hlast]

theorem oblivious_splice (block : Node) : Oblivious (splice block) := by
  refine oblivious_of_visible fun a => ?_
  obtain ⟨document, scopes, marks, textRun, finished⟩ := a
  cases scopes with
  | nil => rfl
  | cons s rest =>
    by_cases hs : s.container.holdsInlines
    · by_cases hempty : s.content.isEmpty <;> cases rest <;>
        simp [splice, visible, hs, hempty, add]
    · simp [splice, visible, hs, add]

theorem oblivious_closeScope : Oblivious closeScope := by
  refine oblivious_of_visible fun a => ?_
  obtain ⟨document, scopes, marks, textRun, finished⟩ := a
  cases scopes with
  | nil => rfl
  | cons s rest =>
    by_cases hs : s.continuation ∧ s.content.isEmpty
    · simp only [closeScope, visible, if_pos hs]
    · cases rest <;> simp only [closeScope, visible, if_neg hs, add]

theorem oblivious_emit (e : Emission) : Oblivious fun a => a.emit e := by
  intro a b h
  cases e with
  | run s marks =>
    have htext := (oblivious_addText s).comp (oblivious_withMarks marks) h
    simp only [emit, marks_eq_of_visible h]
    exact oblivious_withMarks b.marks htext
  | single node => exact oblivious_add node h
  | block node => exact oblivious_splice node h

theorem oblivious_emitAll (es : List Emission) : Oblivious (emitAll es) := by
  induction es with
  | nil => exact id
  | cons e es ih => exact ih.comp (oblivious_emit e)

theorem oblivious_openScopes (cs : List Container) :
    Oblivious fun a => cs.foldl (fun a c => a.openScope c) a := by
  induction cs with
  | nil => exact id
  | cons c cs ih => exact ih.comp (oblivious_openScope c)

theorem oblivious_closeScopes (n : Nat) : Oblivious (closeScopes n) := by
  induction n with
  | zero => exact id
  | succ n ih => exact ih.comp oblivious_closeScope

theorem oblivious_closeAll : Oblivious closeAll := by
  intro a b h
  rw [closeAll_eq, closeAll_eq, scopes_eq_of_visible h]
  exact oblivious_closeScopes _ h

/-- Nothing of a document that has been left can be seen. -/
theorem visible_finish (a : Assembly) : a.finish.visible = start.visible := by
  simp [finish, visible, scopes_closeAll, start]

theorem visible_feed_document (config : Config) (a : Assembly) {event : Event}
    (h : event.element = .document) : (feed config a event).visible = start.visible := by
  obtain rfl | rfl := Event.eq_enter_or_exit h
  · rfl
  · exact visible_finish a

/-- **A step** sees nothing but what is visible. -/
theorem oblivious_feed (config : Config) (event : Event) : Oblivious fun a => feed config a event := by
  intro a b h
  by_cases hdocument : event.element = .document
  · rw [visible_feed_document config a hdocument, visible_feed_document config b hdocument]
  · cases event with
    | enter e =>
      have he : e ≠ .document := hdocument
      simp only [feed, enter_eq config _ he, marks_eq_of_visible h]
      exact oblivious_openScopes _ (oblivious_withMarks _ (oblivious_emitAll _ h))
    | exit e =>
      have he : e ≠ .document := hdocument
      simp only [feed, exit_eq config _ he, marks_eq_of_visible h]
      exact oblivious_withMarks _ (oblivious_closeScopes _ h)

theorem oblivious_feedAll (config : Config) (events : List Event) : Oblivious (feedAll config events) := by
  induction events with
  | nil => exact id
  | cons event events ih => exact ih.comp (oblivious_feed config event)

/-! ## The finished document -/

@[simp] theorem finished_append (nodes : List Node) (a : Assembly) : (a.append nodes).finished = a.finished := by
  unfold append
  split <;> rfl

@[simp] theorem finished_pushScope (s : Scope) (run : Bool) (a : Assembly) :
    (a.pushScope s run).finished = a.finished := rfl

@[simp] theorem finished_withMarks (marks : List Mark) (a : Assembly) :
    (a.withMarks marks).finished = a.finished := rfl

theorem finished_emit (e : Emission) (a : Assembly) : (a.emit e).finished = a.finished := by
  cases e with
  | run s marks =>
    rw [emit, finished_withMarks, ← finished_withMarks marks a]
    obtain ⟨-, h⟩ | ⟨b, scope, content, hb, -, h⟩ | h := addText_cases s (a.withMarks marks)
    · rw [h]
    · rw [h, hb, finished_pushScope, finished_pushScope]
    · rw [h]
      exact finished_append _ _
  | single node => exact finished_append [node] a
  | block node =>
    obtain h | ⟨b, s, run, rfl, -, h⟩ := splice_cases node a <;> simp [emit, h]

theorem finished_emitAll (es : List Emission) (a : Assembly) : (a.emitAll es).finished = a.finished := by
  induction es generalizing a with
  | nil => rfl
  | cons e es ih => rw [emitAll_cons, ih, finished_emit]

theorem finished_openScopes (cs : List Container) (a : Assembly) :
    (cs.foldl (fun a c => a.openScope c) a).finished = a.finished := by
  induction cs generalizing a with
  | nil => rfl
  | cons c cs ih => exact ih (a.openScope c)

theorem finished_closeScopes (n : Nat) (a : Assembly) : (a.closeScopes n).finished = a.finished := by
  induction n generalizing a with
  | zero => rfl
  | succ n ih =>
    rw [closeScopes, ih]
    obtain ⟨-, h⟩ | ⟨b, s, run, rfl, h⟩ := closeScope_cases a <;> simp [h]

/-- A finished document is only touched by entering or leaving one. -/
theorem finished_feed (config : Config) (a : Assembly) {event : Event} (h : event.element ≠ .document) :
    (feed config a event).finished = a.finished := by
  cases event with
  | enter e =>
    have he : e ≠ .document := h
    rw [feed, enter_eq config a he, finished_openScopes, finished_withMarks, finished_emitAll]
  | exit e =>
    have he : e ≠ .document := h
    rw [feed, exit_eq config a he, finished_withMarks, finished_closeScopes]

theorem finished_feedAll (config : Config) {events : List Event} (a : Assembly)
    (h : ∀ event ∈ events, event.element ≠ .document) : (feedAll config events a).finished = a.finished := by
  induction events generalizing a with
  | nil => rfl
  | cons event events ih =>
    have hevent := h event List.mem_cons_self
    have hlater : ∀ event ∈ events, event.element ≠ .document :=
      fun e he => h e (List.mem_cons_of_mem _ he)
    exact (ih (feed config a event) hlater).trans (finished_feed config a hevent)

/-- Once there is a finished document, there is one until a document is entered. -/
theorem isSome_finished_feedAll (config : Config) {events : List Event} {a : Assembly}
    (ha : a.finished.isSome) (h : Event.enter .document ∉ events) :
    (feedAll config events a).finished.isSome := by
  induction events generalizing a with
  | nil => exact ha
  | cons event events ih =>
    obtain ⟨hevent, hlater⟩ := List.ne_and_not_mem_of_not_mem_cons h
    refine ih ?_ hlater
    by_cases hdocument : event.element = .document
    · obtain rfl | rfl := Event.eq_enter_or_exit hdocument
      · exact absurd rfl hevent
      · rfl
    · rw [finished_feed config a hdocument]
      exact ha

/-! ## Histories -/

/-- The last step that enters or leaves a document, if there is one. -/
theorem last_document (events : List Event) :
    (∀ event ∈ events, event.element ≠ .document) ∨
      ∃ before event after, events = before ++ event :: after ∧ event.element = .document ∧
        ∀ event ∈ after, event.element ≠ .document := by
  induction events with
  | nil => exact Or.inl nofun
  | cons event events ih =>
    rcases ih with hnone | ⟨before, last, after, rfl, hlast, hafter⟩
    · by_cases hevent : event.element = .document
      · exact Or.inr ⟨[], event, events, rfl, hevent, hnone⟩
      · exact Or.inl (List.forall_mem_cons.mpr ⟨hevent, hnone⟩)
    · exact Or.inr ⟨event :: before, last, after, rfl, hlast, hafter⟩

/-- `body` lies between the last step that leaves a document and the one before it that enters or leaves
one, or the beginning; and no document is entered later. -/
def LastBody (events body : List Event) : Prop :=
  ∃ before after, events = before ++ body ++ .exit .document :: after ∧
    (∀ event ∈ before.getLast?, event.element = .document) ∧
    (∀ event ∈ body, event.element ≠ .document) ∧ ∀ event ∈ after, event.element ≠ .document

variable (config : Config)

theorem visible_feedAll_of_getLast? {before : List Event}
    (h : ∀ event ∈ before.getLast?, event.element = .document) :
    (feedAll config before start).visible = start.visible := by
  rcases before.eq_nil_or_concat with rfl | ⟨earlier, event, hbefore⟩
  · rfl
  · rw [List.concat_eq_append] at hbefore
    subst hbefore
    have hevent : event.element = .document := h event (by simp)
    rw [feedAll_append]
    exact visible_feed_document config _ hevent

/-- The result is that of the last body alone. -/
theorem result_of_lastBody {events body : List Event} (h : LastBody events body) :
    ∃ d, (feedAll config events start).result = .ok d ∧
      (feedAll config (body ++ [.exit .document]) start).result = .ok d := by
  obtain ⟨before, after, rfl, hbefore, -, hafter⟩ := h
  have hvisible : (feedAll config (before ++ body) start).visible = (feedAll config body start).visible := by
    rw [feedAll_append]
    exact oblivious_feedAll config body (visible_feedAll_of_getLast? config hbefore)
  have hdocument : (feedAll config (before ++ body) start).closeAll.document =
      (feedAll config body start).closeAll.document :=
    document_eq_of_visible (oblivious_closeAll hvisible)
  have hfinished (events : List Event) :
      (feedAll config (events ++ [.exit .document]) start).finished =
        some (feedAll config events start).closeAll.document := by
    rw [feedAll_append]
    rfl
  have hlast : before ++ body ++ .exit .document :: after =
      (before ++ body ++ [.exit .document]) ++ after := by simp
  refine ⟨(feedAll config body start).closeAll.document, ?_, ?_⟩
  · rw [hlast, feedAll_append, result, finished_feedAll config _ hafter, hfinished, hdocument]
  · rw [result, hfinished]

theorem result_eq_unfinished_iff {a : Assembly} : a.result = .error .unfinished ↔ a.finished = none := by
  unfold result
  cases a.finished <;> simp

/-- The last step that leaves a document, with no document entered since, has a body before it. -/
theorem exists_lastBody {before after : List Event} (h : ∀ event ∈ after, event.element ≠ .document) :
    ∃ body, LastBody (before ++ .exit .document :: after) body := by
  rcases last_document before with hnone | ⟨earlier, event, body, rfl, hevent, hbody⟩
  · exact ⟨before, [], after, rfl, nofun, hnone, h⟩
  · refine ⟨body, earlier ++ [event], after, by simp, ?_, hbody, h⟩
    intro e he
    simp only [List.getLast?_concat, Option.mem_some_iff] at he
    subst he
    exact hevent

/-- No document is finished, or the steps have a last body. -/
theorem finished_eq_none_or_lastBody (events : List Event) :
    (feedAll config events start).finished = none ∨ ∃ body, LastBody events body := by
  rcases last_document events with hnone | ⟨before, event, after, rfl, hevent, hafter⟩
  · exact Or.inl (finished_feedAll config start hnone)
  · obtain rfl | rfl := Event.eq_enter_or_exit hevent
    · left
      rw [feedAll_append]
      exact finished_feedAll config start hafter
    · exact Or.inr (exists_lastBody hafter)

theorem finished_eq_none_iff (events : List Event) :
    (feedAll config events start).finished = none ↔
      ∀ before after, events = before ++ .exit .document :: after → .enter .document ∈ after := by
  constructor
  · rintro hnone before after rfl
    refine Decidable.byContradiction fun hentered => ?_
    have hleft : (feedAll config (before ++ .exit .document :: after) start).finished.isSome := by
      rw [feedAll_append]
      have hfinish : (feed config (feedAll config before start) (.exit .document)).finished.isSome := rfl
      have hlater := isSome_finished_feedAll config hfinish hentered
      exact hlater
    rw [hnone] at hleft
    contradiction
  · intro h
    rcases finished_eq_none_or_lastBody config events with hnone | ⟨body, before, after, heq, -, -, hafter⟩
    · exact hnone
    · exact absurd rfl (hafter (.enter .document) (h _ after heq))

/-- **Documents do not touch each other.** There is a result once a document has been left and none has been
entered since. It is what the steps of the last body give by themselves, whatever came before them and
whatever came later. -/
theorem result_feedAll_eq_last_body (events : List Event) :
    ((feedAll config events start).result = .error .unfinished ↔
      ∀ before after, events = before ++ .exit .document :: after → .enter .document ∈ after) ∧
    ((feedAll config events start).result = .error .unfinished ∨ ∃ body, LastBody events body) ∧
    ∀ body, LastBody events body → ∃ d, (feedAll config events start).result = .ok d ∧
      (feedAll config (body ++ [.exit .document]) start).result = .ok d := by
  simp only [result_eq_unfinished_iff]
  exact ⟨finished_eq_none_iff config events, finished_eq_none_or_lastBody config events,
    fun body hbody => result_of_lastBody config hbody⟩

/-- A text outside of any scope is the last thing before a document is left, and nothing of it is to be seen
in the next one. -/
theorem result_of_two_documents :
    (feedAll {}
        [.enter (.emphasis 1), .enter (.text "a" false), .exit .document, .enter .paragraph,
          .enter (.text "b" false), .exit .document, .enter (.text "c" false)] start).result =
      .ok ⟨[.container .paragraph [.text "b" []]]⟩ := by
  obtain ⟨d, hd, hbody⟩ := (result_feedAll_eq_last_body {}
    [.enter (.emphasis 1), .enter (.text "a" false), .exit .document, .enter .paragraph,
      .enter (.text "b" false), .exit .document, .enter (.text "c" false)]).2.2
    [.enter .paragraph, .enter (.text "b" false)]
    ⟨[.enter (.emphasis 1), .enter (.text "a" false), .exit .document], [.enter (.text "c" false)],
      rfl, by decide, by decide, by decide⟩
  exact hd.trans hbody.symm

end Assembly

end Adf.Convert
