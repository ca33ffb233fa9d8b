import Adf.Markdown.Element

/-!
# Balanced steps

A list of steps is balanced if every step that begins something is followed, behind balanced steps, by the
one that ends it. Which step ends which is a parameter: for the steps of a walk see `Event.Ends`.
-/

namespace Adf.Markdown

section

variable {α : Type}

/-- Balanced steps, where `ends x y` says that `y` ends what `x` begins. -/
inductive Balanced (ends : α → α → Prop) : List α → Prop
  | nil : Balanced ends []
  | around {x y : α} {inside rest : List α} : ends x y → Balanced ends inside → Balanced ends rest →
      Balanced ends (x :: inside ++ y :: rest)

variable {ends : α → α → Prop}

theorem Balanced.append {xs ys : List α} (hx : Balanced ends xs) (hy : Balanced ends ys) :
    Balanced ends (xs ++ ys) := by
  induction hx with
  | nil => exact hy
  | @around x y inside rest h hinside _ _ ih =>
    rw [List.append_assoc]
    exact .around h hinside ih

/-- One pair around balanced steps. -/
theorem Balanced.pair {x y : α} {inside : List α} (hinside : Balanced ends inside) (h : ends x y) :
    Balanced ends (x :: inside ++ [y]) :=
  .around h hinside .nil

theorem Balanced.flatMap {β : Type} {f : β → List α} {xs : List β} (h : ∀ x ∈ xs, Balanced ends (f x)) :
    Balanced ends (xs.flatMap f) := by
  induction xs with
  | nil => exact .nil
  | cons x rest ih =>
    rw [List.flatMap_cons]
    exact (h x List.mem_cons_self).append (ih fun y hy => h y (List.mem_cons_of_mem x hy))

theorem Balanced.map {f : α → α} {xs : List α} (h : Balanced ends xs)
    (hends : ∀ {x y}, ends x y → ends (f x) (f y)) : Balanced ends (xs.map f) := by
  induction h with
  | nil => exact .nil
  | around hxy _ _ ihinside ihrest =>
    rw [List.map_append, List.map_cons, List.map_cons]
    exact .around (hends hxy) ihinside ihrest

end

/-- A step that enters an element is ended by the one that leaves the same element. -/
inductive Event.Ends : Event → Event → Prop
  | leave (e : Element) : Event.Ends (.enter e) (.exit e)

/-! ## Steps that are cut off -/

/-- The elements that are open after a step, the one entered last first. It is that one which a step leaves. -/
def openElements (opened : List Element) : Event → List Element
  | .enter e => e :: opened
  | .exit _ => opened.tail

/-- The elements that have been entered and not left yet, the one entered last first. -/
def unclosed (events : List Event) : List Element := events.foldl openElements []

theorem mem_foldl_openElements {e : Element} {events : List Event} {opened : List Element}
    (h : e ∈ events.foldl openElements opened) : e ∈ opened ∨ .enter e ∈ events := by
  induction events generalizing opened with
  | nil => exact .inl h
  | cons event events ih =>
    rcases ih h with hopen | hlater
    · cases event with
      | enter e' =>
        rcases List.mem_cons.mp hopen with rfl | hbefore
        · exact .inr List.mem_cons_self
        · exact .inl hbefore
      | exit e' => exact .inl (List.mem_of_mem_tail hopen)
    · exact .inr (List.mem_cons_of_mem _ hlater)

theorem enter_mem_of_mem_unclosed {e : Element} {events : List Event} (h : e ∈ unclosed events) :
    .enter e ∈ events :=
  (mem_foldl_openElements h).resolve_left List.not_mem_nil

theorem foldl_openElements_balanced {events : List Event} (h : Balanced Event.Ends events)
    (opened : List Element) : events.foldl openElements opened = opened := by
  induction h generalizing opened with
  | nil => rfl
  | @around x y inside rest hends _ _ ihInside ihRest =>
    obtain ⟨e⟩ := hends
    rw [List.cons_append, List.foldl_cons, List.foldl_append, ihInside, List.foldl_cons, ihRest]
    rfl

theorem prefix_append_cons_cases {α : Type} {p xs ys : List α} {y : α} (h : p <+: xs ++ y :: ys) :
    p <+: xs ∨ ∃ q, p = xs ++ y :: q ∧ q <+: ys := by
  rcases List.prefix_or_prefix_of_prefix h (List.prefix_append xs _) with hxs | ⟨r, rfl⟩
  · exact .inl hxs
  · rcases List.prefix_cons_iff.mp ((List.prefix_append_right_inj xs).mp h) with rfl | ⟨q, rfl, hq⟩
    · exact .inl (by simp)
    · exact .inr ⟨q, rfl, hq⟩

/-- Where balanced steps are cut off, the elements open there come on top of those from before, and leaving them
balances the steps. -/
theorem exists_missing {events : List Event} (h : Balanced Event.Ends events) {p : List Event}
    (hp : p <+: events) :
    ∃ missing : List Element, (∀ opened, p.foldl openElements opened = missing ++ opened) ∧
      Balanced Event.Ends (p ++ missing.map Event.exit) := by
  induction h generalizing p with
  | nil =>
    obtain rfl := List.prefix_nil.mp hp
    exact ⟨[], fun _ => rfl, .nil⟩
  | @around x y inside rest hends hinside _ ihInside ihRest =>
    obtain ⟨e⟩ := hends
    rcases List.prefix_cons_iff.mp hp with rfl | ⟨q, rfl, hq⟩
    · exact ⟨[], fun _ => rfl, .nil⟩
    · rcases prefix_append_cons_cases hq with hq | ⟨r, rfl, hr⟩
      · -- cut off inside of the element
        obtain ⟨missing, hopened, hbalanced⟩ := ihInside hq
        refine ⟨missing ++ [e], fun opened => ?_, ?_⟩
        · rw [List.foldl_cons, hopened, List.append_assoc]
          rfl
        · have hpair := hbalanced.pair (Event.Ends.leave e)
          simpa using hpair
      · obtain ⟨missing, hopened, hbalanced⟩ := ihRest hr
        refine ⟨missing, fun opened => ?_, ?_⟩
        · rw [List.foldl_cons, List.foldl_append, foldl_openElements_balanced hinside, List.foldl_cons]
          exact hopened opened
        · have haround := Balanced.around (Event.Ends.leave e) hinside hbalanced
          simpa using haround

theorem balanced_append_unclosed {events later : List Event} (h : Balanced Event.Ends (events ++ later)) :
    Balanced Event.Ends (events ++ (unclosed events).map Event.exit) := by
  obtain ⟨missing, hopened, hbalanced⟩ := exists_missing h (List.prefix_append events later)
  rwa [unclosed, hopened, List.append_nil]

end Adf.Markdown
