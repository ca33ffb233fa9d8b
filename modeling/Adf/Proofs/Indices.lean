import Mathlib.Data.List.Basic

/-!
# Items with their indices

The checks, the walks and their paths number the items of a list by `List.zipIdx`. What is said of all items
with their indices, and does not look at the indices, is said of all items.
-/

namespace Adf

variable {α β γ : Type}

theorem pairwise_zipIdx_lt (xs : List α) (n : Nat) : (xs.zipIdx n).Pairwise fun x y => x.2 < y.2 := by
  have h : ((xs.zipIdx n).map Prod.snd).Pairwise (· < ·) := by
    rw [List.zipIdx_map_snd]
    exact List.pairwise_lt_range' 1
  exact List.pairwise_map.mp h

theorem forall_zipIdx_iff {p : α → Prop} {xs : List α} {i : Nat} :
    (∀ x ∈ xs.zipIdx i, p x.1) ↔ ∀ x ∈ xs, p x := by
  induction xs generalizing i with
  | nil => simp
  | cons x rest ih => rw [List.zipIdx_cons, List.forall_mem_cons, List.forall_mem_cons, ih]

theorem flatMap_zipIdx_eq_nil_iff {xs : List α} {f : α × Nat → List γ} {p : α → Prop}
    (h : ∀ x i, f (x, i) = [] ↔ p x) : xs.zipIdx.flatMap f = [] ↔ ∀ x ∈ xs, p x := by
  calc xs.zipIdx.flatMap f = []
      ↔ ∀ x ∈ xs.zipIdx, f x = [] := List.flatMap_eq_nil_iff
    _ ↔ ∀ x ∈ xs.zipIdx, p x.1 := forall₂_congr fun (x : α × Nat) _ => h x.1 x.2
    _ ↔ ∀ x ∈ xs, p x := forall_zipIdx_iff

theorem flatMap_zipIdx_map_eq_nil_iff {xs : List α} {g : α → β} {f : β × Nat → List γ} {p : α → Prop}
    (h : ∀ x i, f (g x, i) = [] ↔ p x) : (xs.map g).zipIdx.flatMap f = [] ↔ ∀ x ∈ xs, p x := by
  rw [List.zipIdx_map, List.flatMap_map]
  exact flatMap_zipIdx_eq_nil_iff h

end Adf
