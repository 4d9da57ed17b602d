import Mathlib.Algebra.Order.BigOperators.Group.List
import Mathlib.Algebra.Order.Ring.Nat

/-!
# Lists in which one entry is replaced

What holds of all entries, how a sum over the entries changes, and what is left of a relation to
another list. The equations are stated without subtraction.
-/

namespace DatafusionDistributed.Library

universe u

variable {α : Type u} {f : α → ℕ} {xs : List α} {i : ℕ} {x y : α}

theorem forall_mem_set {p : α → Prop} (h : ∀ x ∈ xs, p x) (hy : p y) : ∀ x ∈ xs.set i y, p x := by
  intro x hx
  rcases List.mem_or_eq_of_mem_set hx with hold | rfl
  · exact h x hold
  · exact hy

theorem getElem?_set_cases {j : ℕ} {z : α} (hx : xs[i]? = some x) (h : (xs.set i y)[j]? = some z) :
    i = j ∧ y = z ∨ i ≠ j ∧ xs[j]? = some z := by
  by_cases hij : i = j
  · subst hij
    obtain ⟨hlt, -⟩ := List.getElem?_eq_some_iff.mp hx
    rw [List.getElem?_set_self hlt] at h
    exact .inl ⟨rfl, Option.some.inj h⟩
  · rw [List.getElem?_set_ne hij] at h
    exact .inr ⟨hij, h⟩

theorem sum_map_set (h : xs[i]? = some x) :
    ((xs.set i y).map f).sum + f x = (xs.map f).sum + f y := by
  induction xs generalizing i with
  | nil => simp at h
  | cons z xs ih =>
    cases i with
    | zero =>
      simp only [List.getElem?_cons_zero, Option.some.injEq] at h
      subst h
      simp only [List.set_cons_zero, List.map_cons, List.sum_cons]
      omega
    | succ i =>
      simp only [List.set_cons_succ, List.map_cons, List.sum_cons]
      have := ih h
      omega

theorem le_sum_map (h : xs[i]? = some x) : f x ≤ (xs.map f).sum :=
  List.single_le_sum (by simp) _ (List.mem_map_of_mem (List.mem_of_getElem? h))

theorem sum_map_eq_zero_iff : (xs.map f).sum = 0 ↔ ∀ x ∈ xs, f x = 0 := by
  rw [List.sum_eq_zero_iff_forall_eq_nat, List.forall_mem_map]

end DatafusionDistributed.Library
