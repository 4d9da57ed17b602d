import Mathlib.Algebra.BigOperators.Group.Finset.Piecewise

/-!
# Fibers of a multiset

A function into a finite set of cells divides a multiset into fibers, whose sum is the whole.
-/

namespace DatafusionDistributed.Library

variable {α β : Type}

theorem filter_list_sum (p : α → Prop) [DecidablePred p] (xs : List (Multiset α)) :
    xs.sum.filter p = (xs.map (Multiset.filter p)).sum := by
  induction xs with
  | nil => rfl
  | cons x xs ih => rw [List.sum_cons, Multiset.filter_add, ih, List.map_cons, List.sum_cons]

theorem mem_list_sum {a : α} {xs : List (Multiset α)} : a ∈ xs.sum ↔ ∃ x ∈ xs, a ∈ x := by
  induction xs with
  | nil => simp
  | cons x xs ih => simp [ih]

theorem sum_modify_add {xs : List (Multiset α)} {n : ℕ} {a : Multiset α} (h : n < xs.length) :
    (xs.modify n (· + a)).sum = xs.sum + a := by
  induction xs generalizing n with
  | nil => cases h
  | cons x xs ih =>
    cases n with
    | zero => rw [List.modify_zero_cons, List.sum_cons, List.sum_cons, add_right_comm]
    | succ n =>
      rw [List.modify_succ_cons, List.sum_cons, ih (Nat.lt_of_succ_lt_succ h), List.sum_cons,
        add_assoc]

/-- The fibers over a set of cells that holds all values sum to the whole. -/
theorem sum_fibers [DecidableEq β] (f : α → β) (cells : Finset β) (s : Multiset α)
    (h : ∀ a ∈ s, f a ∈ cells) : ∑ cell ∈ cells, s.filter (f · = cell) = s := by
  induction s using Multiset.induction_on with
  | empty => simp
  | cons a s ih =>
    have hrest : ∀ b ∈ s, f b ∈ cells := fun b hb => h b (Multiset.mem_cons_of_mem hb)
    have ha : f a ∈ cells := h a (Multiset.mem_cons_self a s)
    simp only [Multiset.filter_cons, Finset.sum_add_distrib, ih hrest, Finset.sum_ite_eq, ha]
    rfl

theorem sum_map_fibers [DecidableEq β] (f : α → β) {cells : List β} (hcells : cells.Nodup)
    (s : Multiset α) (h : ∀ a ∈ s, f a ∈ cells) :
    (cells.map fun cell => s.filter (f · = cell)).sum = s :=
  sum_fibers f ⟨cells, Multiset.coe_nodup.mpr hcells⟩ s h

theorem sum_map_range_fibers (f : α → ℕ) {bound : ℕ} (s : Multiset α) (h : ∀ a ∈ s, f a < bound) :
    ((List.range bound).map fun n => s.filter (f · = n)).sum = s :=
  sum_map_fibers f List.nodup_range s fun a ha => List.mem_range.mpr (h a ha)

end DatafusionDistributed.Library
