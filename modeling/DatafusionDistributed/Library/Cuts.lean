import Mathlib.Order.Monotone.Basic
import Mathlib.Tactic.Common

/-!
# Contiguous groups

A monotone sequence of cut points divides the natural numbers into contiguous groups, the
`j`-th from `cut j` up to `cut (j + 1)`. Every number between the first and the last cut lies in
exactly one group. The balanced grouping of `n` items into `k` groups is the case where the
first `n % k` groups hold one item more than the others.
-/

namespace DatafusionDistributed.Library

/-- A number between the first and the last cut lies in some group. -/
theorem exists_group (cut : ℕ → ℕ) {k i : ℕ} (hstart : cut 0 ≤ i) (hstop : i < cut k) :
    ∃ j < k, cut j ≤ i ∧ i < cut (j + 1) := by
  induction k with
  | zero => omega
  | succ k ih =>
    by_cases h : i < cut k
    · obtain ⟨j, hj, hin⟩ := ih h
      exact ⟨j, by omega, hin⟩
    · exact ⟨k, by omega, by omega, hstop⟩

theorem group_unique {cut : ℕ → ℕ} (hmono : Monotone cut) {i j j' : ℕ}
    (hj : cut j ≤ i ∧ i < cut (j + 1)) (hj' : cut j' ≤ i ∧ i < cut (j' + 1)) : j = j' := by
  rcases Nat.lt_trichotomy j j' with hlt | heq | hgt
  · have hcut : cut (j + 1) ≤ cut j' := hmono hlt
    omega
  · exact heq
  · have hcut : cut (j' + 1) ≤ cut j := hmono hgt
    omega

/-- Where the `j`-th of `k` balanced groups of `n` items starts. -/
def balancedStart (n k j : ℕ) : ℕ :=
  j * (n / k) + min j (n % k)

/-- How many items it holds. -/
def balancedLen (n k j : ℕ) : ℕ :=
  n / k + if j < n % k then 1 else 0

theorem balancedStart_succ (n k j : ℕ) :
    balancedStart n k (j + 1) = balancedStart n k j + balancedLen n k j := by
  unfold balancedStart balancedLen
  rw [Nat.succ_mul]
  split <;> omega

theorem balancedStart_zero (n k : ℕ) : balancedStart n k 0 = 0 := by
  unfold balancedStart
  omega

theorem balancedStart_last {n k : ℕ} (hk : 0 < k) : balancedStart n k k = n := by
  have hlt := Nat.mod_lt n hk
  have hdiv := Nat.div_add_mod n k
  unfold balancedStart
  rw [Nat.min_eq_right (Nat.le_of_lt hlt), hdiv]

theorem monotone_balancedStart (n k : ℕ) : Monotone (balancedStart n k) :=
  monotone_nat_of_le_succ fun j => by
    rw [balancedStart_succ]
    exact Nat.le_add_right _ _

theorem balancedStart_add_len_le {n k j : ℕ} (h : j < k) :
    balancedStart n k j + balancedLen n k j ≤ n := by
  have hnext : balancedStart n k (j + 1) ≤ balancedStart n k k := monotone_balancedStart n k h
  rwa [balancedStart_last (Nat.zero_lt_of_lt h), balancedStart_succ] at hnext

/-! ## Counting the points passed -/

/-- Where passing a point means passing all points before it, the passed points are the first
ones, and their number says which. -/
theorem passes_getElem_iff {α : Type} {passes : α → Bool} {points : List α}
    (h : points.Pairwise fun a b => passes b = true → passes a = true) {i : ℕ}
    (hi : i < points.length) : passes points[i] = true ↔ i < points.countP passes := by
  induction points generalizing i with
  | nil => exact absurd hi (Nat.not_lt_zero i)
  | cons a points ih =>
    rw [List.pairwise_cons] at h
    by_cases ha : passes a = true
    · rw [List.countP_cons_of_pos ha]
      cases i with
      | zero => simpa using ha
      | succ i =>
        rw [List.getElem_cons_succ, ih h.2]
        omega
    · have hnone : ∀ b ∈ points, ¬passes b = true := fun b hb hpass => ha (h.1 b hb hpass)
      rw [List.countP_cons_of_neg ha, List.countP_eq_zero.mpr hnone]
      cases i with
      | zero => simpa using ha
      | succ i =>
        have hpass := hnone _ (List.getElem_mem (Nat.lt_of_succ_lt_succ hi))
        simpa using hpass

end DatafusionDistributed.Library
