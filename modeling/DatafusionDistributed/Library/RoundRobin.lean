import Mathlib.Data.List.Sublists
import DatafusionDistributed.Library.Dealing

/-!
# Dealing items out in turn

Item `i` goes to bucket `i % n`. Bucket `r` then holds the items whose position leaves the
remainder `r`, in order, and the buckets have the same size if and only if `n` divides the number
of items.
-/

namespace DatafusionDistributed.Library

variable {α β : Type}

/-- The items whose position leaves the remainder `r`. -/
def strided (items : List α) (n r : ℕ) : List α :=
  (items.zipIdx.filter fun item => item.2 % n = r).map Prod.fst

/-- Dealing in turn to `n` buckets. -/
def roundRobin (n : ℕ) (items : List α) : List (List α) :=
  (deal (· % n) (List.replicate n [], 0) items).1

theorem strided_nil (n r : ℕ) : strided ([] : List α) n r = [] := rfl

theorem strided_append_singleton (items : List α) (x : α) (n r : ℕ) :
    strided (items ++ [x]) n r =
      strided items n r ++ if items.length % n = r then [x] else [] := by
  unfold strided
  rw [List.zipIdx_append]
  by_cases h : items.length % n = r <;> simp [h]

variable {items : List α} {n r : ℕ} {x : α}

theorem mem_strided :
    x ∈ strided items n r ↔ ∃ i, items[i]? = some x ∧ i % n = r := by
  simp [strided, List.mem_zipIdx_iff_getElem?]

theorem strided_sublist (items : List α) (n r : ℕ) : (strided items n r).Sublist items := by
  have h : ((items.zipIdx.filter fun item => decide (item.2 % n = r)).map Prod.fst).Sublist
      (items.zipIdx.map Prod.fst) := List.filter_sublist.map _
  rwa [List.zipIdx_map_fst] at h

theorem strided_map (f : α → β) (items : List α) (n r : ℕ) :
    strided (items.map f) n r = (strided items n r).map f := by
  unfold strided
  rw [List.zipIdx_map, List.filter_map, List.map_map, List.map_map]
  rfl

theorem length_strided (items : List α) (hr : r < n) :
    (strided items n r).length = (items.length + (n - 1 - r)) / n := by
  induction items using List.reverseRecOn with
  | nil => simp [strided_nil, Nat.div_eq_of_lt (show n - 1 - r < n by omega)]
  | append_singleton items x ih =>
    have hdvd : n ∣ items.length + (n - 1 - r) + 1 ↔ items.length % n = r := by
      constructor
      · rintro ⟨k, hk⟩
        have hlength : items.length + n = n * k + r := by omega
        have hmod := congrArg (· % n) hlength
        simpa [Nat.mod_eq_of_lt hr] using hmod
      · intro hmod
        refine ⟨items.length / n + 1, ?_⟩
        have hsplit := Nat.div_add_mod items.length n
        rw [Nat.mul_add]
        omega
    rw [strided_append_singleton, List.length_append, ih, List.length_append, List.length_singleton,
      show items.length + 1 + (n - 1 - r) = items.length + (n - 1 - r) + 1 by omega, Nat.succ_div]
    simp only [hdvd]
    split <;> simp

theorem getElem?_strided (items : List α) (hr : r < n) (m : ℕ) :
    (strided items n r)[m]? = items[m * n + r]? := by
  have hn : 0 < n := by omega
  have hsucc : (m + 1) * n = m * n + n := Nat.succ_mul m n
  induction items using List.reverseRecOn with
  | nil => rfl
  | append_singleton items x ih =>
    have hlength := length_strided items hr
    have hnext := length_strided (items ++ [x]) hr
    rw [List.length_append, List.length_singleton] at hnext
    rcases Nat.lt_trichotomy (m * n + r) items.length with hlt | heq | hgt
    · have hm : m < (strided items n r).length := by
        rw [hlength]
        exact (Nat.le_div_iff_mul_le hn).mpr (show (m + 1) * n ≤ _ by omega)
      rw [strided_append_singleton, List.getElem?_append_left hm, ih,
        List.getElem?_append_left hlt]
    · have hm : (strided items n r).length = m := by
        rw [hlength]
        exact Nat.div_eq_of_lt_le (by omega) (by omega)
      have hturn : items.length % n = r := by
        rw [← heq, Nat.mul_add_mod_self_right, Nat.mod_eq_of_lt hr]
      rw [strided_append_singleton, if_pos hturn, heq, ← hm]
      simp
    · have hm : (strided (items ++ [x]) n r).length ≤ m := by
        rw [hnext]
        exact Nat.le_of_lt_succ ((Nat.div_lt_iff_lt_mul hn).mpr (show _ < (m + 1) * n by omega))
      rw [List.getElem?_eq_none hm, List.getElem?_eq_none (by simpa using Nat.succ_le_of_lt hgt)]

/-- The buckets have the same size if and only if the items divide evenly. -/
theorem length_strided_eq_iff (items : List α) (hn : 0 < n) :
    (∀ r < n, (strided items n r).length = (strided items n 0).length) ↔ n ∣ items.length := by
  constructor
  · intro h
    have hlast := h (n - 1) (by omega)
    rw [length_strided items hn, length_strided items (by omega)] at hlast
    have hfloor := Nat.div_add_mod items.length n
    have hceil := Nat.div_add_mod (items.length + (n - 1 - 0)) n
    have hbound := Nat.mod_lt (items.length + (n - 1 - 0)) hn
    have hsame : (items.length + (n - 1 - (n - 1))) / n = items.length / n := by
      rw [Nat.sub_self, Nat.add_zero]
    rw [hsame] at hlast
    rw [← hlast] at hceil
    exact Nat.dvd_of_mod_eq_zero (by omega)
  · rintro ⟨k, hk⟩ r hr
    have hdiv : ∀ s < n, (items.length + s) / n = k := by
      intro s hs
      rw [hk, Nat.mul_add_div hn, Nat.div_eq_of_lt hs, Nat.add_zero]
    rw [length_strided items hr, length_strided items hn, hdiv _ (by omega), hdiv _ (by omega)]

theorem length_strided_of_dvd (items : List α) (hr : r < n) (h : n ∣ items.length) :
    (strided items n r).length = items.length / n := by
  obtain ⟨k, hk⟩ := h
  rw [length_strided items hr, hk, Nat.mul_add_div (by omega),
    Nat.div_eq_of_lt (show n - 1 - r < n by omega), Nat.add_zero,
    Nat.mul_div_cancel_left k (by omega)]

/-- Dealing in turn, bucket by bucket. -/
theorem roundRobin_eq (n : ℕ) (items : List α) :
    roundRobin n items = (List.range n).map (strided items n) := by
  induction items using List.reverseRecOn with
  | nil =>
    apply List.ext_getElem?
    intro r
    by_cases hr : r < n
    · simp [roundRobin, deal, strided_nil, hr]
    · simp [roundRobin, hr]
  | append_singleton items x ih =>
    have hstep : roundRobin n (items ++ [x]) =
        pushAt (roundRobin n items) (items.length % n) x := by
      have hcount := deal_count (α := α) (· % n) (List.replicate n [], 0) items
      unfold roundRobin
      rw [deal, List.foldl_append]
      change pushAt (deal (· % n) (List.replicate n [], 0) items).1
        ((deal (· % n) (List.replicate n [], 0) items).2 % n) x = _
      rw [hcount, Nat.zero_add]
    rw [hstep, ih, pushAt]
    apply List.ext_getElem?
    intro r
    rw [List.getElem?_modify, List.getElem?_map, List.getElem?_map]
    by_cases hr : r < n
    · rw [List.getElem?_range hr]
      by_cases h : items.length % n = r <;> simp [strided_append_singleton, h]
    · rw [List.getElem?_eq_none (by simpa using Nat.le_of_not_lt hr)]
      rfl

/-- An item goes to the bucket of its turn. -/
theorem mem_roundRobin {i : ℕ} (hn : 0 < n) (h : items[i]? = some x) :
    ∃ bucket, (roundRobin n items)[i % n]? = some bucket ∧ x ∈ bucket := by
  refine ⟨strided items n (i % n), ?_, mem_strided.mpr ⟨i, h, rfl⟩⟩
  rw [roundRobin_eq, List.getElem?_map, List.getElem?_range (Nat.mod_lt i hn)]
  rfl

/-- Every `n`-th of `m * n` items. -/
theorem strided_map_range (f : ℕ → α) (m : ℕ) (hr : r < n) :
    strided ((List.range (m * n)).map f) n r = (List.range m).map fun k => f (k * n + r) := by
  apply List.ext_getElem?
  intro k
  rw [getElem?_strided _ hr, List.getElem?_map, List.getElem?_map]
  by_cases hk : k < m
  · have hin : k * n + r < m * n := by
      have hmul := Nat.mul_le_mul_right n (Nat.succ_le_of_lt hk)
      rw [Nat.succ_mul] at hmul
      omega
    rw [List.getElem?_range hin, List.getElem?_range hk]
    rfl
  · have hout : m * n ≤ k * n + r :=
      Nat.le_trans (Nat.mul_le_mul_right n (Nat.le_of_not_lt hk)) (Nat.le_add_right _ _)
    rw [List.getElem?_eq_none (by simpa using hout),
      List.getElem?_eq_none (by simpa using Nat.le_of_not_lt hk)]
    rfl

end DatafusionDistributed.Library
