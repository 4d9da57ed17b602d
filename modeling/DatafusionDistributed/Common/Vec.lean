import Mathlib.Algebra.Order.Field.Rat
import Mathlib.Algebra.Order.BigOperators.Group.List
import Mathlib.Data.List.GetD
import Mathlib.Data.List.TakeWhile
import DatafusionDistributed.Common
import DatafusionDistributed.Library.Checked

/-!
# Averages of sampled vectors

`vec_avg_reduce` averages, position by position, the fractions that the partitions of a stage
report. A vector without entries comes from a partition without a sample. It is skipped, but the
sums are divided by the number of all vectors, so that an average is a mean only if no vector was
skipped or the entries add up to zero. The distinct-value and null fractions of
`gather_runtime_statistics` are such averages.

Floats are rationals here.
-/

namespace DatafusionDistributed

open Library

def elementWiseSum {α : Type} [Add α] (one other : List α) : Result (List α) :=
  if one.length ≠ other.length then
    .error (.internal "Cannot do an element wise sum of two vectors of different lengths")
  else .ok (one.zipWith (· + ·) other)

def vecDiv {α : Type} [Div α] (one : List α) (other : α) : List α :=
  one.map (· / other)

/-- One step of the second loop of `vec_avg_reduce`. -/
def addSample (acc v : List ℚ) : Result (List ℚ) :=
  if v.isEmpty then .ok acc
  else if acc.length ≠ v.length then
    .error (.internal
      s!"vec_avg_reduce: length mismatch — first vec has {acc.length} elements, got {v.length}")
  else elementWiseSum acc v

def vecAvgReduce (vecs : List (List ℚ)) : Result (List ℚ) :=
  match vecs.dropWhile List.isEmpty with
  | [] => .ok []
  | acc :: rest => do
    let acc ← rest.foldlM addSample acc
    return vecDiv acc vecs.length

def entries (vecs : List (List ℚ)) (i : ℕ) : List ℚ :=
  vecs.filterMap (·[i]?)

/-- Position by position the mean of the entries, which lies between the smallest and the largest
of them. -/
structure AreMeans (vecs : List (List ℚ)) (result : List ℚ) : Prop where
  length : ∀ v ∈ vecs, v = [] ∨ v.length = result.length
  empty : result = [] ↔ ∀ v ∈ vecs, v = []
  mean : ∀ i < result.length, result.getD i 0 = (entries vecs i).sum / (entries vecs i).length
  between : ∀ i < result.length, ∀ low high, (∀ x ∈ entries vecs i, low ≤ x ∧ x ≤ high) →
    low ≤ result.getD i 0 ∧ result.getD i 0 ≤ high

variable {vecs : List (List ℚ)} {acc v : List ℚ} {n : ℕ}

theorem sum_entries_cons (v : List ℚ) (vecs : List (List ℚ)) (i : ℕ) :
    (entries (v :: vecs) i).sum = v.getD i 0 + (entries vecs i).sum := by
  rw [entries, List.filterMap_cons, List.getD_eq_getElem?_getD]
  cases v[i]? <;> simp [entries]

theorem addSample_ok (h : v = [] ∨ v.length = acc.length) :
    ∃ out, addSample acc v = .ok out ∧ out.length = acc.length ∧
      ∀ i, out.getD i 0 = acc.getD i 0 + v.getD i 0 := by
  by_cases hv : v = []
  · exact ⟨acc, by simp [addSample, hv], rfl, by simp [hv]⟩
  · have hlength := h.resolve_left hv
    refine ⟨acc.zipWith (· + ·) v, by simp [addSample, elementWiseSum, hv, hlength],
      by simp [hlength], fun i => ?_⟩
    by_cases hi : i < acc.length
    · simp [hi, hlength]
    · simp [Nat.le_of_not_lt hi, hlength]

theorem foldlM_addSample (h : ∀ v ∈ vecs, v = [] ∨ v.length = acc.length) :
    ∃ out, vecs.foldlM addSample acc = .ok out ∧ out.length = acc.length ∧
      ∀ i, out.getD i 0 = acc.getD i 0 + (entries vecs i).sum := by
  induction vecs generalizing acc with
  | nil => exact ⟨acc, rfl, rfl, by simp [entries]⟩
  | cons v vecs ih =>
    rw [List.forall_mem_cons] at h
    obtain ⟨next, hnext, hlength, hentry⟩ := addSample_ok h.1
    rw [← hlength] at h ⊢
    obtain ⟨out, hout, hlen, hsum⟩ := ih h.2
    refine ⟨out, ?_, hlen, fun i => ?_⟩
    · rw [List.foldlM_cons, hnext, ok_bind, hout]
    · rw [hsum, hentry, sum_entries_cons, add_assoc]

theorem sum_entries_dropWhile (vecs : List (List ℚ)) (i : ℕ) :
    (entries (vecs.dropWhile List.isEmpty) i).sum = (entries vecs i).sum := by
  induction vecs with
  | nil => rfl
  | cons v vecs ih => cases v <;> simp_all [sum_entries_cons]

/-- The sums of the entries, divided by the number of all vectors. -/
theorem vecAvgReduce_ok (h : ∀ v ∈ vecs, v = [] ∨ v.length = n) :
    ∃ result, vecAvgReduce vecs = .ok result ∧
      (∀ v ∈ vecs, v = [] ∨ v.length = result.length) ∧ (result = [] ↔ ∀ v ∈ vecs, v = []) ∧
      ∀ i, result.getD i 0 = (entries vecs i).sum / vecs.length := by
  have hsum := sum_entries_dropWhile vecs
  have hhead := List.head?_dropWhile_not List.isEmpty vecs
  rw [vecAvgReduce]
  cases hdrop : vecs.dropWhile List.isEmpty with
  | nil =>
    have hnil : ∀ v ∈ vecs, v = [] := by
      simpa [List.dropWhile_eq_nil_iff] using hdrop
    refine ⟨[], rfl, fun v hv => Or.inl (hnil v hv), iff_of_true rfl hnil, fun i => ?_⟩
    rw [← hsum, hdrop]
    simp [entries]
  | cons first rest =>
    rw [hdrop] at hhead
    have hne : first ≠ [] := by simpa using hhead
    have hmem : ∀ v ∈ first :: rest, v ∈ vecs := by
      rw [← hdrop]
      exact fun v hv => (List.dropWhile_sublist _).mem hv
    obtain rfl := (h first (hmem first List.mem_cons_self)).resolve_left hne
    obtain ⟨out, hout, hlength, hentry⟩ := foldlM_addSample fun v hv =>
      h v (hmem v (List.mem_cons_of_mem _ hv))
    rw [← hlength] at h
    refine ⟨vecDiv out vecs.length, by simp [hout, ok_bind, pure, Except.pure],
      by simpa [vecDiv] using h, iff_of_false ?_ ?_, fun i => ?_⟩
    · rw [← List.length_eq_zero_iff, vecDiv, List.length_map, hlength, List.length_eq_zero_iff]
      exact hne
    · exact fun hnil => hne (hnil first (hmem first List.mem_cons_self))
    · rw [← hsum, hdrop, sum_entries_cons, ← hentry]
      by_cases hi : i < out.length <;> simp [vecDiv, hi]

theorem mean_between {xs : List ℚ} (hne : xs ≠ []) {low high : ℚ}
    (h : ∀ x ∈ xs, low ≤ x ∧ x ≤ high) :
    low ≤ xs.sum / xs.length ∧ xs.sum / xs.length ≤ high := by
  have hpos : (0 : ℚ) < xs.length := by exact_mod_cast List.length_pos_iff.mpr hne
  have hlow := List.card_nsmul_le_sum xs low fun x hx => (h x hx).1
  have hhigh := List.sum_le_card_nsmul xs high fun x hx => (h x hx).2
  rw [nsmul_eq_mul, mul_comm] at hlow hhigh
  exact ⟨(le_div_iff₀ hpos).mpr hlow, (div_le_iff₀ hpos).mpr hhigh⟩

/-- The averages of vectors of one length are means if and only if no vector is skipped, or the
entries at each position add up to zero. -/
theorem averages_are_means_iff (vecs : List (List ℚ)) (n : ℕ)
    (h : ∀ v ∈ vecs, v = [] ∨ v.length = n) :
    (∃ result, vecAvgReduce vecs = .ok result ∧ AreMeans vecs result) ↔
      ([] ∈ vecs → ∀ i, (entries vecs i).sum = 0) := by
  obtain ⟨result, hresult, hlength, hempty, hentry⟩ := vecAvgReduce_ok h
  have hsome : ∀ i < result.length, entries vecs i ≠ [] := by
    intro i hi hnil
    rw [entries, List.filterMap_eq_nil_iff] at hnil
    have hout : result = [] := hempty.mpr fun v hv => (hlength v hv).resolve_right fun hlen =>
      absurd (hnil v hv) (by simp [hlen, hi])
    simp [hout] at hi
  constructor
  · rintro ⟨other, hother, hmeans⟩ hskipped i
    obtain rfl : result = other := Except.ok.inj (hresult.symm.trans hother)
    have hless : (entries vecs i).length < vecs.length :=
      List.length_filterMap_lt_length_iff_exists.mpr ⟨[], hskipped, rfl⟩
    have hvecs : (vecs.length : ℚ) ≠ 0 := by exact_mod_cast Nat.ne_zero_of_lt hless
    by_cases hi : i < result.length
    · have hcount : ((entries vecs i).length : ℚ) ≠ 0 := by simpa using hsome i hi
      have hsame := (hentry i).symm.trans (hmeans.mean i hi)
      rw [div_eq_div_iff hvecs hcount] at hsame
      by_contra hne
      exact hless.ne (by exact_mod_cast mul_left_cancel₀ hne hsame)
    · have hzero := hentry i
      rw [List.getD_eq_default _ _ (Nat.le_of_not_lt hi)] at hzero
      exact (div_eq_zero_iff.mp hzero.symm).resolve_right hvecs
  · intro hzero
    have hmean : ∀ i < result.length,
        result.getD i 0 = (entries vecs i).sum / (entries vecs i).length := by
      intro i hi
      rw [hentry]
      by_cases hskipped : [] ∈ vecs
      · simp [hzero hskipped i]
      · have hcount : (entries vecs i).length = vecs.length :=
          List.filterMap_length_eq_length.mpr fun v hv => by
            simp [(hlength v hv).resolve_left (ne_of_mem_of_not_mem hv hskipped), hi]
        rw [hcount]
    refine ⟨result, hresult, hlength, hempty, hmean, fun i hi low high hbounds => ?_⟩
    rw [hmean i hi]
    exact mean_between (hsome i hi) hbounds

/-- Two partitions report the fraction one half, a third one has no sample. -/
theorem average_below_all_samples :
    vecAvgReduce [[1 / 2], [], [1 / 2]] = .ok [1 / 3] ∧
      ¬ AreMeans [[1 / 2], [], [1 / 2]] [1 / 3] := by
  refine ⟨by decide +kernel, fun h => ?_⟩
  have hmean := h.mean 0 (by decide)
  revert hmean
  decide +kernel

theorem averages_are_means_of_two :
    ∃ result, vecAvgReduce [[1 / 2, 0], [1, 1]] = .ok result ∧
      AreMeans [[1 / 2, 0], [1, 1]] result := by
  refine (averages_are_means_iff _ 2 ?_).mpr ?_ <;> simp

end DatafusionDistributed
