import DatafusionDistributed.Library.Fibers

/-!
# Grouping by key

Values with keys are grouped: each key keeps the sum of its values. What grouping yields depends
only on which keys there are and on the sum of each, so values may be grouped in pieces first, any
number of times. `Regroups` relates rows to rows that were grouped in pieces.
-/

namespace DatafusionDistributed.Library

variable {K M : Type} [DecidableEq K] [AddCommMonoid M]

def sumAt (rows : Multiset (K × M)) (key : K) : M :=
  ((rows.filter fun row => row.1 = key).map Prod.snd).sum

def groupSum (rows : Multiset (K × M)) : Multiset (K × M) :=
  (rows.map Prod.fst).dedup.map fun key => (key, sumAt rows key)

@[simp] theorem sumAt_zero (key : K) : sumAt (0 : Multiset (K × M)) key = 0 := rfl

@[simp] theorem sumAt_add (rows others : Multiset (K × M)) (key : K) :
    sumAt (rows + others) key = sumAt rows key + sumAt others key := by
  simp [sumAt]

theorem sumAt_cons (row : K × M) (rows : Multiset (K × M)) (key : K) :
    sumAt (row ::ₘ rows) key = (if row.1 = key then row.2 else 0) + sumAt rows key := by
  by_cases h : row.1 = key
  · simp [sumAt, h]
  · simp [sumAt, h]

variable {rows : Multiset (K × M)} {key : K}

theorem sumAt_of_not_mem (h : key ∉ rows.map Prod.fst) :
    sumAt rows key = 0 := by
  have hnone : rows.filter (fun row => row.1 = key) = 0 := by
    rw [Multiset.filter_eq_nil]
    rintro row hrow rfl
    exact h (Multiset.mem_map_of_mem _ hrow)
  rw [sumAt, hnone]
  rfl

theorem sumAt_filter (p : K → Prop) [DecidablePred p] (rows : Multiset (K × M)) (key : K) :
    sumAt (rows.filter fun row => p row.1) key = if p key then sumAt rows key else 0 := by
  unfold sumAt
  rw [Multiset.filter_filter]
  split
  · rename_i hp
    congr 2
    exact Multiset.filter_congr fun row _ => and_iff_left_of_imp fun hkey => hkey ▸ hp
  · rename_i hp
    have hnone : rows.filter (fun row => row.1 = key ∧ p row.1) = 0 :=
      Multiset.filter_eq_nil.mpr fun row _ h => hp (h.1 ▸ h.2)
    rw [hnone]
    rfl

omit [DecidableEq K] [AddCommMonoid M] in
theorem mem_keys_filter {p : K → Prop} [DecidablePred p] :
    key ∈ (rows.filter fun row => p row.1).map Prod.fst ↔ p key ∧ key ∈ rows.map Prod.fst := by
  simp only [Multiset.mem_map, Multiset.mem_filter]
  grind

theorem map_fst_groupSum (rows : Multiset (K × M)) :
    (groupSum rows).map Prod.fst = (rows.map Prod.fst).dedup := by
  simp [groupSum]

theorem mem_keys_groupSum :
    key ∈ (groupSum rows).map Prod.fst ↔ key ∈ rows.map Prod.fst := by
  rw [map_fst_groupSum, Multiset.mem_dedup]

/-- Grouping keeps the sum of every key. -/
@[simp] theorem sumAt_groupSum (rows : Multiset (K × M)) (key : K) :
    sumAt (groupSum rows) key = sumAt rows key := by
  have hgroups : ∀ keys : Multiset K, keys.Nodup →
      sumAt (keys.map fun other => (other, sumAt rows other)) key =
        if key ∈ keys then sumAt rows key else 0 := by
    intro keys
    induction keys using Multiset.induction_on with
    | empty => simp
    | cons other keys ih =>
      intro hnodup
      rw [Multiset.nodup_cons] at hnodup
      rw [Multiset.map_cons, sumAt_cons, ih hnodup.2]
      by_cases h : other = key
      · subst h
        simp [hnodup.1]
      · have hne : key ≠ other := fun heq => h heq.symm
        simp [h, hne]
  rw [groupSum, hgroups _ (Multiset.nodup_dedup _)]
  split
  · rfl
  · rename_i h
    rw [Multiset.mem_dedup] at h
    rw [sumAt_of_not_mem h]

/-- Grouping yields the same for the same keys with the same sums. -/
theorem groupSum_congr {others : Multiset (K × M)}
    (hkeys : ∀ key, key ∈ rows.map Prod.fst ↔ key ∈ others.map Prod.fst)
    (hsums : ∀ key, sumAt rows key = sumAt others key) : groupSum rows = groupSum others := by
  have hdedup : (rows.map Prod.fst).dedup = (others.map Prod.fst).dedup :=
    Multiset.dedup_ext.mpr hkeys
  rw [groupSum, hdedup]
  exact Multiset.map_congr rfl fun key _ => by rw [hsums key]

theorem sumAt_of_forall (h : ∀ row ∈ rows, row.1 = key) :
    sumAt rows key = (rows.map Prod.snd).sum := by
  rw [sumAt, Multiset.filter_eq_self.mpr h]

def total : Multiset (K × M) →+ M :=
  Multiset.sumAddMonoidHom.comp (Multiset.mapAddMonoidHom Prod.snd)

/-- Grouping keeps the sum of all values. -/
theorem total_groupSum (rows : Multiset (K × M)) : total (groupSum rows) = total rows := by
  have hfibers : ∑ key ∈ (rows.map Prod.fst).toFinset, rows.filter (fun row => row.1 = key) =
      rows :=
    sum_fibers Prod.fst _ rows fun row hrow =>
      Multiset.mem_toFinset.mpr (Multiset.mem_map_of_mem Prod.fst hrow)
  calc total (groupSum rows)
      = ∑ key ∈ (rows.map Prod.fst).toFinset, sumAt rows key := by
        show ((groupSum rows).map Prod.snd).sum = _
        rw [groupSum, Multiset.map_map]
        rfl
    _ = total (∑ key ∈ (rows.map Prod.fst).toFinset, rows.filter fun row => row.1 = key) :=
        (map_sum total _ _).symm
    _ = total rows := by rw [hfibers]

/-! ## Rows that were grouped in pieces -/

/-- `others` has the sum of every key that `rows` has and, if `keyed` holds, the same keys. Rows
without grouping keys may gain pieces with an empty sum. -/
structure Regroups (keyed : Prop) (rows others : Multiset (K × M)) : Prop where
  sums : ∀ key, sumAt others key = sumAt rows key
  keys : keyed → ∀ key, key ∈ others.map Prod.fst ↔ key ∈ rows.map Prod.fst

namespace Regroups

variable {keyed : Prop} {rows others : Multiset (K × M)}

theorem groupSum (rows : Multiset (K × M)) : Regroups keyed rows (groupSum rows) :=
  ⟨sumAt_groupSum rows, fun _ _ => mem_keys_groupSum⟩

theorem add {rows' others' : Multiset (K × M)} (h : Regroups keyed rows others)
    (h' : Regroups keyed rows' others') : Regroups keyed (rows + rows') (others + others') where
  sums := by
    intro key
    rw [sumAt_add, sumAt_add, h.sums, h'.sums]
  keys := by
    intro hkeyed key
    rw [Multiset.map_add, Multiset.map_add, Multiset.mem_add, Multiset.mem_add, h.keys hkeyed,
      h'.keys hkeyed]

/-- Grouping pieces one by one. -/
theorem listSum {pieces grouped : List (Multiset (K × M))}
    (h : List.Forall₂ (Regroups keyed) pieces grouped) : Regroups keyed pieces.sum grouped.sum := by
  induction h with
  | nil => exact ⟨fun _ => rfl, fun _ _ => Iff.rfl⟩
  | cons hpiece _ ih =>
    exact hpiece.add ih

theorem filter (h : Regroups keyed rows others) (p : K → Prop) [DecidablePred p] :
    Regroups keyed (rows.filter fun row => p row.1) (others.filter fun row => p row.1) where
  sums := by
    intro key
    rw [sumAt_filter, sumAt_filter, h.sums]
  keys := by
    intro hkeyed key
    rw [mem_keys_filter, mem_keys_filter, h.keys hkeyed]

theorem groupSum_eq (h : Regroups keyed rows others) (hkeyed : keyed) :
    Library.groupSum others = Library.groupSum rows :=
  groupSum_congr (h.keys hkeyed) h.sums

theorem sum_eq (h : Regroups keyed rows others) {key : K} (hrows : ∀ row ∈ rows, row.1 = key)
    (hothers : ∀ row ∈ others, row.1 = key) :
    (others.map Prod.snd).sum = (rows.map Prod.snd).sum := by
  rw [← sumAt_of_forall hrows, ← sumAt_of_forall hothers, h.sums]

end Regroups

end DatafusionDistributed.Library
