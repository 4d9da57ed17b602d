import Mathlib.Algebra.Order.Field.Rat
import Mathlib.Algebra.Order.Field.Basic
import Mathlib.Data.Finset.Card
import DatafusionDistributed.Common
import DatafusionDistributed.Library.Checked
import DatafusionDistributed.Library.PrefixWalk

/-!
# The distinct values of the sampled rows

`per_col_ndv` numbers the rows of the peeked batches one after the other and samples some of them.
It walks the batches and the sorted numbers together, and reads each sampled row in the batch that
`locate` finds. What is counted are the answers of `ScalarValue::try_from_array` for the cells that
`is_null` does not report. These are not all cells without a value: a `NullArray` has no null
buffer, so `is_null` is false for all its rows, and its `ScalarValue::Null` is counted.
-/

namespace DatafusionDistributed

open Library

def ndvMaxRowsSample : ℕ := 1000

/-- What `Array::is_null` and `ScalarValue::try_from_array` answer for a cell. -/
structure Cell (V : Type) where
  isNull : Bool
  scalar : Result V

structure RecordBatch (V : Type) (nCols : ℕ) where
  numRows : ℕ
  column : Fin nCols → Fin numRows → Cell V

/-- The sorted row numbers that are drawn from `total` rows. -/
structure SampledIndices (total : ℕ) where
  indices : List ℕ
  sorted : indices.Pairwise (· < ·)
  lt : ∀ i ∈ indices, i < total
  ne_nil : ndvMaxRowsSample < total → indices ≠ []

/-- Rounding to `f32`, which keeps the order and the integers up to `2 ^ 24`. -/
structure F32 where
  round : ℚ → ℚ
  mono : Monotone round
  exact : ∀ n : ℕ, n ≤ 2 ^ 24 → round n = n

/-- A quotient of two integers; without rows it is not a number. -/
def F32.fraction (self : F32) (count rows : ℕ) : Option ℚ :=
  if rows = 0 then none else some (self.round (self.round count / self.round rows))

section Walk

variable {V σ : Type} {nCols : ℕ}

def Cell.counted (self : Cell V) : Option V :=
  if self.isNull then none else self.scalar.toOption

def RecordBatch.value (batch : RecordBatch V nCols) (row : ℕ) (col : Fin nCols) : Option V :=
  if h : row < batch.numRows then (batch.column col ⟨row, h⟩).counted else none

section Loops

variable (visit : RecordBatch V nCols → ℕ → σ → Result σ)

/-- The inner loop, whose body is a `visit` of a row, with the numbers that are left when it
ends. -/
def RecordBatch.visitRows (batch : RecordBatch V nCols) (flatBase : ℕ) :
    List ℕ → σ → Result (List ℕ × σ)
  | [], state => .ok ([], state)
  | i :: rest, state =>
    if i < flatBase + batch.numRows then
      if i < flatBase then .error (.panic "attempt to subtract with overflow")
      else do
        let state ← visit batch (i - flatBase) state
        batch.visitRows flatBase rest state
    else .ok (i :: rest, state)

/-- The loop over the batches, which ends early when no number is left. -/
def visitSampled : List (RecordBatch V nCols) → ℕ → List ℕ → σ → Result σ
  | [], _, _, state => .ok state
  | batch :: peek, flatBase, sampled, state => do
    let (sampled, state) ← batch.visitRows visit flatBase sampled state
    if sampled.isEmpty then .ok state
    else visitSampled peek (flatBase + batch.numRows) sampled state

/-- Visits of the given cells, one after the other. -/
def visitCells (read : List (RecordBatch V nCols × ℕ)) (state : σ) : Result σ :=
  read.foldlM (fun state cell => visit cell.1 cell.2 state) state

end Loops

variable [DecidableEq V]

/-- The loop over the columns of a row. `is_null` panics behind the last row. -/
def RecordBatch.insertRow (batch : RecordBatch V nCols) (row : ℕ) (sets : Fin nCols → Finset V) :
    Result (Fin nCols → Finset V) :=
  if row < batch.numRows then
    .ok fun col => (batch.value row col).elim (sets col) fun v => insert v (sets col)
  else .error (.panic "index out of bounds")

def totalRows (peek : List (RecordBatch V nCols)) : ℕ := (peek.map RecordBatch.numRows).sum

def sampledNdv (f32 : F32) (peek : List (RecordBatch V nCols)) (sampled : List ℕ) :
    Result (Fin nCols → Option ℚ) := do
  let sets ← visitSampled RecordBatch.insertRow peek 0 sampled fun _ => ∅
  return fun col => f32.fraction (sets col).card sampled.length

/-- `per_col_ndv`, with the numbers that are drawn from more rows than the limit. -/
def perColNdv (f32 : F32) (peek : List (RecordBatch V nCols))
    (drawn : SampledIndices (totalRows peek)) : Result (Fin nCols → Option ℚ) :=
  if totalRows peek = 0 then .ok fun _ => some 0
  else if totalRows peek ≤ ndvMaxRowsSample then sampledNdv f32 peek (List.range (totalRows peek))
  else sampledNdv f32 peek drawn.indices

def distinct (read : List (RecordBatch V nCols × ℕ)) (col : Fin nCols) : Finset V :=
  (read.filterMap fun cell => cell.1.value cell.2 col).toFinset

theorem card_distinct_le (read : List (RecordBatch V nCols × ℕ)) (col : Fin nCols) :
    (distinct read col).card ≤ read.length :=
  (List.toFinset_card_le _).trans (List.length_filterMap_le ..)

variable {peek : List (RecordBatch V nCols)} {sampled : List ℕ}

omit [DecidableEq V] in
/-- The walk visits the cells where the numbers belong, whatever it does there. -/
theorem visitSampled_eq {flatBase : ℕ} (hsorted : sampled.Pairwise (· < ·))
    (hrange : ∀ i ∈ sampled, flatBase ≤ i ∧ i < flatBase + totalRows peek) :
    ∃ read, sampled.map (fun i => locate RecordBatch.numRows peek (i - flatBase)) =
      read.map some ∧ ∀ (σ : Type) (visit : RecordBatch V nCols → ℕ → σ → Result σ) state,
        visitSampled visit peek flatBase sampled state = visitCells visit read state := by
  induction peek generalizing flatBase sampled with
  | nil =>
    cases sampled with
    | nil => exact ⟨[], rfl, fun _ _ _ => rfl⟩
    | cons i rest =>
      have hi := hrange i List.mem_cons_self
      simp [totalRows] at hi
      omega
  | cons batch peek ih =>
    have htotal : totalRows (batch :: peek) = batch.numRows + totalRows peek := by simp [totalRows]
    induction sampled with
    | nil => exact ⟨[], rfl, fun _ _ _ => rfl⟩
    | cons i rest ihs =>
      obtain ⟨hfirst, hrest⟩ := List.pairwise_cons.mp hsorted
      obtain ⟨hi, hmore⟩ := List.forall_mem_cons.mp hrange
      by_cases hhere : i < flatBase + batch.numRows
      · obtain ⟨read, hread, hwalk⟩ := ihs hrest hmore
        refine ⟨(batch, i - flatBase) :: read, ?_, fun σ visit state => ?_⟩
        · rw [List.map_cons, List.map_cons, hread, locate, if_pos (by omega)]
        · simp only [visitSampled, RecordBatch.visitRows, if_pos hhere, if_neg (not_lt.mpr hi.1),
            bind_assoc]
          exact congrArg _ (funext (hwalk σ visit))
      · -- this number and all after it belong to later batches
        have hlater : ∀ j ∈ i :: rest, flatBase + batch.numRows ≤ j := by
          intro j hj
          rcases List.mem_cons.mp hj with rfl | hj
          · exact not_lt.mp hhere
          · have := hfirst j hj
            omega
        obtain ⟨read, hread, hwalk⟩ := ih hsorted fun j hj =>
          ⟨hlater j hj, by have := (hrange j hj).2; omega⟩
        refine ⟨read, ?_, fun σ visit state => ?_⟩
        · rw [← hread]
          refine List.map_congr_left fun j hj => ?_
          have := hlater j hj
          rw [locate, if_neg (by omega), Nat.sub_sub]
        · rw [← hwalk]
          simp only [visitSampled, RecordBatch.visitRows, if_neg hhere]
          rfl

theorem visitCells_insertRow {read : List (RecordBatch V nCols × ℕ)}
    (h : ∀ cell ∈ read, cell.2 < cell.1.numRows) (sets : Fin nCols → Finset V) :
    visitCells RecordBatch.insertRow read sets = .ok fun col => sets col ∪ distinct read col := by
  induction read generalizing sets with
  | nil => simp [visitCells, distinct]; rfl
  | cons cell read ih =>
    obtain ⟨hcell, hread⟩ := List.forall_mem_cons.mp h
    rw [visitCells, List.foldlM_cons, RecordBatch.insertRow, if_pos hcell, ok_bind]
    refine (ih hread _).trans (congrArg Except.ok (funext fun col => ?_))
    cases hvalue : cell.1.value cell.2 col <;> simp [distinct, hvalue]

theorem F32.fraction_mem (f32 : F32) {count rows : ℕ} (hcount : count ≤ rows) (hrows : rows ≠ 0) :
    ∃ x, f32.fraction count rows = some x ∧ 0 ≤ x ∧ x ≤ 1 := by
  have hzero : f32.round 0 = 0 := by simpa using f32.exact 0
  have hone : f32.round 1 = 1 := by simpa using f32.exact 1
  have hcast : ∀ n : ℕ, 0 ≤ f32.round n := fun n => hzero ▸ f32.mono n.cast_nonneg
  refine ⟨_, if_neg hrows, ?_, ?_⟩
  · rw [← hzero]
    exact f32.mono (div_nonneg (hcast _) (hcast _))
  · rw [← hone]
    exact f32.mono (div_le_one_of_le₀ (f32.mono (Nat.cast_le.mpr hcount)) (hcast _))

theorem sampledNdv_spec (f32 : F32) (hsorted : sampled.Pairwise (· < ·))
    (hrange : ∀ i ∈ sampled, i < totalRows peek) :
    ∃ read, sampled.map (locate RecordBatch.numRows peek) = read.map some ∧
      (∀ cell ∈ read, cell.2 < cell.1.numRows) ∧
      (∀ (σ : Type) (visit : RecordBatch V nCols → ℕ → σ → Result σ) state,
        visitSampled visit peek 0 sampled state = visitCells visit read state) ∧
      sampledNdv f32 peek sampled =
        .ok (fun col => f32.fraction (distinct read col).card sampled.length) ∧
      (sampled ≠ [] → ∀ col, ∃ x,
        f32.fraction (distinct read col).card sampled.length = some x ∧ 0 ≤ x ∧ x ≤ 1) := by
  obtain ⟨read, hread, hwalk⟩ := visitSampled_eq hsorted fun i hi =>
    ⟨Nat.zero_le i, (hrange i hi).trans_eq (Nat.zero_add _).symm⟩
  have hbound : ∀ cell ∈ read, cell.2 < cell.1.numRows := by
    intro cell hcell
    have hmem := List.mem_map_of_mem (f := some) hcell
    rw [← hread] at hmem
    obtain ⟨i, -, hi⟩ := List.mem_map.mp hmem
    exact (locate_some RecordBatch.numRows hi).2.1
  have hlength : sampled.length = read.length := by simpa using congrArg List.length hread
  refine ⟨read, hread, hbound, hwalk, ?_, ?_⟩
  · rw [sampledNdv, hwalk, visitCells_insertRow hbound, ok_bind]
    simp only [Finset.empty_union]
    rfl
  · intro hne col
    refine f32.fraction_mem ?_ (List.length_eq_zero_iff.not.mpr hne)
    rw [hlength]
    exact card_distinct_le read col

/-- For sorted numbers in range the walk visits one cell for each of them, in their order: the one
at its place, which is a row of its batch. Whatever is done there, nothing else is done. All
fractions are between zero and one. Up to the limit they are the numbers of distinct values of all
rows, divided by the number of rows. -/
theorem per_col_ndv_walk (f32 : F32) (peek : List (RecordBatch V nCols))
    (drawn : SampledIndices (totalRows peek)) :
    (∃ read, drawn.indices.map (locate RecordBatch.numRows peek) = read.map some ∧
      (∀ cell ∈ read, cell.2 < cell.1.numRows) ∧
      ∀ (σ : Type) (visit : RecordBatch V nCols → ℕ → σ → Result σ) state,
        visitSampled visit peek 0 drawn.indices state = visitCells visit read state) ∧
    ∃ fractions, perColNdv f32 peek drawn = .ok fractions ∧
      (∀ col, ∃ x, fractions col = some x ∧ 0 ≤ x ∧ x ≤ 1) ∧
      (0 < totalRows peek → totalRows peek ≤ ndvMaxRowsSample → ∀ col, fractions col = some
        (f32.round ((distinct (cells RecordBatch.numRows peek) col).card / totalRows peek))) := by
  obtain ⟨read, hread, hbound, hwalk, hdrawn, hdrawnMem⟩ :=
    sampledNdv_spec f32 drawn.sorted drawn.lt
  refine ⟨⟨read, hread, hbound, hwalk⟩, ?_⟩
  unfold perColNdv
  split
  · exact ⟨_, rfl, fun _ => ⟨0, rfl, le_rfl, zero_le_one⟩, fun hpos => by omega⟩
  · rename_i hrows
    split
    · rename_i hfew
      have hrange : ∀ i ∈ List.range (totalRows peek), i < totalRows peek :=
        fun i => List.mem_range.mp
      obtain ⟨read, hread, -, -, hall, hmem⟩ := sampledNdv_spec f32 List.pairwise_lt_range hrange
      obtain rfl : read = cells RecordBatch.numRows peek := by
        apply List.map_injective_iff.mpr (Option.some_injective _)
        rw [← hread]
        apply List.ext_getElem <;> simp [locate_eq_getElem?, length_cells, totalRows]
      refine ⟨_, hall, hmem (by simpa using hrows), fun _ _ col => ?_⟩
      have hcard := card_distinct_le (cells RecordBatch.numRows peek) col
      rw [length_cells] at hcard
      have hlimit : totalRows peek ≤ 2 ^ 24 := hfew.trans (by decide)
      rw [F32.fraction, List.length_range, if_neg hrows, f32.exact _ (hcard.trans hlimit),
        f32.exact _ hlimit]
    · rename_i hmany
      exact ⟨_, hdrawn, hdrawnMem (drawn.ne_nil (not_le.mp hmany)), fun _ hfew => absurd hfew hmany⟩

/-- Two rows of a `NullArray`: there is no value, but the `ScalarValue::Null` is counted. -/
theorem null_array_counted :
    let batch : RecordBatch (Option ℕ) 1 := ⟨2, fun _ _ => ⟨false, .ok none⟩⟩
    perColNdv ⟨id, monotone_id, fun _ _ => rfl⟩ [batch] ⟨[], .nil, by simp, by decide⟩ =
      .ok fun _ => some (1 / 2) := by
  refine congrArg Except.ok (funext fun _ => ?_)
  simp [F32.fraction, RecordBatch.value, Cell.counted, Except.toOption, totalRows]

end Walk

end DatafusionDistributed
