import Mathlib.Data.Fin.VecNotation
import Mathlib.Data.List.Induction
import Mathlib.Data.List.Perm.Basic
import DatafusionDistributed.Common
import DatafusionDistributed.Library.Checked

/-!
# Column statistics of an Iceberg table

`compute_column_stats` reads the data manifests of a snapshot concurrently. Every reader merges the
statistics of the files that are alive in its manifest, and the results are merged in the order in
which the readers complete. Merging is associative and commutative, so the statistics follow from
the files alone, whatever the order and the manifests they are in.

The bounds of a column are values of a linear order, and sums do not overflow.
-/

namespace DatafusionDistributed.Iceberg

open Library

inductive Precision (α : Type) where
  | exact (value : α)
  | inexact (value : α)
  | absent
  deriving DecidableEq, Repr

namespace Precision

variable {α : Type} {op : α → α → α} {a b : Precision α}

/-- DataFusion's `add`, `min` and `max`: absent if one side is, and exact if both are. -/
def combine (op : α → α → α) : Precision α → Precision α → Precision α
  | exact a, exact b => exact (op a b)
  | exact a, inexact b | inexact a, exact b | inexact a, inexact b => inexact (op a b)
  | _, _ => absent

def getValue : Precision α → Option α
  | exact value | inexact value => some value
  | absent => none

def toInexact : Precision α → Precision α
  | exact value => inexact value
  | other => other

theorem toInexact_spec (self : Precision α) :
    self.toInexact.getValue = self.getValue ∧ ∀ value, self.toInexact ≠ exact value := by
  cases self <;> simp [toInexact, getValue]

theorem combine_comm (h : ∀ x y, op x y = op y x) (a b : Precision α) :
    combine op a b = combine op b a := by
  cases a <;> cases b <;> simp only [combine, h]

theorem combine_assoc (h : ∀ x y z, op (op x y) z = op x (op y z)) (a b c : Precision α) :
    combine op (combine op a b) c = combine op a (combine op b c) := by
  cases a <;> cases b <;> cases c <;> simp only [combine, h]

theorem getValue_combine {value : α} (h : (combine op a b).getValue = some value) :
    ∃ x y, a.getValue = some x ∧ b.getValue = some y ∧ value = op x y := by
  cases a <;> cases b <;> cases h <;> exact ⟨_, _, rfl, rfl, rfl⟩

/-- A reported value is related to the given ones, and all of them are given. -/
def Reports (rel : α → List α → Prop) (given : List (Option α)) (reported : Precision α) : Prop :=
  ∀ value, reported.getValue = some value → ∃ values, given = values.map some ∧ rel value values

variable {rel : α → List α → Prop} {given : List (Option α)} {last : Option α}

theorem Reports.single (hlast : a.getValue = last) (h : ∀ value, rel value [value]) :
    Reports rel [last] a := by
  intro value hvalue
  rw [← hlast, hvalue]
  exact ⟨[value], rfl, h value⟩

theorem Reports.combine (ha : Reports rel given a) (hlast : b.getValue = last)
    (h : ∀ value values x, rel value values → rel (op value x) (values ++ [x])) :
    Reports rel (given ++ [last]) (a.combine op b) := by
  intro value hvalue
  obtain ⟨x, y, hx, hy, rfl⟩ := getValue_combine hvalue
  obtain ⟨values, rfl, hrel⟩ := ha x hx
  rw [← hlast, hy]
  exact ⟨values ++ [y], by simp, h x values y hrel⟩

end Precision

structure ColumnStatistics (V : Type) where
  nullCount : Precision ℕ
  minValue : Precision V
  maxValue : Precision V
  byteSize : Precision ℕ
  sumValue : Precision V
  distinctCount : Precision ℕ
  deriving DecidableEq, Repr

def ColumnStatistics.newUnknown {V : Type} : ColumnStatistics V :=
  ⟨.absent, .absent, .absent, .absent, .absent, .absent⟩

structure DataFile (D : Type) where
  nullValueCounts : ℤ → Option ℕ
  lowerBounds : ℤ → Option D
  upperBounds : ℤ → Option D
  columnSizes : ℤ → Option ℕ

section merging

variable {V D : Type} [LinearOrder V]

def mergeColStats (acc : Option (ColumnStatistics V)) (next : ColumnStatistics V) :
    ColumnStatistics V :=
  match acc with
  | none => next
  | some acc =>
    { nullCount := acc.nullCount.combine (· + ·) next.nullCount
      minValue := acc.minValue.combine min next.minValue
      maxValue := acc.maxValue.combine max next.maxValue
      byteSize := acc.byteSize.combine (· + ·) next.byteSize
      sumValue := .absent
      distinctCount := .absent }

theorem mergeColStats_comm (a b : ColumnStatistics V) :
    mergeColStats (some a) b = mergeColStats (some b) a := by
  simp only [mergeColStats, Precision.combine_comm Nat.add_comm, Precision.combine_comm min_comm,
    Precision.combine_comm max_comm]

theorem mergeColStats_assoc (acc : Option (ColumnStatistics V)) (a b : ColumnStatistics V) :
    mergeColStats (some (mergeColStats acc a)) b =
      mergeColStats acc (mergeColStats (some a) b) := by
  cases acc with
  | none => rfl
  | some acc =>
    simp only [mergeColStats, Precision.combine_assoc Nat.add_assoc,
      Precision.combine_assoc min_assoc, Precision.combine_assoc max_assoc]

/-- The loop over the files of a manifest, for one column. -/
def mergeFiles (stats : DataFile D → ColumnStatistics V) (files : List (DataFile D)) :
    Option (ColumnStatistics V) :=
  files.foldl (fun acc df => some (mergeColStats acc (stats df))) none

/-- The step of the loop over the manifests, for one column. -/
def mergeManifest (acc next : Option (ColumnStatistics V)) : Option (ColumnStatistics V) :=
  match next with
  | none => acc
  | some next => some (mergeColStats acc next)

variable (stats : DataFile D → ColumnStatistics V)

theorem mergeFiles_concat (files : List (DataFile D)) (df : DataFile D) :
    mergeFiles stats (files ++ [df]) = some (mergeColStats (mergeFiles stats files) (stats df)) :=
  List.foldl_concat ..

theorem mergeFiles_append (files others : List (DataFile D)) :
    mergeFiles stats (files ++ others) =
      mergeManifest (mergeFiles stats files) (mergeFiles stats others) := by
  induction others using List.reverseRecOn with
  | nil =>
    rw [List.append_nil]
    rfl
  | append_singleton others df ih =>
    rw [← List.append_assoc, mergeFiles_concat, mergeFiles_concat, ih]
    cases mergeFiles stats others with
    | none => rfl
    | some cs => exact congrArg some (mergeColStats_assoc _ cs _)

theorem mergeFiles_flatMap {α : Type} (manifests : List α) (files : α → List (DataFile D)) :
    mergeFiles stats (manifests.flatMap files) =
      manifests.foldl (fun acc manifest => mergeManifest acc (mergeFiles stats (files manifest)))
        none := by
  induction manifests using List.reverseRecOn with
  | nil => rfl
  | append_singleton manifests last ih =>
    rw [List.flatMap_append, List.flatMap_singleton, mergeFiles_append, ih, List.foldl_concat]

theorem mergeFiles_perm {files others : List (DataFile D)} (h : files.Perm others) :
    mergeFiles stats files = mergeFiles stats others := by
  have hcomm : RightCommutative fun acc df => some (mergeColStats acc (stats df)) := by
    refine ⟨fun acc a b => congrArg some ?_⟩
    rw [mergeColStats_assoc, mergeColStats_comm, ← mergeColStats_assoc]
  exact h.foldl_eq none

end merging

section reading

variable {V D : Type} [LinearOrder V] (datumToScalar : D → Option V) (id : ℤ)

def dataFileColStats (df : DataFile D) : ColumnStatistics V where
  nullCount := (df.nullValueCounts id).elim .absent .exact
  minValue := ((df.lowerBounds id).bind datumToScalar).elim .absent .inexact
  maxValue := ((df.upperBounds id).bind datumToScalar).elim .absent .inexact
  byteSize := (df.columnSizes id).elim .absent .inexact
  sumValue := .absent
  distinctCount := .absent

/-- A null count is reported only if all files report one, and is their sum. A bound is reported
only if all files have one, and is a bound for all of them. -/
structure Describes (files : List (DataFile D)) (cs : ColumnStatistics V) : Prop where
  nullCount : cs.nullCount.Reports (fun count counts => count = counts.sum)
    (files.map fun df => df.nullValueCounts id)
  minValue : cs.minValue.Reports (fun bound bounds => ∀ b ∈ bounds, bound ≤ b)
    (files.map fun df => (df.lowerBounds id).bind datumToScalar)
  maxValue : cs.maxValue.Reports (fun bound bounds => ∀ b ∈ bounds, b ≤ bound)
    (files.map fun df => (df.upperBounds id).bind datumToScalar)

theorem describes_mergeFiles (files : List (DataFile D)) : Describes datumToScalar id files
    ((mergeFiles (dataFileColStats datumToScalar id) files).getD .newUnknown) := by
  induction files using List.reverseRecOn with
  | nil => constructor <;> exact fun _ h => by cases h
  | append_singleton files df ih =>
    have hcount : ∀ o : Option ℕ, (o.elim .absent Precision.exact).getValue = o := by
      rintro (_ | _) <;> rfl
    have hbound : ∀ o : Option V, (o.elim .absent Precision.inexact).getValue = o := by
      rintro (_ | _) <;> rfl
    rw [mergeFiles_concat]
    rcases List.eq_nil_or_concat' files with rfl | ⟨files, middle, rfl⟩
    · exact ⟨.single (hcount _) (by simp), .single (hbound _) (by simp),
        .single (hbound _) (by simp)⟩
    · rw [mergeFiles_concat] at ih ⊢
      constructor <;> rw [List.map_append]
      · exact ih.nullCount.combine (hcount _) (by simp)
      · exact ih.minValue.combine (hbound _) (by grind)
      · exact ih.maxValue.combine (hbound _) (by grind)

/-- What is done with the merged statistics of a column. -/
def finishColStats (hasDeletes : Bool) (ndv : Option ℕ) (merged : Option (ColumnStatistics V)) :
    ColumnStatistics V :=
  let cs := merged.getD .newUnknown
  let cs := ndv.elim cs fun ndv => { cs with distinctCount := .inexact ndv }
  if hasDeletes then { cs with nullCount := cs.nullCount.toInexact } else cs

variable {datumToScalar id} in
theorem Describes.finish {files : List (DataFile D)} {merged : Option (ColumnStatistics V)}
    (h : Describes datumToScalar id files (merged.getD .newUnknown)) (hasDeletes : Bool)
    (ndv : Option ℕ) :
    Describes datumToScalar id files (finishColStats hasDeletes ndv merged) ∧
      ∀ count, (finishColStats hasDeletes ndv merged).nullCount = .exact count →
        hasDeletes = false := by
  obtain ⟨hvalue, hne⟩ := (merged.getD .newUnknown).nullCount.toInexact_spec
  cases hasDeletes with
  | false => cases ndv <;> exact ⟨⟨h.nullCount, h.minValue, h.maxValue⟩, fun _ _ => rfl⟩
  | true =>
    have hnull := fun count hcount => h.nullCount count (hvalue.symm.trans hcount)
    cases ndv <;>
      exact ⟨⟨hnull, h.minValue, h.maxValue⟩, fun count hcount => absurd hcount (hne count)⟩

inductive ManifestContentType where
  | data
  | deletes
  deriving DecidableEq, Repr

structure ManifestEntry (D : Type) where
  isAlive : Bool
  dataFile : DataFile D

/-- An entry of the manifest list, with what its reader returns. -/
structure ManifestFile (D : Type) where
  content : ManifestContentType
  read : Result (List (ManifestEntry D))

/-- A manifest list, and the order in which the readers of its data manifests complete. -/
structure ManifestList (D : Type) where
  entries : List (ManifestFile D)
  completed : List (ManifestFile D)
  perm : completed.Perm (entries.filter (·.content = .data))

def ManifestList.hasDeletes (self : ManifestList D) : Bool :=
  self.entries.any (·.content = .deletes)

def aliveFiles (entries : List (ManifestEntry D)) : List (DataFile D) :=
  (entries.filter ManifestEntry.isAlive).map ManifestEntry.dataFile

variable {n : ℕ} (ndvs : ℤ → Option ℕ) (fieldsIds : Fin n → ℤ)

/-- `compute_column_stats`. The table's metadata may know the number of distinct values. -/
def computeColumnStats : Option (Result (ManifestList D)) → Result (Fin n → ColumnStatistics V)
  | none => .ok fun _ => .newUnknown
  | some manifestList => do
    let manifestList ← manifestList
    let manifests ← manifestList.completed.mapM ManifestFile.read
    let merged := manifests.foldl (fun merged manifest i => mergeManifest (merged i)
      (mergeFiles (dataFileColStats datumToScalar (fieldsIds i)) (aliveFiles manifest)))
      fun _ => none
    return fun i => finishColStats manifestList.hasDeletes (ndvs (fieldsIds i)) (merged i)

theorem computeColumnStats_eq {manifestList : ManifestList D}
    {manifests : List (List (ManifestEntry D))}
    (hread : manifestList.completed.mapM ManifestFile.read = .ok manifests) :
    computeColumnStats datumToScalar ndvs fieldsIds (some (.ok manifestList)) = .ok fun i =>
      finishColStats manifestList.hasDeletes (ndvs (fieldsIds i))
        (mergeFiles (dataFileColStats datumToScalar (fieldsIds i))
          (manifests.flatMap aliveFiles)) := by
  simp only [computeColumnStats, ok_bind, hread]
  refine congrArg Except.ok (funext fun i => congrArg (finishColStats _ _) ?_)
  rw [mergeFiles_flatMap]
  exact (List.foldl_hom (Function.eval i) fun _ _ => rfl).symm

/-- If the manifests can be read, the statistics follow from the files that are alive in them and
from whether there are deletes: in any order and in any manifests, the same files give the same
statistics. A null count is exact only without deletes. -/
theorem column_stats_sound {manifestList : ManifestList D}
    {manifests : List (List (ManifestEntry D))}
    (hread : manifestList.completed.mapM ManifestFile.read = .ok manifests) :
    ∃ stats : Fin n → ColumnStatistics V,
      computeColumnStats datumToScalar ndvs fieldsIds (some (.ok manifestList)) = .ok stats ∧
      (∀ (other : ManifestList D) (others : List (List (ManifestEntry D))),
        other.completed.mapM ManifestFile.read = .ok others →
        (others.flatMap aliveFiles).Perm (manifests.flatMap aliveFiles) →
        other.hasDeletes = manifestList.hasDeletes →
        computeColumnStats datumToScalar ndvs fieldsIds (some (.ok other)) = .ok stats) ∧
      ∀ i, Describes datumToScalar (fieldsIds i) (manifests.flatMap aliveFiles) (stats i) ∧
        ∀ count, (stats i).nullCount = .exact count → manifestList.hasDeletes = false := by
  refine ⟨_, computeColumnStats_eq datumToScalar ndvs fieldsIds hread, ?_, fun i => ?_⟩
  · intro other others hothers hperm hdeletes
    rw [computeColumnStats_eq datumToScalar ndvs fieldsIds hothers, hdeletes]
    simp only [mergeFiles_perm _ hperm]
  · exact (describes_mergeFiles datumToScalar (fieldsIds i) _).finish _ _

end reading

/-- Two files that are alive, with a null count and a lower bound. -/
def twoFiles : ManifestList ℕ :=
  let file (nulls bound : ℕ) : DataFile ℕ :=
    ⟨fun _ => some nulls, fun _ => some bound, fun _ => none, fun _ => some 8⟩
  let entries := [⟨.data, .ok [⟨true, file 2 7⟩, ⟨false, file 9 0⟩]⟩, ⟨.data, .ok []⟩,
    ⟨.data, .ok [⟨true, file 3 4⟩]⟩]
  ⟨entries, entries, .refl _⟩

theorem column_stats_of_two_files :
    ∃ stats, computeColumnStats some (fun _ => none) ![1] (some (.ok twoFiles)) = .ok stats ∧
      computeColumnStats some (fun _ => none) ![1] (some (.ok ⟨twoFiles.entries,
        twoFiles.completed.reverse, (List.reverse_perm _).trans twoFiles.perm⟩)) = .ok stats ∧
      (stats 0).nullCount = .exact 5 ∧ (stats 0).minValue = .inexact 4 ∧
      (stats 0).maxValue = .absent := by
  have hread : twoFiles.completed.mapM ManifestFile.read = .ok _ := rfl
  obtain ⟨stats, hstats, hsame, -⟩ := column_stats_sound some (fun _ => none) ![1] hread
  refine ⟨stats, hstats, hsame _ _ rfl ((List.reverse_perm _).flatMap_right _) rfl, ?_⟩
  cases hstats
  exact ⟨rfl, rfl, rfl⟩

end DatafusionDistributed.Iceberg
