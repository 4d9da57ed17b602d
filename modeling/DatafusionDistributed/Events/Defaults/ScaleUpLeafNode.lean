import DatafusionDistributed.Events.Defaults.FileScanConfig
import DatafusionDistributed.ExecutionPlans.DistributedLeaf
import DatafusionDistributed.Library.RoundRobin

/-!
# Scaling up a file scan

`file_scan_config_scale_up_leaf_node` divides the file groups of a scan among the tasks of a
stage. A range-partitioned scan is cut into runs of groups. Of the other scans, one that cannot be
split, or that is partitioned already, has its files dealt out one by one; a sorted one has every
group split into one fragment for each task; the rest is handed to DataFusion's splitter, and the
groups that come back are dealt out.

How DataFusion and the file source split files, how DataFusion executes a scan, and what the
statistics of the files say about their order, are parameters.
-/

namespace DatafusionDistributed

open Library

variable {κ File : Type}

/-- What a scan says about its partitions. The partitions are the file groups in any case, so the
number of them is not repeated here. -/
inductive ScanPartitioning (κ : Type) where
  /-- None is declared, or one that says nothing about the rows. -/
  | unknown
  | hash (exprs : List PhysicalExpr)
  | range (range : RangePartitioning κ)
  deriving DecidableEq, Repr

/-- The part of `FileScanConfig` that is read here. -/
structure FileScanConfig (κ File : Type) where
  fileGroups : List (List File)
  outputPartitioning : ScanPartitioning κ
  /-- The declared ordering of every file group. -/
  outputOrdering : Option (List PhysicalExpr)
  isCompressed : Bool
  supportsRepartitioning : Bool

/-- What is known of DataFusion and of the file source. -/
structure FileSource (File : Type) where
  /-- `FileGroupPartitioner::repartition_file_groups`, for a number of target partitions. -/
  repartitionFileGroups : ℕ → List (List File) → Option (List (List File))
  /-- `FileSource::repartitioned` of a scan with one file group. -/
  repartitioned : ℕ → List File → Result (Option (List (List File)))
  /-- Whether the statistics show that a file group, read file by file, has an ordering. -/
  inOrder : List PhysicalExpr → List File → Bool

namespace FileScanConfig

/-- `output_ordering` of the equivalence properties: the declared one, if the statistics confirm
it for every file group. -/
def eqOutputOrdering (source : FileSource File) (self : FileScanConfig κ File) :
    Option (List PhysicalExpr) :=
  self.outputOrdering.filter fun ordering => self.fileGroups.all (source.inOrder ordering)

/-- The method `output_partitioning`. -/
def partitioning (self : FileScanConfig κ File) : Partitioning κ :=
  match self.outputPartitioning with
  | .unknown => .unknownPartitioning self.fileGroups.length
  | .hash exprs => .hash exprs self.fileGroups.length
  | .range range => .range range

/-- The properties of a `DataSourceExec` over the scan. -/
def properties (source : FileSource File) (self : FileScanConfig κ File) : PlanProperties κ where
  eqProperties := { orderings := (self.eqOutputOrdering source).toList }
  partitioning := self.partitioning

@[simp] theorem outputOrdering_properties (source : FileSource File)
    (self : FileScanConfig κ File) :
    (self.properties source).eqProperties.outputOrdering = self.eqOutputOrdering source :=
  EquivalenceProperties.outputOrdering_toList _

def files (self : FileScanConfig κ File) : List File :=
  self.fileGroups.flatten

def isSorted (source : FileSource File) (self : FileScanConfig κ File) : Bool :=
  (self.eqOutputOrdering source).isSome

def isPrePartitioned (self : FileScanConfig κ File) : Bool :=
  match self.partitioning with
  | .unknownPartitioning _ | .roundRobinBatch _ => false
  | _ => true

/-- `supports_repartitioning`, as far as the scan and its file source go. -/
def isSplittable (self : FileScanConfig κ File) : Bool :=
  let supportsByteRangePartitioning := !self.isCompressed && self.supportsRepartitioning
  supportsByteRangePartitioning && !self.isPrePartitioned

end FileScanConfig

/-- How DataFusion executes scans. The partitions of some scans take their files from a common
queue, so that what a partition reads depends on how many of them are executed. Those of the other
scans read their own file groups. -/
structure ScanExecution (κ File : Type) where
  sharesFiles : FileScanConfig κ File → Bool
  /-- The files that a partition reads when the partitions below `executed` are executed. -/
  read : FileScanConfig κ File → (executed partition : ℕ) → List File
  unknown_of_shares : ∀ fileScan, sharesFiles fileScan = true →
    fileScan.outputPartitioning = .unknown
  read_shared : ∀ fileScan executed, sharesFiles fileScan = true → 0 < executed →
    executed ≤ fileScan.fileGroups.length →
    ((List.range executed).flatMap (read fileScan executed)).Perm fileScan.files
  read_own : ∀ fileScan executed partition fileGroup, sharesFiles fileScan = false →
    fileScan.fileGroups[partition]? = some fileGroup → read fileScan executed partition = fileGroup

/-- The files that executing a partition reads, as one of the partitions below `executed`. -/
def FileScanConfig.execute (execution : ScanExecution κ File) (executed : ℕ)
    (self : FileScanConfig κ File) (partition : ℕ) : Result (List File) :=
  if partition < self.fileGroups.length then .ok (execution.read self executed partition)
  else .error (.panic "index out of bounds")

/-- `file_scan_template` with the given file groups. If the scan exposes no ordering, the declared
one is cleared, because the groups of some tasks might regain it. -/
def FileScanConfig.variant (source : FileSource File) (fileScan : FileScanConfig κ File)
    (fileGroups : List (List File)) : FileScanConfig κ File :=
  { fileScan with
    fileGroups
    outputOrdering := if fileScan.isSorted source then fileScan.outputOrdering else none }

/-- `for (i, file_group) in rebalanced.into_iter().enumerate()`: the groups of every task. -/
def dealGroups (taskCount : ℕ) (rebalanced : List (List File)) :
    Result (List (List (List File))) :=
  if taskCount = 0 ∧ rebalanced ≠ [] then
    .error (.panic "attempt to calculate the remainder with a divisor of zero")
  else .ok (roundRobin taskCount rebalanced)

/-- The fragments of one file group, one for each task. -/
def fragmentsOf (source : FileSource File) (taskCount : ℕ) (fileGroup : List File) :
    Result (List (List File)) := do
  let repartitioned ← source.repartitioned taskCount fileGroup
  let fragments := repartitioned.getD [fileGroup]
  let length := fragments.length
  if taskCount < length then
    .error (.plan s!"File source returned {length} groups for {taskCount} requested partitions")
  else return fragments ++ List.replicate (taskCount - length) []

/-- One turn of the loop over the file groups of a sorted scan. -/
def pushFragments (source : FileSource File) (taskCount : ℕ) (fileScans : List (List (List File)))
    (fileGroup : List File) : Result (List (List (List File))) := do
  let fragments ← fragmentsOf source taskCount fileGroup
  return List.zipWith (fun fileGroups fragment => fileGroups ++ [fragment]) fileScans fragments

/-- The file groups of every task, for a scan that is not range-partitioned. -/
def splitFileGroups (source : FileSource File) (fileScan : FileScanConfig κ File)
    (taskCount : ℕ) : Result (List (List (List File))) :=
  let partitionCount := fileScan.partitioning.partitionCount
  match fileScan.isSorted source, fileScan.isSplittable with
  | _, false => dealGroups taskCount (roundRobin (partitionCount * taskCount) fileScan.files)
  | true, true =>
    fileScan.fileGroups.foldlM (pushFragments source taskCount) (List.replicate taskCount [])
  | false, true =>
    dealGroups taskCount ((source.repartitionFileGroups (partitionCount * taskCount)
      fileScan.fileGroups).getD fileScan.fileGroups)

def fileScanConfigScaleUpLeafNode [DecidableEq κ] (scale : RangeScale κ) (source : FileSource File)
    (fileScan : FileScanConfig κ File) (taskCount : ℕ) :
    Result (DistributedLeafExec κ (FileScanConfig κ File)) := do
  match fileScan.outputPartitioning with
  | .range range =>
    let rebalanced ← rebalanceRange scale fileScan.fileGroups range taskCount
    DistributedLeafExec.tryNew (FileScanConfig.properties source) fileScan
      (rebalanced.map fun fileGroups =>
        { fileScan with outputPartitioning := .unknown, fileGroups })
  | _ =>
    let fileScans ← splitFileGroups source fileScan taskCount
    DistributedLeafExec.tryNew (FileScanConfig.properties source) fileScan
      (fileScans.map (fileScan.variant source))

/-! ## The groups of every task -/

section Split

variable {source : FileSource File} {fileScan : FileScanConfig κ File} {taskCount : ℕ}

theorem dealGroups_eq (htasks : 0 < taskCount) (rebalanced : List (List File)) :
    dealGroups taskCount rebalanced =
      .ok ((List.range taskCount).map (strided rebalanced taskCount)) := by
  rw [dealGroups, if_neg (by omega), roundRobin_eq]

/-- A scan that is not split: file `i` goes to group `i % (p * T)`, and group `g` to task
`g % T`. -/
theorem splitFileGroups_files (source : FileSource File)
    (hcount : fileScan.partitioning.partitionCount = fileScan.fileGroups.length)
    (htasks : 0 < taskCount) (h : fileScan.isSplittable = false) :
    splitFileGroups source fileScan taskCount =
      .ok ((List.range taskCount).map fun t => (List.range fileScan.fileGroups.length).map fun k =>
        strided fileScan.files (fileScan.fileGroups.length * taskCount) (k * taskCount + t)) := by
  have hsplit : splitFileGroups source fileScan taskCount = dealGroups taskCount
      (roundRobin (fileScan.fileGroups.length * taskCount) fileScan.files) := by
    unfold splitFileGroups
    rw [h, hcount]
  rw [hsplit, dealGroups_eq htasks, roundRobin_eq]
  refine congrArg Except.ok (List.map_congr_left fun t ht => ?_)
  exact strided_map_range _ _ (List.mem_range.mp ht)

/-- A scan that is split without regard to an order. -/
theorem splitFileGroups_groups
    (hcount : fileScan.partitioning.partitionCount = fileScan.fileGroups.length)
    (htasks : 0 < taskCount) (hsorted : fileScan.isSorted source = false)
    (h : fileScan.isSplittable = true) :
    splitFileGroups source fileScan taskCount =
      .ok ((List.range taskCount).map (strided ((source.repartitionFileGroups
        (fileScan.fileGroups.length * taskCount) fileScan.fileGroups).getD
          fileScan.fileGroups) taskCount)) := by
  rw [← dealGroups_eq htasks]
  unfold splitFileGroups
  rw [h, hsorted, hcount]

/-- A sorted scan that is split: a loop over its file groups. -/
theorem splitFileGroups_fragments (hsorted : fileScan.isSorted source = true)
    (h : fileScan.isSplittable = true) :
    splitFileGroups source fileScan taskCount =
      fileScan.fileGroups.foldlM (pushFragments source taskCount)
        (List.replicate taskCount []) := by
  unfold splitFileGroups
  rw [h, hsorted]

def IsFragment (source : FileSource File) (taskCount : ℕ) (fileGroup fragment : List File) : Prop :=
  ∃ fragments, fragmentsOf source taskCount fileGroup = .ok fragments ∧ fragment ∈ fragments

theorem fragmentsOf_length {fileGroup : List File} {fragments : List (List File)}
    (h : fragmentsOf source taskCount fileGroup = .ok fragments) :
    fragments.length = taskCount := by
  obtain ⟨repartitioned, -, h⟩ := bind_ok_iff.mp h
  obtain ⟨hcheck, h⟩ := ite_error_ok_iff.mp h
  cases h
  rw [List.length_append, List.length_replicate]
  omega

/-- What the loop over the file groups of a sorted scan adds to the scan of every task: one
fragment of every group. -/
theorem foldlM_pushFragments {fileGroups : List (List File)}
    {fileScans out : List (List (List File))}
    (hlength : fileScans.length = taskCount)
    (h : fileGroups.foldlM (pushFragments source taskCount) fileScans = .ok out) :
    out.length = taskCount ∧ ∀ (t : ℕ) (scan : List (List File)), fileScans[t]? = some scan →
      ∃ added, out[t]? = some (scan ++ added) ∧
        List.Forall₂ (IsFragment source taskCount) fileGroups added := by
  induction fileGroups generalizing fileScans with
  | nil =>
    cases h
    exact ⟨hlength, fun t scan hscan => ⟨[], by rw [List.append_nil]; exact hscan, .nil⟩⟩
  | cons fileGroup fileGroups ih =>
    rw [List.foldlM_cons, bind_ok_iff] at h
    obtain ⟨next, hnext, hrest⟩ := h
    obtain ⟨fragments, hfragments, hnext⟩ := bind_ok_iff.mp hnext
    cases hnext
    have hcount := fragmentsOf_length hfragments
    obtain ⟨hout, hadds⟩ := ih (by rw [List.length_zipWith, hlength, hcount, Nat.min_self]) hrest
    refine ⟨hout, fun t scan hscan => ?_⟩
    obtain ⟨hlt, -⟩ := List.getElem?_eq_some_iff.mp hscan
    have hfragment := List.getElem?_eq_getElem (show t < fragments.length by omega)
    obtain ⟨added, hadded, hall⟩ := hadds t (scan ++ [fragments[t]]) (by
      rw [List.getElem?_zipWith, hscan, hfragment])
    refine ⟨fragments[t] :: added, ?_, .cons ⟨fragments, hfragments, List.getElem_mem _⟩ hall⟩
    rw [hadded, List.append_assoc, List.singleton_append]

/-- The groups of a task, for a sorted scan that is split. -/
theorem splitFileGroups_sorted (hsorted : fileScan.isSorted source = true)
    (hsplittable : fileScan.isSplittable = true) {out : List (List (List File))}
    (h : splitFileGroups source fileScan taskCount = .ok out) :
    out = (List.range taskCount).map (fun t => out.getD t []) ∧ ∀ t < taskCount,
      List.Forall₂ (IsFragment source taskCount) fileScan.fileGroups (out.getD t []) := by
  rw [splitFileGroups_fragments hsorted hsplittable] at h
  obtain ⟨hlength, hadds⟩ := foldlM_pushFragments List.length_replicate h
  constructor
  · apply List.ext_getElem
    · simp [hlength]
    · intro t ht _
      simp [List.getElem?_eq_getElem ht]
  · intro t ht
    obtain ⟨added, hadded, hall⟩ := hadds t [] (by simp [ht])
    rw [List.getD_eq_getElem?_getD, hadded]
    exact hall

end Split

end DatafusionDistributed
