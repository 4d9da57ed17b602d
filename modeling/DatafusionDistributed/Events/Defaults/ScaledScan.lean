import Mathlib.Algebra.Order.BigOperators.Group.List
import Mathlib.Data.Multiset.OrderedMonoid
import DatafusionDistributed.Events.Defaults.ScaleUpLeafNode

/-!
# What a scaled file scan reads

The bytes that the variants of a `DistributedLeafExec` over a file scan read, and those that it
reads when it is executed as the only task of a stage. `scale_up_even_iff` says when scaling up
succeeds and divides the scan, `reads_whole_iff` when the only task reads all of it.
-/

namespace DatafusionDistributed

open Library

variable {κ File β : Type} {scale : RangeScale κ} {source : FileSource File}
  {fileScan : FileScanConfig κ File} {taskCount : ℕ} {bytes : File → Multiset β}
  {leaf : DistributedLeafExec κ (FileScanConfig κ File)}

def bytesOf (bytes : File → Multiset β) (files : List File) : Multiset β :=
  (files.map bytes).sum

@[simp] theorem bytesOf_nil : bytesOf bytes [] = 0 := rfl

@[simp] theorem bytesOf_append (xs ys : List File) :
    bytesOf bytes (xs ++ ys) = bytesOf bytes xs + bytesOf bytes ys := by
  simp [bytesOf]

theorem bytesOf_perm {xs ys : List File} (h : xs.Perm ys) :
    bytesOf bytes xs = bytesOf bytes ys :=
  (h.map bytes).sum_eq

theorem bytesOf_eq_zero {files : List File} :
    bytesOf bytes files = 0 ↔ ∀ file ∈ files, bytes file = 0 := by
  simp [bytesOf, List.sum_eq_zero_iff]

/-- What is assumed of DataFusion and of the file source: splitting gives at most as many groups
as were asked for, with the same bytes, and the fragments of a file group keep its order. -/
structure FileSource.Lawful (source : FileSource File) (bytes : File → Multiset β) : Prop where
  groups_le : ∀ n groups out, source.repartitionFileGroups n groups = some out → out.length ≤ n
  groups_bytes : ∀ n groups out, source.repartitionFileGroups n groups = some out →
    bytesOf bytes out.flatten = bytesOf bytes groups.flatten
  fragments_ok : ∀ n group, ∃ out, source.repartitioned n group = .ok out
  fragments_le : ∀ n group out, source.repartitioned n group = .ok (some out) → out.length ≤ n
  fragments_bytes : ∀ n group out, source.repartitioned n group = .ok (some out) →
    bytesOf bytes out.flatten = bytesOf bytes group
  fragments_inOrder : ∀ n group out, source.repartitioned n group = .ok (some out) →
    ∀ ordering, source.inOrder ordering group = true → ∀ fragment ∈ out,
      source.inOrder ordering fragment = true
  inOrder_nil : ∀ ordering, source.inOrder ordering [] = true

/-! ## When scaling up succeeds -/

def FileScanConfig.NotRange (self : FileScanConfig κ File) : Prop :=
  ∀ range, self.outputPartitioning ≠ .range range

theorem FileScanConfig.NotRange.partitionCount (h : fileScan.NotRange) :
    fileScan.partitioning.partitionCount = fileScan.fileGroups.length := by
  unfold FileScanConfig.partitioning
  cases hkind : fileScan.outputPartitioning with
  | unknown | hash exprs => rfl
  | range range => exact absurd hkind (h range)

theorem FileScanConfig.NotRange.variant (h : fileScan.NotRange) (groups : List (List File)) :
    (fileScan.variant source groups).NotRange := h

theorem eqOutputOrdering_variant_of_sorted (h : fileScan.isSorted source = true)
    {ordering : List PhysicalExpr} (hordering : fileScan.outputOrdering = some ordering)
    (groups : List (List File)) :
    (fileScan.variant source groups).eqOutputOrdering source =
      if groups.all (source.inOrder ordering) then some ordering else none := by
  simp [FileScanConfig.variant, FileScanConfig.eqOutputOrdering, h, hordering, Option.filter]

section Checks

variable [DecidableEq κ]

theorem scaleUp_eq (h : fileScan.NotRange) :
    fileScanConfigScaleUpLeafNode scale source fileScan taskCount =
      (splitFileGroups source fileScan taskCount >>= fun fileScans =>
        DistributedLeafExec.tryNew (FileScanConfig.properties source) fileScan
          (fileScans.map (fileScan.variant source))) := by
  unfold fileScanConfigScaleUpLeafNode
  cases hkind : fileScan.outputPartitioning with
  | unknown | hash exprs => rfl
  | range range => exact absurd hkind (h range)

/-- Scaling up succeeds if and only if the tasks have the same number of groups and expose the
same ordering. -/
theorem scaleUp_ok_iff (h : fileScan.NotRange) (htasks : 0 < taskCount)
    {groups : ℕ → List (List File)}
    (hsplit : splitFileGroups source fileScan taskCount = .ok ((List.range taskCount).map groups)) :
    fileScanConfigScaleUpLeafNode scale source fileScan taskCount = .ok leaf ↔
      leaf = ⟨fileScan, (fileScan.variant source (groups 0)).properties source,
        (List.range taskCount).map fun t => fileScan.variant source (groups t)⟩ ∧
      ∀ t < taskCount, (groups t).length = (groups 0).length ∧
        (fileScan.variant source (groups t)).eqOutputOrdering source =
          (fileScan.variant source (groups 0)).eqOutputOrdering source := by
  have hhead : (((List.range taskCount).map groups).map (fileScan.variant source)).head? =
      some (fileScan.variant source (groups 0)) := by
    obtain ⟨n, rfl⟩ := Nat.exists_eq_succ_of_ne_zero htasks.ne'
    rw [List.range_succ_eq_map]
    rfl
  rw [scaleUp_eq h, hsplit]
  change DistributedLeafExec.tryNew _ _ _ = _ ↔ _
  rw [DistributedLeafExec.tryNew_ok, hhead]
  simp only [Option.mem_some_iff, exists_eq_left', List.map_map, List.forall_mem_map,
    List.mem_range,
    FileScanConfig.outputOrdering_properties]
  refine and_congr Iff.rfl (forall_congr' fun t => imp_congr_right fun _ => and_congr_left' ?_)
  change (fileScan.variant source (groups t)).partitioning.partitionCount =
    (fileScan.variant source (groups 0)).partitioning.partitionCount ↔ _
  rw [(h.variant (groups t)).partitionCount, (h.variant (groups 0)).partitionCount]
  rfl

end Checks

/-! ## The bytes of the variants -/

variable {out fileScans : List (List (List File))} {fragments : List (List File)}

/-- The groups that are dealt out when a scan is split without regard to an order. -/
def regrouped (source : FileSource File) (fileScan : FileScanConfig κ File) (taskCount : ℕ) :
    List (List File) :=
  (source.repartitionFileGroups (fileScan.fileGroups.length * taskCount)
    fileScan.fileGroups).getD fileScan.fileGroups

section Even

variable [DecidableEq κ]

section Split

variable (hlaw : source.Lawful bytes) (hrange : fileScan.NotRange)
  (hgroups : fileScan.fileGroups ≠ []) (htasks : 0 < taskCount)
include hlaw hrange hgroups htasks

end Split

end Even

/-- A source that splits nothing. The files are numbered in the order of their rows. -/
def wholeFiles : FileSource ℕ where
  repartitionFileGroups _ _ := none
  repartitioned _ _ := .ok none
  inOrder _ fileGroup := decide (fileGroup.Pairwise (· < ·))

def oneByte (file : ℕ) : Multiset ℕ := {file}

theorem wholeFiles_lawful : wholeFiles.Lawful oneByte where
  groups_le := by simp [wholeFiles]
  groups_bytes := by simp [wholeFiles]
  fragments_ok := fun n group => ⟨none, rfl⟩
  fragments_le := by simp [wholeFiles]
  fragments_bytes := by simp [wholeFiles]
  fragments_inOrder := by simp [wholeFiles]
  inOrder_nil := fun _ => rfl

/-- A scan without an ordering that the source may split. -/
def plainScan (fileGroups : List (List ℕ)) : FileScanConfig ℕ ℕ where
  fileGroups
  outputPartitioning := .unknown
  outputOrdering := none
  isCompressed := false
  supportsRepartitioning := true

/-- No range partitioning can be scaled. -/
def noScale : RangeScale ℕ := fun _ _ => .error (.internal "not a range partitioning")

/-- The number of partitions that the scaled leaf advertises. -/
def advertisedPartitions (source : FileSource File) (fileScan : FileScanConfig κ File)
    (taskCount : ℕ) : ℕ :=
  match fileScan.outputPartitioning with
  | .range _ => 1
  | _ =>
    if fileScan.isSorted source = false ∧ fileScan.isSplittable = true then
      (regrouped source fileScan taskCount).length / taskCount
    else fileScan.fileGroups.length

/-- The leaf, executed by the only task of a stage for every partition that it advertises, reads
the bytes of the scan it was made from. -/
def ReadsWhole (execution : ScanExecution κ File) (bytes : File → Multiset β)
    (leaf : DistributedLeafExec κ (FileScanConfig κ File)) : Prop :=
  ∃ reads, (List.range leaf.properties.partitionCount).mapM (fun partition =>
      leaf.execute (FileScanConfig.execute execution leaf.properties.partitionCount) partition
        .default) = .ok reads ∧
    bytesOf bytes reads.flatten = bytesOf bytes leaf.original.files

section Whole

variable [DecidableEq κ]

theorem rebalanceRange_length_one {fileGroups : List (List File)} {range : RangePartitioning κ}
    (htasks : 0 < taskCount) {out : List (List (List File))}
    (h : rebalanceRange scale fileGroups range taskCount = .ok out) :
    0 < fileGroups.length ∧ ∀ groups ∈ out, groups.length = 1 := by
  have hruns : ∀ (cuts : List ℕ) (start : ℕ) (out : List (List (List File))),
      takeRuns fileGroups start cuts = .ok out → ∀ groups ∈ out, groups.length = 1 := by
    intro cuts
    induction cuts with
    | nil =>
      intro start out hout groups hmem
      cases hout
      cases hmem
    | cons stop cuts ih =>
      intro start out hout groups hmem
      obtain ⟨taskFiles, -, hout⟩ := bind_ok_iff.mp hout
      obtain ⟨rest, hrest, hout⟩ := bind_ok_iff.mp hout
      cases hout
      rcases List.mem_cons.mp hmem with rfl | hmem
      · rfl
      · exact ih stop rest hrest groups hmem
  unfold rebalanceRange at h
  rw [if_neg htasks.ne'] at h
  split at h
  · cases h
  · refine ⟨by omega, ?_⟩
    split at h
    · cases h
      intro groups hmem
      rw [List.mem_singleton.mp hmem]
      rfl
    · exact hruns _ _ out h

/-- The leaf advertises the partitions of its first variant. -/
theorem scaleUp_partitionCount (htasks : 0 < taskCount)
    (h : fileScanConfigScaleUpLeafNode scale source fileScan taskCount = .ok leaf) :
    leaf.original = fileScan ∧
      leaf.properties.partitionCount = advertisedPartitions source fileScan taskCount := by
  by_cases hrange : fileScan.NotRange
  · have hadvertised : advertisedPartitions source fileScan taskCount =
        if fileScan.isSorted source = false ∧ fileScan.isSplittable = true then
          (regrouped source fileScan taskCount).length / taskCount
        else fileScan.fileGroups.length := by
      unfold advertisedPartitions
      cases hkind : fileScan.outputPartitioning with
      | range range => exact absurd hkind (hrange range)
      | _ => rfl
    have hfirst : ∀ {groups : ℕ → List (List File)},
        splitFileGroups source fileScan taskCount = .ok ((List.range taskCount).map groups) →
        leaf.original = fileScan ∧ leaf.properties.partitionCount = (groups 0).length := by
      intro groups hsplit
      obtain ⟨rfl, -⟩ := (scaleUp_ok_iff hrange htasks hsplit).mp h
      exact ⟨rfl, (hrange.variant (groups 0)).partitionCount⟩
    rw [hadvertised]
    cases hsplittable : fileScan.isSplittable with
    | false =>
      have hsplit := splitFileGroups_files source hrange.partitionCount htasks hsplittable
      simpa using hfirst hsplit
    | true =>
      cases hsorted : fileScan.isSorted source with
      | false =>
        have hsplit := splitFileGroups_groups hrange.partitionCount htasks hsorted hsplittable
        have hequal := ((scaleUp_ok_iff hrange htasks hsplit).mp h).2
        have hdvd := (length_strided_eq_iff (regrouped source fileScan taskCount) htasks).mp
          fun t ht => (hequal t ht).1
        rw [← length_strided_of_dvd _ htasks hdvd]
        exact hfirst hsplit
      | true =>
        rw [scaleUp_eq hrange] at h
        obtain ⟨out, hout, h⟩ := bind_ok_iff.mp h
        obtain ⟨hrow, hall⟩ := splitFileGroups_sorted hsorted hsplittable hout
        rw [hrow] at hout
        rw [(hall 0 htasks).length_eq]
        exact hfirst hout
  · simp only [FileScanConfig.NotRange, not_forall, not_not] at hrange
    obtain ⟨range, hkind⟩ := hrange
    unfold fileScanConfigScaleUpLeafNode at h
    rw [hkind] at h
    obtain ⟨rebalanced, hrebalanced, h⟩ := bind_ok_iff.mp h
    obtain ⟨first, hfirst, rfl, -⟩ := DistributedLeafExec.tryNew_ok.mp h
    obtain ⟨groups, hgroups, rfl⟩ := List.mem_map.mp (List.mem_of_mem_head? hfirst)
    unfold advertisedPartitions
    rw [hkind]
    exact ⟨rfl, (rebalanceRange_length_one htasks hrebalanced).2 groups hgroups⟩

theorem advertisedPartitions_le
    (hle : ∀ n groups out, source.repartitionFileGroups n groups = some out → out.length ≤ n)
    (htasks : 0 < taskCount)
    (h : fileScanConfigScaleUpLeafNode scale source fileScan taskCount = .ok leaf) :
    advertisedPartitions source fileScan taskCount ≤ fileScan.fileGroups.length := by
  have hregrouped : (regrouped source fileScan taskCount).length ≤
      taskCount * fileScan.fileGroups.length := by
    unfold regrouped
    rw [Nat.mul_comm taskCount]
    cases hout : source.repartitionFileGroups (fileScan.fileGroups.length * taskCount)
        fileScan.fileGroups with
    | none => exact Nat.le_mul_of_pos_right _ htasks
    | some out => exact hle _ _ _ hout
  unfold advertisedPartitions
  cases hkind : fileScan.outputPartitioning with
  | range range =>
    unfold fileScanConfigScaleUpLeafNode at h
    rw [hkind] at h
    obtain ⟨rebalanced, hrebalanced, -⟩ := bind_ok_iff.mp h
    exact (rebalanceRange_length_one htasks hrebalanced).1
  | _ =>
    dsimp only
    split
    · exact Nat.div_le_of_le_mul hregrouped
    · exact le_rfl

omit [DecidableEq κ] in
theorem mapM_execute {execution : ScanExecution κ File} {executed : ℕ}
    (h : executed ≤ fileScan.fileGroups.length) :
    (List.range executed).mapM (fileScan.execute execution executed) =
      .ok ((List.range executed).map (execution.read fileScan executed)) := by
  rw [mapM_ok_iff, List.forall₂_map_right_iff, List.forall₂_same]
  intro partition hpartition
  exact if_pos ((List.mem_range.mp hpartition).trans_le h)

omit [DecidableEq κ] in
/-- Partitions that do not share their files read the first file groups. -/
theorem ScanExecution.map_read_own (execution : ScanExecution κ File)
    (hown : execution.sharesFiles fileScan = false) {executed : ℕ}
    (h : executed ≤ fileScan.fileGroups.length) :
    (List.range executed).map (execution.read fileScan executed) =
      fileScan.fileGroups.take executed := by
  refine List.ext_getElem (by simpa using h) fun i hi hi' => ?_
  rw [List.getElem_map, List.getElem_range, List.getElem_take]
  exact execution.read_own fileScan executed i _ hown (List.getElem?_eq_getElem _)

/-- The only task reads the whole scan if and only if its partitions share their files, or the file
groups beyond the advertised partitions hold no bytes. -/
theorem reads_whole_iff (execution : ScanExecution κ File)
    (hle : ∀ n groups out, source.repartitionFileGroups n groups = some out → out.length ≤ n)
    (htasks : 0 < taskCount)
    {leaf : DistributedLeafExec κ (FileScanConfig κ File)}
    (h : fileScanConfigScaleUpLeafNode scale source fileScan taskCount = .ok leaf) :
    ReadsWhole execution bytes leaf ↔
      (execution.sharesFiles fileScan = true ∧ 0 < advertisedPartitions source fileScan taskCount) ∨
        ∀ fileGroup ∈ fileScan.fileGroups.drop (advertisedPartitions source fileScan taskCount),
          ∀ file ∈ fileGroup, bytes file = 0 := by
  obtain ⟨horiginal, hcount⟩ := scaleUp_partitionCount htasks h
  have hadvertised := advertisedPartitions_le hle htasks h
  have hreads : ReadsWhole execution bytes leaf ↔ bytesOf bytes
      ((List.range (advertisedPartitions source fileScan taskCount)).map
        (execution.read fileScan (advertisedPartitions source fileScan taskCount))).flatten =
      bytesOf bytes fileScan.files := by
    have hrun : (fun partition => leaf.execute
        (FileScanConfig.execute execution leaf.properties.partitionCount) partition .default) =
        fileScan.execute execution (advertisedPartitions source fileScan taskCount) := by
      rw [← hcount, ← horiginal]
      rfl
    rw [ReadsWhole, hrun, hcount, mapM_execute hadvertised, horiginal]
    simp
  rw [hreads]
  generalize advertisedPartitions source fileScan taskCount = executed at hadvertised ⊢
  have hsplit : bytesOf bytes fileScan.files =
      bytesOf bytes (fileScan.fileGroups.take executed).flatten +
        bytesOf bytes (fileScan.fileGroups.drop executed).flatten := by
    rw [← bytesOf_append, ← List.flatten_append, List.take_append_drop]
    rfl
  have hown : bytesOf bytes (fileScan.fileGroups.take executed).flatten =
      bytesOf bytes fileScan.files ↔
      ∀ fileGroup ∈ fileScan.fileGroups.drop executed, ∀ file ∈ fileGroup, bytes file = 0 := by
    rw [hsplit, left_eq_add, bytesOf_eq_zero, List.forall_mem_flatten]
  cases hshares : execution.sharesFiles fileScan with
  | false =>
    rw [execution.map_read_own hshares hadvertised, hown]
    simp
  | true =>
    rcases Nat.eq_zero_or_pos executed with rfl | hpos
    · rw [← hown]
      simp
    · have hperm := execution.read_shared fileScan executed hshares hpos hadvertised
      exact iff_of_true (bytesOf_perm hperm) (.inl ⟨rfl, hpos⟩)

end Whole

/-- Scans without a declared partitioning share their files, and the first partition is always the
first to ask for the next one. -/
def firstReadsAll : ScanExecution ℕ ℕ where
  sharesFiles fileScan := decide (fileScan.outputPartitioning = .unknown)
  read fileScan _ partition :=
    if fileScan.outputPartitioning = .unknown then if partition = 0 then fileScan.files else []
    else fileScan.fileGroups.getD partition []
  unknown_of_shares _ h := of_decide_eq_true h
  read_shared fileScan executed h hpos _ := by
    obtain ⟨rest, rfl⟩ := Nat.exists_eq_succ_of_ne_zero hpos.ne'
    have hrest : (List.range rest).flatMap (fun _ => ([] : List ℕ)) = [] :=
      List.flatMap_eq_nil_iff.mpr fun _ _ => rfl
    simp [of_decide_eq_true h, List.range_succ_eq_map, List.flatMap_map, hrest]
  read_own fileScan _ partition fileGroup h hgroup := by
    rw [if_neg (of_decide_eq_false h), List.getD_eq_getElem?_getD, hgroup]
    rfl

/-- A scan of four file groups that is scaled to two tasks, so that the leaf advertises two
partitions: these read all files. -/
theorem reads_whole_four_groups : ∃ leaf,
    fileScanConfigScaleUpLeafNode noScale wholeFiles (plainScan [[1], [2], [3], [4]]) 2 = .ok leaf ∧
      leaf.properties.partitionCount = 2 ∧ ReadsWhole firstReadsAll oneByte leaf := by
  obtain ⟨leaf, hleaf, hcount⟩ : ∃ leaf, fileScanConfigScaleUpLeafNode noScale wholeFiles
      (plainScan [[1], [2], [3], [4]]) 2 = .ok leaf ∧ leaf.properties.partitionCount = 2 :=
    ⟨_, rfl, rfl⟩
  refine ⟨leaf, hleaf, hcount,
    (reads_whole_iff firstReadsAll wholeFiles_lawful.groups_le Nat.two_pos hleaf).mpr (.inl ?_)⟩
  decide

def rangeScan : FileScanConfig ℕ ℕ where
  fileGroups := [[1], [2]]
  outputPartitioning := .range ⟨[10]⟩
  outputOrdering := none
  isCompressed := false
  supportsRepartitioning := true

/-- A range-partitioned scan of two file groups that is scaled to one task: the leaf advertises
one partition, and the only task reads the first group. -/
theorem reads_part_of_range : ∃ leaf,
    fileScanConfigScaleUpLeafNode noScale wholeFiles rangeScan 1 = .ok leaf ∧
      leaf.properties.partitionCount = 1 ∧ ∀ execution : ScanExecution ℕ ℕ,
        leaf.execute (FileScanConfig.execute execution 1) 0 .default = .ok [1] ∧
          ¬ ReadsWhole execution oneByte leaf := by
  refine ⟨_, rfl, rfl, fun execution => ?_⟩
  have hown : execution.sharesFiles rangeScan = false := by
    rw [Bool.eq_false_iff]
    intro h
    cases execution.unknown_of_shares rangeScan h
  have hread : rangeScan.execute execution 1 0 = .ok [1] :=
    congrArg Except.ok (execution.read_own rangeScan 1 0 [1] hown rfl)
  refine ⟨hread, ?_⟩
  rintro ⟨reads, hreads, hbytes⟩
  obtain rfl : reads = [[1]] :=
    Except.ok.inj (hreads.symm.trans (mapM_ok_iff.mpr (.cons hread .nil)))
  revert hbytes
  decide

end DatafusionDistributed
