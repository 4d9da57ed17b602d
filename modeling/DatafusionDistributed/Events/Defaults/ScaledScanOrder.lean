import Mathlib.Data.Nat.ModEq
import DatafusionDistributed.Events.Defaults.ScaledScan

/-!
# What scaling up does to the order and the place of the rows

A scan that cannot be split, or that is partitioned by a hash, has its files dealt out one by one,
without regard to the file groups they come from. `sorted_pieces_iff` says when the groups of the
tasks are still pieces of single groups of the scan, and `hash_alignment_iff` when the groups of a
hash partitioning stay together and in their places.
-/

namespace DatafusionDistributed

open Library

variable {κ File ρ : Type}

/-! ## The files with their groups -/

def numberedFiles (fileGroups : List (List File)) : List (ℕ × File) :=
  fileGroups.zipIdx.flatMap fun group => group.1.map fun file => (group.2, file)

theorem numberedFiles_append_singleton (fileGroups : List (List File)) (fileGroup : List File) :
    numberedFiles (fileGroups ++ [fileGroup]) =
      numberedFiles fileGroups ++ fileGroup.map fun file => (fileGroups.length, file) := by
  simp [numberedFiles, List.zipIdx_append]

theorem map_snd_numberedFiles (fileGroups : List (List File)) :
    (numberedFiles fileGroups).map Prod.snd = fileGroups.flatten := by
  induction fileGroups using List.reverseRecOn with
  | nil => rfl
  | append_singleton fileGroups fileGroup ih =>
    rw [numberedFiles_append_singleton, List.map_append, ih]
    simp

variable {fileGroups : List (List File)} {g : ℕ} {rows : File → List ρ}

theorem mem_numberedFiles {file : File} :
    (g, file) ∈ numberedFiles fileGroups ↔
      ∃ fileGroup, fileGroups[g]? = some fileGroup ∧ file ∈ fileGroup := by
  simp [numberedFiles, List.mem_zipIdx_iff_getElem?]

theorem filter_numberedFiles {fileGroup : List File} (hg : fileGroups[g]? = some fileGroup) :
    ((numberedFiles fileGroups).filter fun numbered => numbered.1 = g).map Prod.snd =
      fileGroup := by
  induction fileGroups using List.reverseRecOn with
  | nil => cases hg
  | append_singleton fileGroups last ih =>
    rw [numberedFiles_append_singleton, List.filter_append, List.map_append]
    by_cases hlt : g < fileGroups.length
    · rw [List.getElem?_append_left hlt] at hg
      have hne : fileGroups.length ≠ g := by omega
      rw [ih hg]
      simp [hne]
    · have heq : g = fileGroups.length := by
        obtain ⟨hin, -⟩ := List.getElem?_eq_some_iff.mp hg
        rw [List.length_append, List.length_singleton] at hin
        omega
      subst heq
      rw [List.getElem?_append_right le_rfl, Nat.sub_self] at hg
      cases hg
      have hnone : (numberedFiles fileGroups).filter (fun numbered =>
          decide (numbered.1 = fileGroups.length)) = [] := by
        rw [List.filter_eq_nil_iff]
        rintro ⟨i, file⟩ hmem
        obtain ⟨other, hother, -⟩ := mem_numberedFiles.mp hmem
        obtain ⟨hin, -⟩ := List.getElem?_eq_some_iff.mp hother
        simp only [decide_eq_true_eq]
        omega
      rw [hnone, List.filter_map]
      simp [Function.comp_def]

/-! ## Order -/

/-- Reading the files of one group gives some of the rows of another, in its order. -/
def PiecesOf (rows : File → List ρ) (fileGroup original : List File) : Prop :=
  (fileGroup.flatMap rows).Sublist (original.flatMap rows)

/-- Statistics confirm an ordering only for file groups whose rows have it. -/
def SoundStatistics (rows : File → List ρ) (le : ρ → ρ → Prop)
    (inOrder : List PhysicalExpr → List File → Bool) : Prop :=
  ∀ ordering fileGroup, inOrder ordering fileGroup = true → (fileGroup.flatMap rows).Pairwise le

/-- The file groups of the variants that expose an ordering are pieces of single groups. -/
def SortedPieces (source : FileSource File) (rows : File → List ρ)
    (fileScan : FileScanConfig κ File)
    (leaf : DistributedLeafExec κ (FileScanConfig κ File)) : Prop :=
  ∀ variant ∈ leaf.variants, (variant.eqOutputOrdering source).isSome = true →
    ∀ fileGroup ∈ variant.fileGroups, ∃ original ∈ fileScan.fileGroups,
      PiecesOf rows fileGroup original

/-- Files that are dealt to the same of `n` groups come from one group, unless they are empty. -/
def DealtApart (rows : File → List ρ) (fileGroups : List (List File)) (n : ℕ) : Prop :=
  ∀ (i j : ℕ) (x y : ℕ × File), (numberedFiles fileGroups)[i]? = some x →
    (numberedFiles fileGroups)[j]? = some y → i % n = j % n → rows x.2 ≠ [] → rows y.2 ≠ [] →
      x.1 = y.1

theorem flatMap_filter_of_nil {α β : Type} {f : α → List β} {p : α → Bool} {xs : List α}
    (h : ∀ x ∈ xs, p x = false → f x = []) : (xs.filter p).flatMap f = xs.flatMap f := by
  induction xs with
  | nil => rfl
  | cons x xs ih =>
    rw [List.forall_mem_cons] at h
    cases hp : p x <;> simp [hp, h.1, ih h.2]

/-- What is dealt to one group, if it comes from one group. -/
theorem DealtApart.pieces {n : ℕ} (h : DealtApart rows fileGroups n) (hne : fileGroups ≠ [])
    (r : ℕ) :
    ∃ original ∈ fileGroups, PiecesOf rows (strided fileGroups.flatten n r) original := by
  have hstrided : (strided fileGroups.flatten n r).flatMap rows =
      (strided (numberedFiles fileGroups) n r).flatMap fun numbered => rows numbered.2 := by
    rw [← map_snd_numberedFiles, strided_map, List.flatMap_map]
  unfold PiecesOf
  rw [hstrided]
  by_cases hall : ∀ x ∈ strided (numberedFiles fileGroups) n r, rows x.2 = []
  · obtain ⟨first, rest, rfl⟩ := List.exists_cons_of_ne_nil hne
    refine ⟨first, List.mem_cons_self, ?_⟩
    rw [List.flatMap_eq_nil_iff.mpr hall]
    exact List.nil_sublist _
  · simp only [not_forall] at hall
    obtain ⟨x, hx, hrows⟩ := hall
    obtain ⟨i, hi, hri⟩ := mem_strided.mp hx
    obtain ⟨original, horiginal, -⟩ := mem_numberedFiles.mp (List.mem_of_getElem? hi)
    refine ⟨original, List.mem_of_getElem? horiginal, ?_⟩
    -- all files with rows come from the group of `x`
    have honly : ∀ y ∈ strided (numberedFiles fileGroups) n r,
        decide (y.1 = x.1) = false → rows y.2 = [] := by
      intro y hy hother
      obtain ⟨j, hj, hrj⟩ := mem_strided.mp hy
      by_contra hrows'
      exact of_decide_eq_false hother (h j i y x hj hi (hrj.trans hri.symm) hrows' hrows)
    rw [← flatMap_filter_of_nil honly, ← filter_numberedFiles horiginal, List.flatMap_map]
    exact ((strided_sublist _ n r).filter _).flatMap _

theorem numberedFiles_unique (hnodup : (fileGroups.flatten.flatMap rows).Nodup) {i j : ℕ}
    {x y : ℕ × File} (hi : (numberedFiles fileGroups)[i]? = some x)
    (hj : (numberedFiles fileGroups)[j]? = some y) {row : ρ} (hx : row ∈ rows x.2)
    (hy : row ∈ rows y.2) : i = j := by
  have hbuckets : (((numberedFiles fileGroups).map fun numbered =>
      rows numbered.2).flatten).Nodup := by
    rw [← List.flatMap_def, ← List.flatMap_map, map_snd_numberedFiles]
    exact hnodup
  exact bucket_unique hbuckets (by rw [List.getElem?_map, hi]; rfl)
    (by rw [List.getElem?_map, hj]; rfl) hx hy

/-- If all dealt groups are pieces of single groups, the files are dealt apart. -/
theorem dealtApart_of_pieces {n : ℕ} (hnodup : (fileGroups.flatten.flatMap rows).Nodup) (hn : 0 < n)
    (h : ∀ r < n, ∃ original ∈ fileGroups,
      PiecesOf rows (strided fileGroups.flatten n r) original) :
    DealtApart rows fileGroups n := by
  intro i j x y hi hj hsame hx hy
  obtain ⟨original, horiginal, hpieces⟩ := h (i % n) (Nat.mod_lt _ hn)
  obtain ⟨g, hg⟩ := List.mem_iff_getElem?.mp horiginal
  -- a row of any file in the dealt group is a row of the original group
  have hgroup : ∀ k z, (numberedFiles fileGroups)[k]? = some z → k % n = i % n → rows z.2 ≠ [] →
      z.1 = g := by
    intro k z hk hmod hrows
    obtain ⟨row, hrow⟩ := List.exists_mem_of_ne_nil _ hrows
    have hdealt : z.2 ∈ strided fileGroups.flatten n (i % n) := by
      refine mem_strided.mpr ⟨k, ?_, hmod⟩
      rw [← map_snd_numberedFiles, List.getElem?_map, hk]
      rfl
    obtain ⟨file, hfile, hin⟩ := List.mem_flatMap.mp
      (hpieces.subset (List.mem_flatMap.mpr ⟨z.2, hdealt, hrow⟩))
    obtain ⟨l, hl⟩ := List.mem_iff_getElem?.mp (mem_numberedFiles.mpr ⟨original, hg, hfile⟩)
    have hkl := numberedFiles_unique hnodup hk hl hrow hin
    rw [hkl, hl] at hk
    cases hk
    rfl
  rw [hgroup i x hi rfl hx, hgroup j y hj hsame.symm hy]

section Order

variable [DecidableEq κ] {scale : RangeScale κ} {source : FileSource File}
  {fileScan : FileScanConfig κ File} {taskCount : ℕ} {rows : File → List ρ}

theorem IsFragment.pieces {fileGroup fragment : List File}
    (hfragments : ∀ n group out, source.repartitioned n group = .ok (some out) →
      ∀ fragment ∈ out, PiecesOf rows fragment group)
    (h : IsFragment source taskCount fileGroup fragment) : PiecesOf rows fragment fileGroup := by
  obtain ⟨fragments, hok, hmem⟩ := h
  obtain ⟨repartitioned, hrepartitioned, hok⟩ := bind_ok_iff.mp hok
  obtain ⟨-, hok⟩ := ite_error_ok_iff.mp hok
  cases hok
  rcases List.mem_append.mp hmem with hmem | hmem
  · cases repartitioned with
    | none =>
      rw [List.mem_singleton.mp hmem]
      exact List.Sublist.refl _
    | some out => exact hfragments _ _ _ hrepartitioned fragment hmem
  · rw [List.eq_of_mem_replicate hmem]
    exact List.nil_sublist _

/-- The variants of a scan whose files are dealt out one by one. -/
theorem scaleUp_files (hrange : fileScan.NotRange) (htasks : 0 < taskCount)
    (hsplittable : fileScan.isSplittable = false)
    {leaf : DistributedLeafExec κ (FileScanConfig κ File)}
    (h : fileScanConfigScaleUpLeafNode scale source fileScan taskCount = .ok leaf) :
    leaf.variants = (List.range taskCount).map fun t => fileScan.variant source
      ((List.range fileScan.fileGroups.length).map fun k =>
        strided fileScan.files (fileScan.fileGroups.length * taskCount) (k * taskCount + t)) := by
  have hsplit := splitFileGroups_files source hrange.partitionCount htasks hsplittable
  obtain ⟨rfl, -⟩ := (scaleUp_ok_iff hrange htasks hsplit).mp h
  rfl

/-- If the statistics confirm the order of all dealt groups, scaling up succeeds. -/
theorem exists_scaleUp_files (scale : RangeScale κ) (hrange : fileScan.NotRange)
    (htasks : 0 < taskCount)
    (hsplittable : fileScan.isSplittable = false) (hsorted : fileScan.isSorted source = true)
    {ordering : List PhysicalExpr} (hordering : fileScan.outputOrdering = some ordering)
    (hall : ∀ r, source.inOrder ordering
      (strided fileScan.files (fileScan.fileGroups.length * taskCount) r) = true) :
    ∃ leaf, fileScanConfigScaleUpLeafNode scale source fileScan taskCount = .ok leaf ∧
      ∀ variant ∈ leaf.variants, (variant.eqOutputOrdering source).isSome = true := by
  have hsplit := splitFileGroups_files source hrange.partitionCount htasks hsplittable
  have hexposed :
      ∀ t, (fileScan.variant source ((List.range fileScan.fileGroups.length).map fun k =>
      strided fileScan.files (fileScan.fileGroups.length * taskCount)
        (k * taskCount + t))).eqOutputOrdering source = some ordering := by
    intro t
    rw [eqOutputOrdering_variant_of_sorted hsorted hordering]
    simp [hall]
  refine ⟨_, (scaleUp_ok_iff hrange htasks hsplit).mpr ⟨rfl, fun t _ => ⟨by simp, ?_⟩⟩, ?_⟩
  · rw [hexposed, hexposed]
  · simp only [List.forall_mem_map]
    intro t _
    rw [hexposed]
    rfl

/-- Every residue is the place of a group of some task. -/
theorem strided_mem_variant {n r : ℕ} (htasks : 0 < taskCount) (hr : r < n * taskCount) :
    ∃ t < taskCount, ∃ k < n, k * taskCount + t = r :=
  ⟨r % taskCount, Nat.mod_lt _ htasks, r / taskCount,
    (Nat.div_lt_iff_lt_mul htasks).mpr hr, by rw [Nat.mul_comm]; exact Nat.div_add_mod r taskCount⟩

/-- For all sound statistics, every file group of a variant that exposes the ordering is an
in-order sequence of pieces of one group of the scan, if and only if the scan is split group by
group, or no two files of different groups are dealt to one group. -/
theorem sorted_pieces_iff (scale : RangeScale κ) (source : FileSource File)
    (hrange : fileScan.NotRange) (hgroups : fileScan.fileGroups ≠ []) (htasks : 0 < taskCount)
    {ordering : List PhysicalExpr} (hordering : fileScan.outputOrdering = some ordering)
    (hfragments : ∀ n group out, source.repartitioned n group = .ok (some out) →
      ∀ fragment ∈ out, PiecesOf rows fragment group)
    (hnodup : (fileScan.files.flatMap rows).Nodup) :
    (∀ (le : ρ → ρ → Prop) (inOrder : List PhysicalExpr → List File → Bool),
      SoundStatistics rows le inOrder → fileScan.isSorted { source with inOrder } = true →
      ∀ leaf, fileScanConfigScaleUpLeafNode scale { source with inOrder } fileScan taskCount =
          .ok leaf → SortedPieces { source with inOrder } rows fileScan leaf) ↔
    (fileScan.isSplittable = true ∨
      DealtApart rows fileScan.fileGroups (fileScan.fileGroups.length * taskCount)) := by
  have hpos : 0 < fileScan.fileGroups.length * taskCount :=
    Nat.mul_pos (List.length_pos_iff.mpr hgroups) htasks
  constructor
  · intro h
    by_cases hsplittable : fileScan.isSplittable = true
    · exact .inl hsplittable
    · right
      rw [Bool.not_eq_true] at hsplittable
      -- rows in the order in which the files are listed, and statistics that know it
      let le : ρ → ρ → Prop := fun a b => [a, b].Sublist (fileScan.files.flatMap rows)
      have hdec : ∀ fileGroup : List File,
          Decidable ((fileGroup.flatMap rows).Sublist (fileScan.files.flatMap rows)) :=
        fun _ => Classical.propDecidable _
      let inOrder : List PhysicalExpr → List File → Bool := fun _ fileGroup =>
        decide ((fileGroup.flatMap rows).Sublist (fileScan.files.flatMap rows))
      have hsound : SoundStatistics rows le inOrder := by
        intro _ fileGroup hin
        rw [List.pairwise_iff_forall_sublist]
        intro a b hab
        exact hab.trans (of_decide_eq_true hin)
      have hin : ∀ other fileGroup, fileGroup.Sublist fileScan.files →
          inOrder other fileGroup = true := by
        intro _ fileGroup hsub
        exact decide_eq_true (hsub.flatMap rows)
      have hsorted : fileScan.isSorted { source with inOrder } = true := by
        simp only [FileScanConfig.isSorted, FileScanConfig.eqOutputOrdering, hordering,
          Option.filter]
        rw [if_pos]
        · rfl
        · rw [List.all_eq_true]
          intro fileGroup hfileGroup
          exact hin ordering _ (List.sublist_flatten_of_mem hfileGroup)
      obtain ⟨leaf, hleaf, hexposed⟩ := exists_scaleUp_files scale hrange htasks hsplittable hsorted
        hordering fun r => hin ordering _ (strided_sublist _ _ r)
      have hpieces := h le inOrder hsound hsorted leaf hleaf
      have hvariants := scaleUp_files hrange htasks hsplittable hleaf
      refine dealtApart_of_pieces hnodup hpos fun r hr => ?_
      obtain ⟨t, ht, k, hk, rfl⟩ := strided_mem_variant htasks hr
      have hmem : fileScan.variant { source with inOrder }
          ((List.range fileScan.fileGroups.length).map fun k => strided fileScan.files
            (fileScan.fileGroups.length * taskCount) (k * taskCount + t)) ∈ leaf.variants := by
        rw [hvariants]
        exact List.mem_map.mpr ⟨t, List.mem_range.mpr ht, rfl⟩
      exact hpieces _ hmem (hexposed _ hmem) _ (List.mem_map.mpr ⟨k, List.mem_range.mpr hk, rfl⟩)
  · intro hcond le inOrder _ hsorted leaf hleaf variant hvariant _ fileGroup hfileGroup
    cases hsplittable : fileScan.isSplittable with
    | false =>
      rw [scaleUp_files hrange htasks hsplittable hleaf] at hvariant
      obtain ⟨t, -, rfl⟩ := List.mem_map.mp hvariant
      obtain ⟨k, -, rfl⟩ := List.mem_map.mp hfileGroup
      rcases hcond with hsplit | hapart
      · rw [hsplittable] at hsplit
        cases hsplit
      · exact hapart.pieces hgroups _
    | true =>
      have hok := hleaf
      rw [scaleUp_eq hrange] at hok
      obtain ⟨out, hout, -⟩ := bind_ok_iff.mp hok
      obtain ⟨hrow, hall⟩ := splitFileGroups_sorted hsorted hsplittable hout
      rw [hrow] at hout
      obtain ⟨rfl, -⟩ := (scaleUp_ok_iff hrange htasks hout).mp hleaf
      obtain ⟨t, ht, rfl⟩ := List.mem_map.mp hvariant
      obtain ⟨original, horiginal, hfragment⟩ :=
        exists_of_forall₂ (hall t (List.mem_range.mp ht)) hfileGroup
      exact ⟨original, horiginal, hfragment.pieces hfragments⟩

end Order

/-- A sorted scan; its files have one row each. -/
def sortedScan (fileGroups : List (List ℕ)) (isCompressed : Bool) : FileScanConfig ℕ ℕ where
  fileGroups
  outputPartitioning := .unknown
  outputOrdering := some [.expr 0]
  isCompressed
  supportsRepartitioning := true

/-- Two file groups of three files each that the source can split, for two tasks. -/
theorem sorted_pieces_of_fragments :
    SoundStatistics (fun file => [file]) (· < ·) wholeFiles.inOrder ∧
      (sortedScan [[1, 3, 5], [2, 4, 6]] false).isSorted wholeFiles = true ∧
      ∃ leaf, fileScanConfigScaleUpLeafNode noScale wholeFiles
          (sortedScan [[1, 3, 5], [2, 4, 6]] false) 2 = .ok leaf ∧
        SortedPieces wholeFiles (fun file => [file]) (sortedScan [[1, 3, 5], [2, 4, 6]] false)
          leaf := by
  have hsound : SoundStatistics (fun file => [file]) (· < ·) wholeFiles.inOrder := by
    intro ordering fileGroup h
    simpa using of_decide_eq_true h
  have hsorted : (sortedScan [[1, 3, 5], [2, 4, 6]] false).isSorted wholeFiles = true := by
    decide
  refine ⟨hsound, hsorted, _, rfl, ?_⟩
  refine (sorted_pieces_iff noScale wholeFiles ?_ ?_ Nat.two_pos rfl ?_ ?_).mpr (.inl rfl) _
    wholeFiles.inOrder hsound hsorted _ rfl
  · intro range h
    cases h
  · simp [sortedScan]
  · intro n group out h
    cases h
  · decide

/-- Two file groups of three files each that cannot be split, for two tasks: the first and the
fifth file, which come from different groups, are dealt to one group, and the statistics confirm
its order. -/
theorem sorted_pieces_of_compressed :
    SoundStatistics (fun file => [file]) (· < ·) wholeFiles.inOrder ∧
      (sortedScan [[1, 3, 5], [2, 4, 6]] true).isSorted wholeFiles = true ∧
      ∃ leaf, fileScanConfigScaleUpLeafNode noScale wholeFiles
          (sortedScan [[1, 3, 5], [2, 4, 6]] true) 2 = .ok leaf ∧
        ¬ SortedPieces wholeFiles (fun file => [file]) (sortedScan [[1, 3, 5], [2, 4, 6]] true)
          leaf := by
  refine ⟨?_, by decide, _, rfl, ?_⟩
  · intro ordering fileGroup h
    simpa using of_decide_eq_true h
  · intro h
    obtain ⟨original, horiginal, hpieces⟩ := h _ List.mem_cons_self (by decide) [1, 4] (by decide)
    revert hpieces
    unfold PiecesOf
    rcases List.mem_cons.mp horiginal with rfl | horiginal
    · decide
    · rw [List.mem_singleton.mp horiginal]
      decide

/-! ## Places -/

def filesBefore (fileGroups : List (List File)) (g : ℕ) : ℕ :=
  (fileGroups.take g).flatten.length

/-- Partition `k` of task `t` reads all files of the group. -/
def ReadsGroup (leaf : DistributedLeafExec κ (FileScanConfig κ File)) (t k : ℕ)
    (fileGroup : List File) : Prop :=
  ∃ variant files, leaf.variants[t]? = some variant ∧ variant.fileGroups[k]? = some files ∧
    ∀ file ∈ fileGroup, file ∈ files

/-- Groups with the same number, one of each scan, are read by one partition of one task. -/
def Aligned (fileGroups fileGroups' : List (List File))
    (leaf leaf' : DistributedLeafExec κ (FileScanConfig κ File)) : Prop :=
  ∀ (g : ℕ) (fileGroup fileGroup' : List File), fileGroups[g]? = some fileGroup →
    fileGroups'[g]? = some fileGroup' → ∃ t k, ReadsGroup leaf t k fileGroup ∧
      ReadsGroup leaf' t k fileGroup'

/-- What keeps the groups of two hash-partitioned scans together and in the same places: there is
only one place, or no group has several files and the groups that both scans fill have as many
files before them. -/
def KeepsGroups (fileGroups fileGroups' : List (List File)) (taskCount : ℕ) : Prop :=
  fileGroups.length * taskCount = 1 ∨
    (∀ fileGroup ∈ fileGroups, fileGroup.length ≤ 1) ∧
    (∀ fileGroup ∈ fileGroups', fileGroup.length ≤ 1) ∧
    ∀ (g : ℕ) (fileGroup fileGroup' : List File), fileGroups[g]? = some fileGroup →
      fileGroups'[g]? = some fileGroup' → fileGroup ≠ [] → fileGroup' ≠ [] →
        filesBefore fileGroups g = filesBefore fileGroups' g

theorem getElem?_filesBefore {j : ℕ} {fileGroup : List File} (hg : fileGroups[g]? = some fileGroup)
    (hj : j < fileGroup.length) :
    fileGroups.flatten[filesBefore fileGroups g + j]? = fileGroup[j]? := by
  obtain ⟨hlt, rfl⟩ := List.getElem?_eq_some_iff.mp hg
  have hsplit : fileGroups = fileGroups.take g ++ fileGroups[g] :: fileGroups.drop (g + 1) := by
    rw [← List.drop_eq_getElem_cons hlt, List.take_append_drop]
  have hflatten : fileGroups.flatten = (fileGroups.take g).flatten ++
      (fileGroups[g] ++ (fileGroups.drop (g + 1)).flatten) := by
    conv_lhs => rw [hsplit]
    rw [List.flatten_append, List.flatten_cons]
  rw [hflatten, filesBefore, List.getElem?_append_right (Nat.le_add_right _ _),
    Nat.add_sub_cancel_left, List.getElem?_append_left hj]

/-- Groups of at most one file each are all at positions below their number. -/
theorem filesBefore_le (h : ∀ fileGroup ∈ fileGroups, fileGroup.length ≤ 1) (g : ℕ) :
    filesBefore fileGroups g ≤ g := by
  have htake := List.sum_le_card_nsmul ((fileGroups.take g).map List.length) 1
    (List.forall_mem_map.mpr fun fileGroup hmem => h fileGroup (List.mem_of_mem_take hmem))
  rw [List.length_map, List.length_take, Nat.nsmul_eq_mul] at htake
  rw [filesBefore, List.length_flatten]
  omega

def FileScanConfig.IsHash (self : FileScanConfig κ File) : Prop :=
  ∃ exprs, self.outputPartitioning = .hash exprs

theorem FileScanConfig.IsHash.notRange {fileScan : FileScanConfig κ File} (h : fileScan.IsHash) :
    fileScan.NotRange := by
  obtain ⟨exprs, h⟩ := h
  intro range hrange
  rw [h] at hrange
  cases hrange

theorem FileScanConfig.IsHash.isSplittable {fileScan : FileScanConfig κ File}
    (h : fileScan.IsHash) : fileScan.isSplittable = false := by
  obtain ⟨exprs, h⟩ := h
  simp [FileScanConfig.isSplittable, FileScanConfig.isPrePartitioned, FileScanConfig.partitioning,
    h]

section Places

variable [DecidableEq κ] {scale : RangeScale κ} {source : FileSource File}
  {fileScan fileScan' : FileScanConfig κ File} {taskCount : ℕ}
  {leaf leaf' : DistributedLeafExec κ (FileScanConfig κ File)}

section Read

variable {t k g : ℕ} {fileGroup : List File}

variable (hhash : fileScan.IsHash) (htasks : 0 < taskCount)
  (hleaf : fileScanConfigScaleUpLeafNode scale source fileScan taskCount = .ok leaf)
include hhash htasks hleaf

/-- The place of a group: the remainder of the positions of its files. -/
theorem readsGroup_iff :
    ReadsGroup leaf t k fileGroup ↔ t < taskCount ∧ k < fileScan.fileGroups.length ∧
      ∀ file ∈ fileGroup, ∃ i, fileScan.files[i]? = some file ∧
        i % (fileScan.fileGroups.length * taskCount) = k * taskCount + t := by
  simp [ReadsGroup, scaleUp_files hhash.notRange htasks hhash.isSplittable hleaf,
    FileScanConfig.variant, List.getElem?_eq_some_iff, mem_strided]

/-- Different files of a group have different positions, and the positions are unique. -/
theorem ReadsGroup.position (hnodup : fileScan.files.Nodup) {j : ℕ}
    (hg : fileScan.fileGroups[g]? = some fileGroup) (hj : j < fileGroup.length)
    (h : ReadsGroup leaf t k fileGroup) :
    (filesBefore fileScan.fileGroups g + j) % (fileScan.fileGroups.length * taskCount) =
      k * taskCount + t := by
  obtain ⟨-, -, hall⟩ := (readsGroup_iff hhash htasks hleaf).mp h
  obtain ⟨i, hi, hmod⟩ := hall fileGroup[j] (List.getElem_mem hj)
  have hposition := getElem?_filesBefore hg hj
  rw [List.getElem?_eq_getElem hj] at hposition
  obtain ⟨hlt, hget⟩ := List.getElem?_eq_some_iff.mp hi
  obtain ⟨hlt', hget'⟩ := List.getElem?_eq_some_iff.mp hposition
  have hsame : i = filesBefore fileScan.fileGroups g + j :=
    (List.Nodup.getElem_inj_iff hnodup).mp (hget.trans hget'.symm)
  rw [← hsame]
  exact hmod

theorem readsGroup_of_single {i : ℕ} (hg : fileScan.fileGroups[g]? = some fileGroup)
    (hone : fileGroup.length ≤ 1) (hi : i < fileScan.fileGroups.length * taskCount)
    (hat : fileGroup ≠ [] → filesBefore fileScan.fileGroups g = i) :
    ReadsGroup leaf (i % taskCount) (i / taskCount) fileGroup := by
  refine (readsGroup_iff hhash htasks hleaf).mpr ⟨Nat.mod_lt _ htasks,
    (Nat.div_lt_iff_lt_mul htasks).mpr hi, fun file hfile => ?_⟩
  obtain ⟨j, hj, rfl⟩ := List.mem_iff_getElem.mp hfile
  refine ⟨filesBefore fileScan.fileGroups g + j, ?_, ?_⟩
  · rw [FileScanConfig.files, getElem?_filesBefore hg hj, List.getElem?_eq_getElem hj]
  · have hzero : j = 0 := by omega
    rw [hat (List.ne_nil_of_mem hfile), hzero, Nat.add_zero, Nat.mod_eq_of_lt hi, Nat.mul_comm]
    exact (Nat.div_add_mod i taskCount).symm

/-- Several files of one group are read in different places, unless there is only one. -/
theorem length_le_one_of_readsGroup (hnodup : fileScan.files.Nodup)
    (hmany : fileScan.fileGroups.length * taskCount ≠ 1)
    (hreads : ∀ g < fileScan.fileGroups.length, ∀ fileGroup,
      fileScan.fileGroups[g]? = some fileGroup →
      ∃ t k, ReadsGroup leaf t k fileGroup) :
    ∀ fileGroup ∈ fileScan.fileGroups, fileGroup.length ≤ 1 := by
  intro fileGroup hmem
  obtain ⟨g, hg⟩ := List.mem_iff_getElem?.mp hmem
  obtain ⟨hlt, -⟩ := List.getElem?_eq_some_iff.mp hg
  obtain ⟨t, k, h⟩ := hreads g hlt fileGroup hg
  by_contra hlong
  have hfirst := h.position hhash htasks hleaf hnodup hg (show 0 < fileGroup.length by omega)
  have hsecond := h.position hhash htasks hleaf hnodup hg (show 1 < fileGroup.length by omega)
  have hsame : filesBefore fileScan.fileGroups g + 0 ≡ filesBefore fileScan.fileGroups g + 1
      [MOD fileScan.fileGroups.length * taskCount] := hfirst.trans hsecond.symm
  have hdvd := (Nat.modEq_iff_dvd' (by omega)).mp hsame
  rw [show filesBefore fileScan.fileGroups g + 1 - (filesBefore fileScan.fileGroups g + 0) = 1 by
    omega] at hdvd
  exact hmany (Nat.dvd_one.mp hdvd)

theorem readsGroup_of_onePlace (hone : fileScan.fileGroups.length * taskCount = 1)
    (hg : fileScan.fileGroups[g]? = some fileGroup) : ReadsGroup leaf 0 0 fileGroup := by
  refine (readsGroup_iff hhash htasks hleaf).mpr ⟨htasks, ?_, ?_⟩
  · exact (List.getElem?_eq_some_iff.mp hg).1.bot_lt
  · intro file hfile
    obtain ⟨i, hi⟩ := List.mem_iff_getElem?.mp
      (List.mem_flatten.mpr ⟨fileGroup, List.mem_of_getElem? hg, hfile⟩)
    exact ⟨i, hi, by rw [hone, Nat.mod_one, Nat.zero_mul]⟩

end Read

section Two

variable (hhash : fileScan.IsHash) (hhash' : fileScan'.IsHash)
  (hsame : fileScan'.fileGroups.length = fileScan.fileGroups.length) (htasks : 0 < taskCount)
  (hleaf : fileScanConfigScaleUpLeafNode scale source fileScan taskCount = .ok leaf)
  (hleaf' : fileScanConfigScaleUpLeafNode scale source fileScan' taskCount = .ok leaf')
include hhash hhash' hsame htasks hleaf hleaf'

/-- Groups that are read whole in the same places are short and filled alike, unless there is only
one place. -/
theorem keepsGroups_of_aligned (hnodup : fileScan.files.Nodup) (hnodup' : fileScan'.files.Nodup)
    (haligned : Aligned fileScan.fileGroups fileScan'.fileGroups leaf leaf') :
    KeepsGroups fileScan.fileGroups fileScan'.fileGroups taskCount := by
  by_cases hone : fileScan.fileGroups.length * taskCount = 1
  · exact .inl hone
  have hmany' : fileScan'.fileGroups.length * taskCount ≠ 1 := by rwa [hsame]
  have hshort := length_le_one_of_readsGroup hhash htasks hleaf hnodup hone fun g hlt _ hg => by
    obtain ⟨t, k, hreads, -⟩ := haligned g _ _ hg (List.getElem?_eq_getElem (hsame ▸ hlt))
    exact ⟨t, k, hreads⟩
  have hshort' :=
    length_le_one_of_readsGroup hhash' htasks hleaf' hnodup' hmany' fun g hlt _ hg => by
    obtain ⟨t, k, -, hreads⟩ := haligned g _ _ (List.getElem?_eq_getElem (hsame ▸ hlt)) hg
    exact ⟨t, k, hreads⟩
  refine .inr ⟨hshort, hshort', ?_⟩
  intro g fileGroup fileGroup' hg hg' hne hne'
  obtain ⟨t, k, hreads, hreads'⟩ := haligned g fileGroup fileGroup' hg hg'
  have hat := hreads.position hhash htasks hleaf hnodup hg (List.length_pos_iff.mpr hne)
  have hat' := hreads'.position hhash' htasks hleaf' hnodup' hg' (List.length_pos_iff.mpr hne')
  obtain ⟨hlt, -⟩ := List.getElem?_eq_some_iff.mp hg
  have hbound := Nat.le_mul_of_pos_right fileScan.fileGroups.length htasks
  have hbefore := filesBefore_le hshort g
  have hbefore' := filesBefore_le hshort' g
  rw [Nat.add_zero, Nat.mod_eq_of_lt (by omega)] at hat
  rw [Nat.add_zero, hsame, Nat.mod_eq_of_lt (by omega)] at hat'
  rw [hat, hat']

theorem aligned_of_keepsGroups
    (hkeeps : KeepsGroups fileScan.fileGroups fileScan'.fileGroups taskCount) :
    Aligned fileScan.fileGroups fileScan'.fileGroups leaf leaf' := by
  intro g fileGroup fileGroup' hg hg'
  rcases hkeeps with hone | ⟨hshort, hshort', hbefore⟩
  · exact ⟨0, 0, readsGroup_of_onePlace hhash htasks hleaf hone hg,
      readsGroup_of_onePlace hhash' htasks hleaf' (by rwa [hsame]) hg'⟩
  · obtain ⟨hlt, -⟩ := List.getElem?_eq_some_iff.mp hg
    have hbound := Nat.le_mul_of_pos_right fileScan.fileGroups.length htasks
    have hle := filesBefore_le hshort g
    have hle' := filesBefore_le hshort' g
    have hfile := hshort _ (List.mem_of_getElem? hg)
    have hfile' := hshort' _ (List.mem_of_getElem? hg')
    -- the place of the first scan if its group is filled, of the second otherwise
    by_cases hne : fileGroup = []
    · refine ⟨_, _, readsGroup_of_single hhash htasks hleaf hg hfile
        (show filesBefore fileScan'.fileGroups g < _ by omega) (absurd hne), ?_⟩
      exact readsGroup_of_single hhash' htasks hleaf' hg' hfile' (by rw [hsame]; omega)
        fun _ => rfl
    · refine ⟨_, _, readsGroup_of_single hhash htasks hleaf hg hfile
        (show filesBefore fileScan.fileGroups g < _ by omega) fun _ => rfl, ?_⟩
      exact readsGroup_of_single hhash' htasks hleaf' hg' hfile' (by rw [hsame]; omega)
        fun hne' => (hbefore g _ _ hg hg' hne hne').symm

end Two

/-- Scans with a hash partitioning keep it, and groups with the same number are read whole, in one
place, if and only if there is only one place, or no group has several files and the groups before
them are filled alike. -/
theorem hash_alignment_iff (hhash : fileScan.IsHash) (hhash' : fileScan'.IsHash)
    (hsame : fileScan'.fileGroups.length = fileScan.fileGroups.length)
    (hnodup : fileScan.files.Nodup) (hnodup' : fileScan'.files.Nodup) (htasks : 0 < taskCount)
    (hleaf : fileScanConfigScaleUpLeafNode scale source fileScan taskCount = .ok leaf)
    (hleaf' : fileScanConfigScaleUpLeafNode scale source fileScan' taskCount = .ok leaf') :
    (∀ variant ∈ leaf.variants, variant.outputPartitioning = fileScan.outputPartitioning) ∧
      (Aligned fileScan.fileGroups fileScan'.fileGroups leaf leaf' ↔
        KeepsGroups fileScan.fileGroups fileScan'.fileGroups taskCount) := by
  constructor
  · rw [scaleUp_files hhash.notRange htasks hhash.isSplittable hleaf]
    simp only [List.forall_mem_map]
    exact fun _ _ => rfl
  · exact ⟨keepsGroups_of_aligned hhash hhash' hsame htasks hleaf hleaf' hnodup hnodup',
      aligned_of_keepsGroups hhash hhash' hsame htasks hleaf hleaf'⟩

end Places

def hashScan (fileGroups : List (List ℕ)) : FileScanConfig ℕ ℕ where
  fileGroups
  outputPartitioning := .hash [.expr 0]
  outputOrdering := none
  isCompressed := false
  supportsRepartitioning := true

/-- One file in every group of both scans. -/
theorem hash_alignment_of_single_files : ∃ leaf leaf',
    fileScanConfigScaleUpLeafNode noScale wholeFiles (hashScan [[1], [2]]) 2 = .ok leaf ∧
      fileScanConfigScaleUpLeafNode noScale wholeFiles (hashScan [[3], [4]]) 2 = .ok leaf' ∧
      Aligned [[1], [2]] [[3], [4]] leaf leaf' := by
  obtain ⟨leaf, hleaf⟩ : ∃ leaf, fileScanConfigScaleUpLeafNode noScale wholeFiles
      (hashScan [[1], [2]]) 2 = .ok leaf := ⟨_, rfl⟩
  obtain ⟨leaf', hleaf'⟩ : ∃ leaf', fileScanConfigScaleUpLeafNode noScale wholeFiles
      (hashScan [[3], [4]]) 2 = .ok leaf' := ⟨_, rfl⟩
  have halign :=
    (hash_alignment_iff ⟨_, rfl⟩ ⟨_, rfl⟩ (by decide) (by decide) (by decide) Nat.two_pos
    hleaf hleaf').2
  refine ⟨leaf, leaf', hleaf, hleaf', halign.mpr (.inr ⟨by decide, by decide, ?_⟩)⟩
  intro g fileGroup fileGroup' hg hg' _ _
  match g with
  | 0 => rfl
  | 1 => rfl
  | g + 2 => cases hg

/-- Two files in the first group, for one task: the files are read by different partitions. -/
theorem hash_group_torn : ∃ leaf,
    fileScanConfigScaleUpLeafNode noScale wholeFiles (hashScan [[1, 2], [3]]) 1 = .ok leaf ∧
      ¬ ∃ t k, ReadsGroup leaf t k [1, 2] := by
  refine ⟨_, rfl, ?_⟩
  rintro ⟨t, k, variant, files, hvariant, hfiles, hall⟩
  match t with
  | 0 =>
    cases hvariant
    match k with
    | 0 =>
      cases hfiles
      exact absurd (hall 2 (by decide)) (by decide)
    | 1 =>
      cases hfiles
      exact absurd (hall 1 (by decide)) (by decide)
    | k + 2 => cases hfiles
  | t + 1 => cases hvariant

end DatafusionDistributed
