import Mathlib.Data.List.GetD
import DatafusionDistributed.ExecutionPlans.ShuffleDelivery
import DatafusionDistributed.Library.Cuts

/-!
# Range-partitioned file scans

A range-partitioned scan that runs in several tasks gives each task a contiguous run of its
file groups. The cuts between the runs follow the split points of the scaled range partitioning,
which is also what a range shuffle with the same number of consumer tasks uses. If scaling does
not give usable split points, the cuts are spread evenly.

The main result is `range_colocation`: the scan and the shuffle send a key to the same task.
-/

namespace DatafusionDistributed

open Library

section Rebalance

variable {κ File : Type} [DecidableEq κ]

/-- `&file_groups[start..end]`. -/
def sliceGroups (fileGroups : List (List File)) (start stop : ℕ) : Result (List (List File)) :=
  if start ≤ stop ∧ stop ≤ fileGroups.length then
    .ok ((fileGroups.drop start).take (stop - start))
  else .error (.panic "slice index out of range")

/-- The cuts used when the scaled split points cannot be. -/
def evenCuts (p targetTasks : ℕ) : List ℕ :=
  (List.range' 1 (targetTasks - 1)).map fun k => k * (p - 1) / targetTasks + 1

/-- Whether the scaled partitioning has one split point less than there are tasks, all of them
known. -/
def scaledUsable (range scaled : RangePartitioning κ) (targetTasks : ℕ) : Bool :=
  scaled.splitPoints.length = targetTasks - 1 &&
    scaled.splitPoints.all fun sp => range.splitPoints.contains sp

/-- The cuts that follow the scaled split points. -/
def scaledCuts (range scaled : RangePartitioning κ) : List ℕ :=
  scaled.splitPoints.map fun sp => range.splitPoints.idxOf sp + 1

/-- The cuts between the runs of file groups, without the last one. -/
def rangeCuts (scale : RangeScale κ) (range : RangePartitioning κ) (p targetTasks : ℕ) : List ℕ :=
  match scale range targetTasks with
  | .ok scaled =>
    if scaledUsable range scaled targetTasks then scaledCuts range scaled
    else evenCuts p targetTasks
  | .error _ => evenCuts p targetTasks

/-- The runs of file groups between consecutive cuts, each merged into one group. -/
def takeRuns (fileGroups : List (List File)) : ℕ → List ℕ → Result (List (List (List File)))
  | _, [] => .ok []
  | start, stop :: cuts => do
    let taskFiles ← sliceGroups fileGroups start stop
    let result ← takeRuns fileGroups stop cuts
    return [taskFiles.flatten] :: result

/-- `rebalance_range`: the file groups of each of the `targetTasks` tasks. -/
def rebalanceRange (scale : RangeScale κ) (fileGroups : List (List File))
    (range : RangePartitioning κ) (targetTasks : ℕ) : Result (List (List (List File))) :=
  let p := fileGroups.length
  if targetTasks = 0 then .ok []
  else if p < targetTasks then
    .error (.execution s!"Cannot scale range file scan with {p} partitions to {targetTasks} tasks")
  else if targetTasks = 1 then .ok [[fileGroups.flatten]]
  else takeRuns fileGroups 0 (rangeCuts scale range p targetTasks ++ [p])

/-! ## Runs -/

/-- The `t`-th of the cuts that start at `0` and end at `p`. -/
def cutAt (cuts : List ℕ) (p t : ℕ) : ℕ :=
  (0 :: cuts).getD t p

def runFiles (fileGroups : List (List File)) (start stop : ℕ) : List File :=
  ((fileGroups.drop start).take (stop - start)).flatten

variable {fileGroups : List (List File)} {cuts : List ℕ} {p targetTasks tasks : ℕ}
  {range scaled : RangePartitioning κ} {scale : RangeScale κ}

theorem takeRuns_eq {start : ℕ} (hchain : (start :: cuts).IsChain (· < ·))
    (hle : ∀ c ∈ cuts, c ≤ fileGroups.length) :
    takeRuns fileGroups start cuts =
      .ok (List.zipWith (fun a b => [runFiles fileGroups a b]) (start :: cuts) cuts) := by
  induction cuts generalizing start with
  | nil => rfl
  | cons stop cuts ih =>
    rw [List.isChain_cons_cons] at hchain
    have hslice : sliceGroups fileGroups start stop =
        .ok ((fileGroups.drop start).take (stop - start)) :=
      if_pos ⟨Nat.le_of_lt hchain.1, hle stop List.mem_cons_self⟩
    have hrest := ih hchain.2 fun c hc => hle c (List.mem_cons_of_mem _ hc)
    simp only [takeRuns, hslice, hrest]
    rfl

structure IsCuts (cuts : List ℕ) (p targetTasks : ℕ) : Prop where
  length : cuts.length + 1 = targetTasks
  chain : (0 :: (cuts ++ [p])).IsChain (· < ·)

theorem getElem?_cutAt {t : ℕ} (ht : t ≤ cuts.length + 1) :
    (0 :: (cuts ++ [p]))[t]? = some (cutAt cuts p t) := by
  rw [← List.cons_append, cutAt]
  by_cases h : t < (0 :: cuts).length
  · rw [List.getElem?_append_left h, List.getElem?_eq_getElem h, List.getD_eq_getElem _ _ h]
  · have hlast : t = (0 :: cuts).length := by
      rw [List.length_cons] at h ⊢
      omega
    rw [List.getD_eq_default _ _ (Nat.le_of_not_lt h), hlast, List.getElem?_append_right le_rfl,
      Nat.sub_self]
    rfl

namespace IsCuts

variable {cuts : List ℕ} {p targetTasks : ℕ}

theorem cutAt_zero (cuts : List ℕ) (p : ℕ) : cutAt cuts p 0 = 0 := rfl

section IsCuts

variable (h : IsCuts cuts p targetTasks)
include h

theorem cutAt_last : cutAt cuts p targetTasks = p := by
  rw [cutAt, List.getD_eq_default]
  rw [List.length_cons, h.length]

theorem cutAt_lt_succ {t : ℕ} (ht : t < targetTasks) : cutAt cuts p t < cutAt cuts p (t + 1) := by
  have hlength := h.length
  have hpairwise := List.pairwise_iff_getElem.mp (List.isChain_iff_pairwise.mp h.chain)
  obtain ⟨hlt, hget⟩ := List.getElem?_eq_some_iff.mp
    (@getElem?_cutAt cuts p t (by omega))
  obtain ⟨hlt', hget'⟩ := List.getElem?_eq_some_iff.mp
    (@getElem?_cutAt cuts p (t + 1) (by omega))
  have hlast := hpairwise t (t + 1) hlt hlt' (Nat.lt_succ_self t)
  rwa [hget, hget'] at hlast

theorem monotone_cutAt : Monotone (cutAt cuts p) := by
  apply monotone_nat_of_le_succ
  intro t
  by_cases ht : t < targetTasks
  · exact Nat.le_of_lt (h.cutAt_lt_succ ht)
  · have hlength : (0 :: cuts).length ≤ t := by
      rw [List.length_cons, h.length]
      omega
    rw [cutAt, cutAt, List.getD_eq_default _ _ hlength,
      List.getD_eq_default _ _ (Nat.le_succ_of_le hlength)]

theorem existsUnique_run {g : ℕ} (hg : g < p) :
    ∃! t, t < targetTasks ∧ cutAt cuts p t ≤ g ∧ g < cutAt cuts p (t + 1) := by
  have hlast : g < cutAt cuts p targetTasks := by
    rw [h.cutAt_last]
    exact hg
  obtain ⟨t, ht, hin⟩ := exists_group (cutAt cuts p) (Nat.zero_le g) hlast
  refine ⟨t, ⟨ht, hin⟩, ?_⟩
  rintro t' ⟨-, hin'⟩
  exact group_unique h.monotone_cutAt hin' hin

theorem takeRuns_cuts {fileGroups : List (List File)} (hp : p = fileGroups.length) :
    takeRuns fileGroups 0 (cuts ++ [p]) =
      .ok ((List.range targetTasks).map fun t =>
        [runFiles fileGroups (cutAt cuts p t) (cutAt cuts p (t + 1))]) := by
  have hlength := h.length
  have hpairwise := List.isChain_iff_pairwise.mp h.chain
  have hle : ∀ c ∈ cuts ++ [p], c ≤ fileGroups.length := by
    intro c hc
    rcases List.mem_append.mp hc with hc | hc
    · have hlt := (List.pairwise_append.mp (List.pairwise_cons.mp hpairwise).2).2.2 c hc p
        List.mem_cons_self
      omega
    · rw [List.mem_singleton] at hc
      omega
  rw [takeRuns_eq h.chain hle]
  congr 1
  apply List.ext_getElem
  · simp [hlength]
  · intro t _ ht
    have hlt : t < targetTasks := by simpa using ht
    obtain ⟨_, hstart⟩ := List.getElem?_eq_some_iff.mp (@getElem?_cutAt cuts p t (by omega))
    obtain ⟨_, hstop⟩ := List.getElem?_eq_some_iff.mp (@getElem?_cutAt cuts p (t + 1) (by omega))
    simp [hstart, ← hstop]

end IsCuts

end IsCuts

/-! ## The two ways of cutting -/

theorem isCuts_of_pairwise (hlength : cuts.length + 1 = targetTasks)
    (hincreasing : cuts.Pairwise (· < ·)) (hbounds : ∀ c ∈ cuts, 0 < c ∧ c < p) (hp : 0 < p) :
    IsCuts cuts p targetTasks := by
  refine ⟨hlength, List.isChain_iff_pairwise.mpr ?_⟩
  rw [List.pairwise_cons, List.pairwise_append]
  refine ⟨List.forall_mem_append.mpr ⟨fun c hc => (hbounds c hc).1, ?_⟩, hincreasing,
    List.pairwise_singleton _ _, fun c hc => ?_⟩
  · exact List.forall_mem_singleton.mpr hp
  · exact List.forall_mem_singleton.mpr (hbounds c hc).2

theorem mul_pred_div_self {k : ℕ} (hk : 0 < k) (hkp : k < p) : k * (p - 1) / p = k - 1 := by
  have hsplit : k * (p - 1) = (p - k) + p * (k - 1) := by
    obtain ⟨k, rfl⟩ := Nat.exists_eq_succ_of_ne_zero hk.ne'
    obtain ⟨p, rfl⟩ := Nat.exists_eq_succ_of_ne_zero (Nat.ne_zero_of_lt hkp)
    simp only [Nat.succ_eq_add_one, Nat.add_sub_cancel, Nat.add_mul]
    rw [Nat.mul_comm p k]
    omega
  rw [hsplit, Nat.add_mul_div_left _ _ (Nat.zero_lt_of_lt hkp),
    Nat.div_eq_of_lt (Nat.sub_lt (Nat.zero_lt_of_lt hkp) hk), Nat.zero_add]

theorem evenCut_lt {a b : ℕ} (ha : 0 < a) (hab : a < b) (hb : b < targetTasks)
    (hle : targetTasks ≤ p) : a * (p - 1) / targetTasks < b * (p - 1) / targetTasks := by
  by_cases heq : targetTasks = p
  · subst heq
    rw [mul_pred_div_self ha (Nat.lt_trans hab hb), mul_pred_div_self (Nat.lt_trans ha hab) hb]
    omega
  · -- A step of one task moves the cut by at least one file group.
    have hstep : a * (p - 1) + targetTasks ≤ b * (p - 1) := by
      have hmul : (a + 1) * (p - 1) ≤ b * (p - 1) := Nat.mul_le_mul_right _ hab
      rw [Nat.succ_mul] at hmul
      omega
    have hdiv := Nat.div_le_div_right (c := targetTasks) hstep
    rw [Nat.add_div_right _ (by omega)] at hdiv
    exact hdiv

/-- Evenly spread cuts are strictly increasing, down to one file group for each task. -/
theorem evenCuts_isCuts (hpos : 0 < targetTasks) (hle : targetTasks ≤ p) :
    IsCuts (evenCuts p targetTasks) p targetTasks := by
  have hmem : ∀ k ∈ List.range' 1 (targetTasks - 1), 0 < k ∧ k < targetTasks := by
    intro k hk
    rw [List.mem_range'_1] at hk
    omega
  apply isCuts_of_pairwise
  · rw [evenCuts, List.length_map, List.length_range']
    omega
  · rw [evenCuts, List.pairwise_map]
    have hrange : (List.range' 1 (targetTasks - 1)).Pairwise (· < ·) := List.pairwise_lt_range' 1
    refine hrange.imp_of_mem ?_
    intro a b ha hb hab
    have hlt := evenCut_lt (hmem a ha).1 hab (hmem b hb).2 hle
    omega
  · intro c hc
    obtain ⟨k, hk, rfl⟩ := List.mem_map.mp hc
    refine ⟨Nat.succ_pos _, ?_⟩
    have hlt : k * (p - 1) / targetTasks < p - 1 := by
      rw [Nat.div_lt_iff_lt_mul hpos, Nat.mul_comm]
      have hp : 0 < p - 1 := by
        have hbounds := hmem k hk
        omega
      exact Nat.mul_lt_mul_of_pos_left (hmem k hk).2 hp
    omega
  · omega

theorem pairwise_idxOf_lt {points sub : List κ} (hnodup : points.Nodup)
    (hsub : sub.Sublist points) : (sub.map points.idxOf).Pairwise (· < ·) := by
  have hall : points.map points.idxOf = List.range points.length :=
    List.ext_getElem (by simp) fun i _ _ => by simp [hnodup.idxOf_getElem]
  exact (hall ▸ List.pairwise_lt_range).sublist (hsub.map _)

theorem scaledCuts_isCuts (hnodup : range.splitPoints.Nodup)
    (hsub : scaled.splitPoints.Sublist range.splitPoints)
    (hlength : scaled.splitPoints.length + 1 = targetTasks)
    (hp : p = range.splitPoints.length + 1) :
    IsCuts (scaledCuts range scaled) p targetTasks := by
  apply isCuts_of_pairwise
  · rw [scaledCuts, List.length_map, hlength]
  · have hidx := pairwise_idxOf_lt hnodup hsub
    rw [scaledCuts, List.pairwise_map]
    rw [List.pairwise_map] at hidx
    exact hidx.imp fun h => Nat.succ_lt_succ h
  · intro c hc
    obtain ⟨sp, hsp, rfl⟩ := List.mem_map.mp hc
    have hidx := List.idxOf_lt_length_of_mem (hsub.subset hsp)
    omega
  · omega

/-! ## The runs of a rebalanced scan -/

/-- The scan is divided into `tasks` runs of file groups: contiguous, not empty, and covering
every group once. -/
structure Runs (scale : RangeScale κ) (fileGroups : List (List File))
    (range : RangePartitioning κ) (tasks : ℕ) (cut : ℕ → ℕ) : Prop where
  first : cut 0 = 0
  last : cut tasks = fileGroups.length
  nonempty : ∀ t < tasks, cut t < cut (t + 1)
  covers : ∀ g < fileGroups.length, ∃! t, t < tasks ∧ cut t ≤ g ∧ g < cut (t + 1)
  result : rebalanceRange scale fileGroups range tasks =
    .ok ((List.range tasks).map fun t => [runFiles fileGroups (cut t) (cut (t + 1))])

theorem runs_of_isCuts (hpos : 0 < tasks) (hle : tasks ≤ fileGroups.length)
    (hcuts : IsCuts cuts fileGroups.length tasks)
    (hrange : tasks ≠ 1 → rangeCuts scale range fileGroups.length tasks = cuts) :
    Runs scale fileGroups range tasks (cutAt cuts fileGroups.length) where
  first := IsCuts.cutAt_zero _ _
  last := hcuts.cutAt_last
  nonempty := fun _ ht => hcuts.cutAt_lt_succ ht
  covers := fun _ hg => hcuts.existsUnique_run hg
  result := by
    unfold rebalanceRange
    rw [if_neg hpos.ne', if_neg (by omega)]
    by_cases hone : tasks = 1
    · subst hone
      have hwhole : runFiles fileGroups 0 fileGroups.length = fileGroups.flatten := by
        rw [runFiles, List.drop_zero, Nat.sub_zero, List.take_length]
      rw [if_pos rfl, ← hwhole]
      have hlast := hcuts.cutAt_last
      simp only [List.range_one, List.map_cons, List.map_nil, hlast, IsCuts.cutAt_zero]
    · rw [if_neg hone, hrange hone, hcuts.takeRuns_cuts rfl]

/-- Whether or not scaling works, unusable split points lead to evenly spread runs. -/
theorem runs_of_unusable (hpos : 0 < tasks) (hle : tasks ≤ fileGroups.length)
    (hscale : ∀ scaled, scale range tasks = .ok scaled →
      scaledUsable range scaled tasks = false) :
    Runs scale fileGroups range tasks
      (cutAt (evenCuts fileGroups.length tasks) fileGroups.length) := by
  refine runs_of_isCuts hpos hle (evenCuts_isCuts hpos hle) ?_
  intro _
  unfold rangeCuts
  cases hscaled : scale range tasks with
  | error e => rfl
  | ok scaled => simp [hscale scaled hscaled]

theorem runs_of_scaled (hpos : 0 < tasks) (hle : tasks ≤ fileGroups.length)
    (hgroups : fileGroups.length = range.partitionCount) (hnodup : range.splitPoints.Nodup)
    (hscaled : scale range tasks = .ok scaled) (hlength : scaled.splitPoints.length + 1 = tasks)
    (hsub : scaled.splitPoints.Sublist range.splitPoints) :
    Runs scale fileGroups range tasks (cutAt (scaledCuts range scaled) fileGroups.length) := by
  refine runs_of_isCuts hpos hle (scaledCuts_isCuts hnodup hsub hlength hgroups) ?_
  have husable : scaledUsable range scaled tasks = true := by
    simpa [scaledUsable, ← hlength] using fun _ hsp => hsub.subset hsp
  simp [rangeCuts, hscaled, husable]

theorem cutAt_succ {i : ℕ} (hi : i < cuts.length) :
    cutAt cuts p (i + 1) = cuts[i] := by
  rw [cutAt, List.getD_cons_succ, List.getD_eq_getElem _ _ hi]

/-- The scaled range of a key is the run that holds the file group of the key. -/
theorem scaled_range_eq_run {passes : κ → Bool}
    (hpasses : range.splitPoints.Pairwise fun a b => passes b = true → passes a = true)
    (hsub : scaled.splitPoints.Sublist range.splitPoints) (hp : p = range.partitionCount) :
    cutAt (scaledCuts range scaled) p (scaled.splitPoints.countP passes) ≤
        range.splitPoints.countP passes ∧
      range.splitPoints.countP passes <
        cutAt (scaledCuts range scaled) p (scaled.splitPoints.countP passes + 1) := by
  have hcut : ∀ {i : ℕ} (hi : i < scaled.splitPoints.length),
      cutAt (scaledCuts range scaled) p (i + 1) =
        range.splitPoints.idxOf scaled.splitPoints[i] + 1 := by
    intro i hi
    rw [cutAt_succ (by rwa [scaledCuts, List.length_map])]
    exact List.getElem_map _
  -- A scaled split point is passed iff it is among the passed ones of the original list.
  have hpassed : ∀ {i : ℕ} (hi : i < scaled.splitPoints.length),
      i < scaled.splitPoints.countP passes ↔
        range.splitPoints.idxOf scaled.splitPoints[i] < range.splitPoints.countP passes := by
    intro i hi
    have hidx := List.idxOf_lt_length_of_mem (hsub.subset (List.getElem_mem hi))
    have hleft := passes_getElem_iff (hpasses.sublist hsub) hi
    have hright := passes_getElem_iff hpasses hidx
    rw [List.getElem_idxOf] at hright
    rw [← hleft, hright]
  have hcountScaled : scaled.splitPoints.countP passes ≤ scaled.splitPoints.length :=
    List.countP_le_length
  have hcountRange : range.splitPoints.countP passes ≤ range.splitPoints.length :=
    List.countP_le_length
  constructor
  · cases hcount : scaled.splitPoints.countP passes with
    | zero => exact Nat.zero_le _
    | succ i =>
      have hi : i < scaled.splitPoints.length := by omega
      rw [hcut hi]
      exact (hpassed hi).mp (by omega)
  · by_cases hlast : scaled.splitPoints.countP passes < scaled.splitPoints.length
    · rw [hcut hlast]
      have hnot := (hpassed hlast).not.mp (Nat.lt_irrefl _)
      omega
    · rw [cutAt, List.getD_eq_default]
      · rw [hp, RangePartitioning.partitionCount]
        omega
      · rw [List.length_cons, scaledCuts, List.length_map]
        omega

end Rebalance

open NetworkShuffleExec in
/-- Co-location of a range-partitioned scan and a range shuffle. The file groups are given to the
tasks in contiguous, non-empty runs that cover them once. If the split points scale to the number
of tasks, a range shuffle for as many consumers delivers to each task the rows whose file group
lies in the run of the task. -/
theorem range_colocation {κ File Row Value : Type} [LinearOrder κ]
    (routing : RowRouting κ Row Value) (scale : RangeScale κ) (passes : Row → κ → Bool)
    (hroute : ∀ range row, routing.route (.range range) row =
      range.splitPoints.countP (passes row))
    (hpasses : ∀ row a b, a < b → passes row b = true → passes row a = true)
    {range : RangePartitioning κ} (hsorted : range.splitPoints.Pairwise (· < ·))
    {fileGroups : List (List File)} (hgroups : fileGroups.length = range.partitionCount)
    {tasks : ℕ} (hpos : 0 < tasks) (hle : tasks ≤ fileGroups.length) :
    (∀ scaled, scale range tasks = .ok scaled → scaled.splitPoints.length + 1 = tasks →
      scaled.splitPoints.Sublist range.splitPoints →
      ∃ cut : ℕ → ℕ, Runs scale fileGroups range tasks cut ∧
        ∀ (fanoutThreshold taskCount producers num : ℕ) (properties : PlanProperties κ)
          (node : NetworkShuffleExec κ) (inputs : ℕ → StageInput Row), 0 < producers →
          properties.partitioning = .range range →
          Planned fanoutThreshold taskCount producers properties node →
          node.inputStage = .remoteStage num producers →
          node.properties.partitionCount = 1 ∧
          ∀ t < tasks, node.read routing scale inputs ⟨t, tasks⟩ 0 =
            .ok ((producedRows producers inputs).filter fun row =>
              cut t ≤ range.splitPoints.countP (passes row) ∧
                range.splitPoints.countP (passes row) < cut (t + 1))) ∧
    ((∀ scaled, scale range tasks = .ok scaled → scaledUsable range scaled tasks = false) →
      ∃ cut : ℕ → ℕ, Runs scale fileGroups range tasks cut) := by
  refine ⟨?_, fun hscale => ⟨_, runs_of_unusable hpos hle hscale⟩⟩
  intro scaled hscaled hlength hsub
  have hnodup : range.splitPoints.Nodup := hsorted.imp fun h => ne_of_lt h
  have hruns := runs_of_scaled hpos hle hgroups hnodup hscaled hlength hsub
  refine ⟨_, hruns, ?_⟩
  intro fanoutThreshold taskCount producers num properties node inputs hproducers hrange hplanned
    hstage
  obtain ⟨hproducer, hmode, hpart⟩ := hplanned.range_fields hrange
  have hcount : node.properties.partitionCount = 1 := by
    rw [PlanProperties.partitionCount, hpart]
    rfl
  refine ⟨hcount, ?_⟩
  intro t ht
  have hhead : node.producerHead scale tasks = .ok (.repartitionExec (.range scaled)
      node.properties.eqProperties.outputOrdering.isSome) := by
    unfold producerHead
    rw [hmode, hproducer]
    rw [Partitioning.scaleShuffle, hscaled]
    rfl
  rw [read_direct hstage hproducers hmode hhead (by omega)
    (by rw [hcount, Partitioning.partitionCount, RangePartitioning.partitionCount]; omega)]
  congr 1
  refine Multiset.filter_congr fun row _ => ?_
  have hpairwise : range.splitPoints.Pairwise fun a b =>
      passes row b = true → passes row a = true := hsorted.imp fun h => hpasses row _ _ h
  have hrun := scaled_range_eq_run hpairwise hsub hgroups
  rw [hroute, hcount, Nat.mul_one]
  constructor
  · rintro rfl
    exact hrun
  · intro hin
    have hmono := (scaledCuts_isCuts hnodup hsub hlength hgroups).monotone_cutAt
    exact group_unique hmono hrun hin

/-- Rows that are their own range key, behind a split point from the split point on. -/
def routingByRange : RowRouting ℕ ℕ ℕ :=
  { routingByValue with
    route := fun partitioning row =>
      match partitioning with
      | .range range => range.splitPoints.countP fun sp => sp ≤ row
      | other => routingByValue.route other row
    route_hash := fun _ _ _ => rfl
    route_lt := by
      intro partitioning row hpos
      cases partitioning with
      | range range => exact Nat.lt_succ_of_le List.countP_le_length
      | _ => exact routingByValue.route_lt _ row hpos }

/-- A scaling that keeps the last split points. -/
def keepLastPoints : RangeScale ℕ := fun range tasks =>
  .ok ⟨range.splitPoints.drop (range.partitionCount - tasks)⟩

def fourGroups : List (List String) := [["a"], ["b", "c"], [], ["d"]]

/-- A range shuffle over one task. -/
def rangeShuffle : NetworkShuffleExec ℕ :=
  .fromStage (.remoteStage 1 1) ⟨{}, .range ⟨[10, 20, 30]⟩⟩

/-- Four file groups in two tasks, cut at the split point that the scaling keeps. The shuffle sends
a row before it to the first task and a row behind it to the second. Without scaled split points
the groups are still divided in runs. -/
theorem range_colocation_of_four :
    (∃ cut, Runs keepLastPoints fourGroups ⟨[10, 20, 30]⟩ 2 cut ∧
      ∀ t < 2, rangeShuffle.read routingByRange keepLastPoints
        (fun _ => ⟨"DataSourceExec", [{5, 35}]⟩) ⟨t, 2⟩ 0 =
          .ok (({5, 35} : Multiset ℕ).filter fun row =>
            cut t ≤ [10, 20, 30].countP (· ≤ row) ∧ [10, 20, 30].countP (· ≤ row) < cut (t + 1))) ∧
      rebalanceRange keepLastPoints fourGroups ⟨[10, 20, 30]⟩ 2 =
        .ok [[["a", "b", "c"]], [["d"]]] ∧
      ∃ cut, Runs (fun _ _ => .error (.plan "")) fourGroups ⟨[10, 20, 30]⟩ 2 cut := by
  have hpasses : ∀ row a b : ℕ, a < b → decide (b ≤ row) = true → decide (a ≤ row) = true := by
    intro row a b hab hb
    rw [decide_eq_true_eq] at hb ⊢
    omega
  have hcolocation := fun scale => @range_colocation ℕ String ℕ ℕ _ routingByRange scale
    (fun row sp => sp ≤ row) (fun _ _ => rfl) hpasses ⟨[10, 20, 30]⟩ (by decide) fourGroups rfl 2
    (by decide) (by decide)
  obtain ⟨cut, hruns, hread⟩ := (hcolocation keepLastPoints).1 ⟨[30]⟩ rfl rfl (by decide)
  obtain ⟨-, hrows⟩ := hread 100 2 1 1 ⟨{}, .range ⟨[10, 20, 30]⟩⟩ rangeShuffle
    (fun _ => ⟨"DataSourceExec", [{5, 35}]⟩) Nat.one_pos rfl (.direct rfl rfl) rfl
  exact ⟨⟨cut, hruns, hrows⟩, by decide, (hcolocation _).2 fun _ hscaled => by cases hscaled⟩

end DatafusionDistributed
