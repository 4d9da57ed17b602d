import DatafusionDistributed.DistributedPlanner.DistributedQueryPlanner
import DatafusionDistributed.DistributedPlanner.StageInvariant

/-!
# Joins that collect their build side

A `CollectLeft` hash join, a nested loop join and a cross join read their whole build side in
every task. In a stage with several tasks this is right only if the build side is broadcast to
every task and the join never emits build rows of its own.

The main result is `collect_join_safety`.
-/

namespace DatafusionDistributed

open Library Plan

variable {κ : Type} {session : Session κ} {df : DataFusion κ}

/-- The join types that emit rows of the build side which are not part of a pair. -/
def JoinType.emitsBuildRows : JoinType → Bool
  | left | full | leftSemi | leftAnti | leftMark => true
  | inner | right | rightSemi | rightAnti | rightMark => false

theorem JoinType.emitsBuildRows_eq_not_safe (joinType : JoinType) :
    joinType.emitsBuildRows = !joinType.isLeftBroadcastSafe := by
  cases joinType <;> rfl

/-- The joins that read their whole build side in every task. -/
def NodeKind.collectsBuild : NodeKind κ → Bool
  | .hashJoin join => join.mode = .collectLeft
  | .nestedLoopJoin _ | .crossJoin => true
  | _ => false

/-- The joins for which copies of the build side in several tasks do no harm. -/
def NodeKind.sharesBuild : NodeKind κ → Bool
  | .hashJoin join => !join.joinType.emitsBuildRows && !join.nullAware
  | .nestedLoopJoin joinType => !joinType.emitsBuildRows
  | .crossJoin => true
  | _ => false

/-- The build side is a fetch-less `CoalescePartitionsExec` over a `NetworkBroadcastExec`. -/
def Plan.ReadsBroadcast (plan : Plan κ) : Prop :=
  ∃ outer exec inner inputs rest, plan.children =
    node (.coalescePartitions none) outer [node (.networkBroadcast exec) inner inputs] :: rest

/-- A join that collects its build side runs in one task, or may share the build side and reads
it from a broadcast. -/
def JoinSafe (plan : Plan κ) (tasks : ℕ) : Prop :=
  plan.kind.collectsBuild = true →
    tasks = 1 ∨ (plan.kind.sharesBuild = true ∧ plan.ReadsBroadcast)

theorem canBroadcast_of_not_collects {kind : NodeKind κ} (hcollects : kind.collectsBuild = true)
    (h : collectsInOneTask session.config.broadcastJoins kind = false) :
    session.config.broadcastJoins = true ∧ canBroadcastLeftInput kind = true ∧
      kind.sharesBuild = true := by
  cases kind with
  | hashJoin join | nestedLoopJoin joinType | crossJoin =>
    simp_all [collectsInOneTask, NodeKind.collectsBuild, canBroadcastLeftInput,
      NodeKind.sharesBuild, JoinType.emitsBuildRows_eq_not_safe]
  | _ => cases hcollects

/-! ## The build side through the passes -/

variable {outer inner : Option TaskCountAnnotation} {inputs : List (Plan κ)} {out plan : Plan κ}

/-- Injection puts a boundary between the coalesce and the broadcast. -/
theorem inject_coalescedBroadcast {parent : NodeKind κ} {n : ℕ} (hparent : parent.isFold = false)
    (h : injectFrom session df (cardinalityBasedBuilder session df) (some parent)
      (node (.coalescePartitions none) outer [node (.broadcast n) inner inputs]) = .ok out) :
    ∃ newOuter exec newInner newInputs, out = node (.coalescePartitions none) newOuter
      [node (.networkBroadcast exec) newInner newInputs] := by
  -- The broadcast ends its stage; the coalesce does not.
  obtain ⟨processed, -, taskCount, hprocessed, -, -, rfl⟩ := injectFrom_kept rfl rfl hparent h
  obtain ⟨child, rfl, hchild⟩ := forall₂_singleton_left.mp (injectAll_ok hprocessed)
  obtain ⟨exec, newInner, newInputs, rfl⟩ := injectFrom_broadcast hchild
  exact ⟨some taskCount, exec, newInner, newInputs, rfl⟩

/-- Propagation changes neither of the two nodes. -/
theorem Propagated.coalescedBroadcast {taskCount : TaskCountAnnotation}
    {exec : NetworkBroadcastExec κ}
    (h : Propagated session df taskCount (node (.coalescePartitions none) outer
      [node (.networkBroadcast exec) inner inputs]) out) :
    ∃ newOuter newInner, out = node (.coalescePartitions none) newOuter
      [node (.networkBroadcast exec) newInner inputs] := by
  cases h with
  | boundary hboundary => cases hboundary
  | transparent _ _ hlength hall =>
    obtain ⟨newChild, rfl⟩ := List.length_eq_one_iff.mp hlength
    have hchild := hall 0 _ newChild rfl rfl
    cases hchild with
    | leaf hkind => cases hkind
    | boundary => exact ⟨_, _, rfl⟩
    | transparent hkind => cases hkind

/-- In several tasks the broadcast is not removed. -/
theorem Prepared.coalescedBroadcast {tasks : ℕ} {exec : NetworkBroadcastExec κ} (htasks : tasks ≠ 1)
    (h : Prepared df tasks (node (.coalescePartitions none) outer
      [node (.networkBroadcast exec) inner inputs]) out) :
    ∃ newOuter newExec newInner newInputs, out = node (.coalescePartitions none) newOuter
      [node (.networkBroadcast newExec) newInner newInputs] := by
  cases h with
  | elided hstage | scaled hstage | closed hstage => cases hstage
  | transparent _ hlength hall =>
    obtain ⟨newChild, rfl⟩ := List.length_eq_one_iff.mp hlength
    have hchild := hall 0 _ newChild rfl rfl
    cases hchild with
    | elided => exact absurd rfl htasks
    | scaled | closed => exact ⟨_, _, _, _, rfl⟩
    | transparent hkind => cases hkind

/-! ## The invariant -/

theorem NodeKind.arity_of_collectsBuild {kind : NodeKind κ} (h : kind.collectsBuild = true) {n : ℕ}
    (harity : kind.Arity n) : n = 2 := by
  cases kind with
  | hashJoin join | nestedLoopJoin joinType | crossJoin => exact harity
  | _ => cases h

theorem joinSafe_of_not_collects (h : plan.kind.collectsBuild = false) (tasks : ℕ) :
    JoinSafe plan tasks := by
  simp [JoinSafe, h]

theorem joinSafe_invariant (session : Session κ) (df : DataFusion κ) :
    StageInvariant session df (cardinalityBasedBuilder session df) (BuildReady session)
      JoinSafe where
  closes := cardinalityBasedBuilder_closes session df
  isLocal := fun _ hready => hready.toIsLocal
  routing := by
    intro plan tasks hrouting
    apply joinSafe_of_not_collects
    cases hkind : plan.kind <;> rw [hkind] at hrouting <;> first | rfl | cases hrouting
  leaf := by
    intro kind recorded tasks harity hcollects
    cases NodeKind.arity_of_collectsBuild hcollects harity
  union := fun _ _ _ _ _ => joinSafe_of_not_collects (by rfl) _
  transparent := by
    intro kind recorded children processed reconciled taskCount newChildren hready _ _ hne
      hprocessed hreconciled hallows hall hlength hcollects
    by_cases hone : collectsInOneTask session.config.broadcastJoins kind = true
    · exact .inl (reconcile_collectsInOneTask (by exact hne) hone hreconciled hallows)
    · right
      obtain ⟨hjoins, hcan, hshares⟩ :=
        canBroadcast_of_not_collects hcollects (Bool.eq_false_iff.mpr hone)
      refine ⟨hshares, ?_⟩
      obtain ⟨outer, n, inner, inputs, rest, hshape⟩ := hready.broadcasts hjoins hcan
      rw [children_node] at hshape
      have hpairs := injectAll_ok hprocessed
      rw [hshape, List.forall₂_cons_left_iff] at hpairs
      obtain ⟨build, others, hbuild, -, rfl⟩ := hpairs
      have hparent : kind.isFold = false := by
        cases kind <;> first | rfl | cases hcan
      obtain ⟨newOuter, exec, newInner, newInputs, rfl⟩ := inject_coalescedBroadcast hparent hbuild
      obtain ⟨newBuild, newOthers, rfl⟩ := List.exists_cons_of_length_eq_add_one hlength
      obtain ⟨lastOuter, lastInner, rfl⟩ := (hall 0 _ newBuild rfl rfl).coalescedBroadcast
      exact ⟨lastOuter, exec, lastInner, newInputs, newOthers, rfl⟩
  prepared := by
    intro kind recorded newRecorded children newChildren tasks _ _ hsafe hlength hall hcollects
    by_cases hone : tasks = 1
    · exact .inl hone
    · rcases hsafe hcollects with htasks | ⟨hshares, outer, exec, inner, inputs, rest, hshape⟩
      · exact absurd htasks hone
      · subst hshape
        obtain ⟨newBuild, newOthers, rfl⟩ := List.exists_cons_of_length_eq_add_one hlength
        obtain ⟨newOuter, newExec, newInner, newInputs, rfl⟩ :=
          (hall 0 _ newBuild rfl rfl).coalescedBroadcast hone
        exact .inr ⟨hshares, newOuter, newExec, newInner, newInputs, newOthers, rfl⟩
  preparedUnion := fun _ _ => joinSafe_of_not_collects (by rfl) _

theorem joinSafe_runs {injected : Plan κ} (hready : plan.Everywhere (BuildReady session))
    (hinject : injectNetworkBoundaries session df (cardinalityBasedBuilder session df) plan
      = .ok injected) (hprepare : prepareNetworkBoundaries df injected = .ok out) :
    out.ForallRuns JoinSafe 1 := by
  have inv := joinSafe_invariant session df
  have hone : ∀ plan : Plan κ, JoinSafe plan 1 := fun _ _ => .inl rfl
  have hruns := inv.prepared_runs (prepareNetworkBoundaries_ok hprepare)
    (inv.inject_head_runs hone (.everywhere hready) hinject)
  intro run hrun
  exact (hruns run hrun).1

/-- The root may be coalesced after the normalisation. -/
theorem normalizedRoot_singleNode {normalized root : Plan κ} (hplan : plan.SingleNode)
    (hnormalize : normalizeCollectJoins session df plan = .ok normalized)
    (hroot : root = normalized ∨ root = coalesceRoot df normalized) : root.SingleNode := by
  have hnormalized := normalizeCollectJoins_singleNode hplan hnormalize
  rcases hroot with rfl | rfl
  · exact hnormalized
  · exact coalesceRoot_singleNode hnormalized

/-- After normalisation, insertion of broadcasts and unions, injection and preparation, every
join that collects its build side runs in one task, or emits no build rows, is not null-aware
and reads its build side from a broadcast. -/
theorem collect_join_safety {plan normalized root broadcast unions injected out : Plan κ}
    (hplan : plan.SingleNode) (hnormalize : normalizeCollectJoins session df plan = .ok normalized)
    (hroot : root = normalized ∨ root = coalesceRoot df normalized)
    (hbroadcast : insertBroadcastExecs session df root = .ok broadcast)
    (hunions : insertChildrenIsolatorUnions session df broadcast = .ok unions)
    (hinject : injectNetworkBoundaries session df (cardinalityBasedBuilder session df) unions
      = .ok injected)
    (hprepare : prepareNetworkBoundaries df injected = .ok out) :
    ∀ run ∈ out.runs 1, JoinSafe run.1 run.2 := by
  have hsingle := normalizedRoot_singleNode hplan hnormalize hroot
  exact joinSafe_runs (insertChildrenIsolatorUnions_buildReady
    (insertBroadcastExecs_buildReady hsingle hbroadcast) hunions) hinject hprepare

/-- An inner join of two scans, with a hash aggregation above it. -/
def joinOfTwoScans : Plan ℕ :=
  node (.repartition (.hash [.expr 0] 2) false) none
    [node (.hashJoin ⟨.collectLeft, .inner, false, [.expr 0], [.expr 1]⟩) none
      [node (.other 1) none [], node (.other 2) none []]]

/-- Here the join runs in three tasks, and reads a broadcast. -/
theorem collect_join_safety_of_two_scans :
    ∃ out : Plan ℕ, createDistributedPlan (.ofEstimates {} fun _ => 3)
        (.ofLeaves fun _ => 2) joinOfTwoScans = .ok out ∧
      (out.runs 1).any (fun run => run.1.kind.collectsBuild && run.2 == 3) = true ∧
      ∀ run ∈ out.runs 1, JoinSafe run.1 run.2 := by
  have hok : ((createDistributedPlan (.ofEstimates {} fun _ => 3)
      (.ofLeaves fun _ => 2) joinOfTwoScans).map fun out =>
        (out.runs 1).any (fun run => run.1.kind.collectsBuild && run.2 == 3)) = .ok true := by
    decide +kernel
  obtain ⟨out, hout, hok⟩ := map_ok_iff.mp hok
  obtain ⟨prepared, injected, hprepared, hinjected, hprepare⟩ := createDistributedPlan_ok hout
  obtain ⟨normalized, broadcast, hnormalized, hbroadcast, hunions⟩ := preparePlan_ok hprepared
  refine ⟨out, hout, hok, ?_⟩
  refine collect_join_safety ?_ hnormalized (.inr rfl) hbroadcast hunions hinjected hprepare
  exact singleNode_unary rfl (by rfl)
    (singleNode_binary rfl (by rfl) (singleNode_leaf _ _) (singleNode_leaf _ _) _) _

end DatafusionDistributed
