import DatafusionDistributed.DistributedPlanner.DistributedQueryPlanner
import DatafusionDistributed.DistributedPlanner.Restrictions

/-!
# The task maps of unions and the tasks they run in

A `ChildrenIsolatorUnionExec` has one row of its task map for each task of its stage. Below a
boundary the stage runs in the tasks it was closed with, so the two agree. The head stage is closed
with its reconciled task count as well, but always runs in one task.

`union_maps_agree` shows that only a union of the head stage can have another number of rows, and
only if nothing restricts the head stage to one task. `head_union_in_one_task` is such a plan.
-/

namespace DatafusionDistributed

open Library Plan

variable {κ : Type} {session : Session κ} {df : DataFusion κ}

/-- The number of rows of the task map of a union. -/
def NodeKind.mapLength : NodeKind κ → Option ℕ
  | .childrenIsolatorUnion tasks => some tasks.taskIdxMap.length
  | _ => none

/-- A union has one row for each task it runs in. -/
def UnionAgrees (plan : Plan κ) (tasks : ℕ) : Prop :=
  ∀ length ∈ plan.kind.mapLength, length = tasks

instance (plan : Plan κ) (tasks : ℕ) : Decidable (UnionAgrees plan tasks) :=
  inferInstanceAs (Decidable (∀ length ∈ plan.kind.mapLength, length = tasks))

variable {plan out : Plan κ} {kind : NodeKind κ} {recorded : Option TaskCountAnnotation}
  {children : List (Plan κ)} {taskCount : TaskCountAnnotation} {tasks : ℕ}

theorem unionAgrees_of_not_union (h : plan.kind.mapLength = none) (tasks : ℕ) :
    UnionAgrees plan tasks := by
  simp [UnionAgrees, h]

theorem NodeKind.mapLength_of_transparent (h : kind.isTransparent = true) :
    kind.mapLength = none := by
  cases kind <;> first | rfl | cases h

theorem unionAgrees_invariant (session : Session κ) (df : DataFusion κ) :
    StageInvariant session df (cardinalityBasedBuilder session df) IsLocal UnionAgrees where
  closes := cardinalityBasedBuilder_closes session df
  isLocal := fun _ hlocal => hlocal
  routing := by
    intro plan tasks hrouting
    apply unionAgrees_of_not_union
    cases hkind : plan.kind <;> rw [hkind] at hrouting <;> first | rfl | cases hrouting
  leaf := by
    intro kind recorded tasks harity length hmem
    cases kind with
    | childrenIsolatorUnion tasks => exact absurd harity (Nat.lt_irrefl 0)
    | _ => cases hmem
  union := by
    intro union recorded children tasks hlength length hmem
    cases hmem
    exact hlength
  transparent := fun _ hkind _ _ _ _ _ _ _ =>
    unionAgrees_of_not_union (by exact NodeKind.mapLength_of_transparent hkind) _
  prepared := fun hkind _ _ _ _ =>
    unionAgrees_of_not_union (by exact NodeKind.mapLength_of_transparent hkind) _
  preparedUnion := by
    intro union newUnion recorded newRecorded children newChildren tasks hlength hold length hmem
    cases hmem
    rw [hlength]
    exact hold _ rfl

/-! ## Unions of the head stage -/

mutual

/-- Whether the stage that a node of the input plan belongs to has a union at or below the
node, outside the children of other unions. -/
def headHasUnion (parent : Option (NodeKind κ)) : Plan κ → Bool
  | node kind _ children =>
    !endsStage parent kind &&
      (kind.mapLength.isSome && !children.isEmpty || headHasUnionAll kind children)

def headHasUnionAll (parent : NodeKind κ) : List (Plan κ) → Bool
  | [] => false
  | child :: children => headHasUnion (some parent) child || headHasUnionAll parent children

end

mutual

/-- The same for a plan with boundaries, which end its stages. -/
def openUnion : Plan κ → Bool
  | node kind _ children =>
    !kind.isNetworkBoundary &&
      (kind.mapLength.isSome && !children.isEmpty || openUnionAny children)

def openUnionAny : List (Plan κ) → Bool
  | [] => false
  | child :: children => openUnion child || openUnionAny children

end

theorem openUnion_withTaskCount (plan : Plan κ) (taskCount : TaskCountAnnotation) :
    openUnion (plan.withTaskCount taskCount) = openUnion plan := by
  cases plan
  rfl

theorem openUnion_boundary (h : kind.isNetworkBoundary = true)
    (recorded : Option TaskCountAnnotation) (children : List (Plan κ)) :
    openUnion (node kind recorded children) = false := by
  rw [openUnion, h]
  rfl

theorem openUnion_union {tasks : UnionTasks} (hne : children ≠ []) :
    openUnion (node (.childrenIsolatorUnion tasks) recorded children) = true := by
  obtain ⟨child, rest, rfl⟩ := List.exists_cons_of_ne_nil hne
  rfl

theorem openUnion_transparent (h : kind.isTransparent = true)
    (recorded : Option TaskCountAnnotation) (children : List (Plan κ)) :
    openUnion (node kind recorded children) = openUnionAny children := by
  rw [openUnion, (NodeKind.isTransparent_iff.mp h).1, NodeKind.mapLength_of_transparent h]
  rfl

theorem openUnionAny_eq_any (children : List (Plan κ)) :
    openUnionAny children = children.any openUnion := by
  induction children with
  | nil => rfl
  | cons child children ih => rw [openUnionAny, ih, List.any_cons]

/-- Children that correspond to each other have an open union alike. -/
theorem openUnionAny_congr {newChildren : List (Plan κ)}
    (hlength : newChildren.length = children.length)
    (h : ∀ (i : ℕ) (child newChild : Plan κ), children[i]? = some child →
      newChildren[i]? = some newChild → openUnion newChild = openUnion child) :
    openUnionAny newChildren = openUnionAny children := by
  induction children generalizing newChildren with
  | nil =>
    rw [List.length_eq_zero_iff.mp hlength]
  | cons child children ih =>
    obtain ⟨newChild, newChildren, rfl⟩ := List.exists_cons_of_length_eq_add_one hlength
    rw [openUnionAny, openUnionAny, h 0 child newChild rfl rfl]
    rw [ih (by simpa using hlength) fun i old new hold hnew => h (i + 1) old new hold hnew]

theorem Propagated.openUnion_eq (h : Propagated session df taskCount plan out) :
    openUnion out = openUnion plan := by
  have hleaf : ∀ (kind : NodeKind κ) (recorded : Option TaskCountAnnotation),
      openUnion (node kind recorded []) = false := by
    simp [openUnion, openUnionAny]
  induction h with
  | leaf => rw [hleaf, hleaf]
  | boundary hkind _ => rw [openUnion_boundary hkind, openUnion_boundary hkind]
  | twoPhase _ => rfl
  | @union _ _ children newChildren _ _ _ _ _ _ _ _ hlength _ _ _ =>
    cases children with
    | nil => rw [List.length_eq_zero_iff.mp hlength, hleaf, hleaf]
    | cons child children =>
      rw [openUnion_union (List.cons_ne_nil _ _), openUnion_union]
      intro hnil
      rw [hnil] at hlength
      cases hlength
  | transparent hkind _ hlength _ ih =>
    rw [openUnion_transparent hkind, openUnion_transparent hkind, openUnionAny_congr hlength ih]

/-- A visited node, before its stage ends, has an open union iff the input has one there. -/
theorem openNode_openUnion {processed : List (Plan κ)} {rebuilt : Plan κ}
    (hlocal : (node kind recorded children).IsLocal) (hlength : processed.length = children.length)
    (hchildren : openUnionAny processed = headHasUnionAll kind children)
    (h : openNode session df (node kind recorded children) processed = .ok (rebuilt, taskCount)) :
    openUnion rebuilt = (kind.mapLength.isSome && !children.isEmpty ||
      headHasUnionAll kind children) := by
  have hempty : processed.isEmpty = children.isEmpty := by
    cases processed <;> cases children <;> first | rfl | cases hlength
  rcases openNode_local hlocal hlength h with ⟨union, newUnion, rfl, -, rfl⟩ |
    ⟨htransparent, rfl, -⟩
  · rw [openUnion, hempty, hchildren]
    rfl
  · rw [openUnion_transparent htransparent, hchildren,
      NodeKind.mapLength_of_transparent htransparent]
    rfl

theorem openUnionAny_injectAll {parent : NodeKind κ} {processed : List (Plan κ)}
    (h : List.Forall₂ (fun child out => openUnion out = headHasUnion (some parent) child)
      children processed) : openUnionAny processed = headHasUnionAll parent children := by
  induction h with
  | nil => rfl
  | cons hchild _ ih => rw [openUnionAny, headHasUnionAll, hchild, ih]

/-- The end of a visit: the unions of the node stay in its stage unless the stage ends. -/
theorem NodePlaced.openUnion_eq {parent : Option (NodeKind κ)}
    (h : NodePlaced session df (cardinalityBasedBuilder session df) parent plan taskCount out) :
    openUnion out = (!endsStage parent plan.kind && openUnion plan) := by
  rcases h.ends_or_kept with ⟨kind, recorded, boundary, result, rfl, hstage, hends, -⟩ |
    ⟨rfl, hkind, hout⟩ | ⟨-, hends, rfl⟩
  · rw [hends]
    exact openUnion_boundary (NodeKind.isNetworkBoundary_of_inputStage hstage) _ _
  · rw [hout.openUnion_eq, endsStage, hkind]
    rfl
  · rw [openUnion_withTaskCount, hends]
    rfl

/-- Injection keeps the unions of a stage in it, and moves no other union there. -/
theorem inject_openUnion {parent : Option (NodeKind κ)} (hplan : plan.SingleNode)
    (h : injectFrom session df (cardinalityBasedBuilder session df) parent plan = .ok out) :
    openUnion out = headHasUnion parent plan := by
  induction plan using Plan.induction generalizing parent out with
  | node kind recorded children ih =>
    obtain ⟨hlocal, hchildren⟩ := everywhere_iff.mp hplan
    obtain ⟨processed, rebuilt, taskCount, hprocessed, hopen, hplaced⟩ := injectFrom_ok h
    have hpairs := injectAll_ok hprocessed
    have hany : openUnionAny processed = headHasUnionAll kind children := by
      apply openUnionAny_injectAll
      rw [List.forall₂_iff_get]
      refine ⟨hpairs.length_eq, ?_⟩
      intro i hlt hlt'
      have hmem := List.get_mem children ⟨i, hlt⟩
      exact ih _ hmem (hchildren _ hmem) (hpairs.get hlt hlt')
    rw [hplaced.openUnion_eq, openNode_endsStage hopen,
      openNode_openUnion hlocal hpairs.length_eq.symm hany hopen]
    rfl

/-! ## The head stage in one task -/

theorem forallRuns_of_no_openUnion (hunion : openUnion plan = false)
    (h : plan.ForallRuns (Sound df UnionAgrees) tasks) (newTasks : ℕ) :
    plan.ForallRuns (Sound df UnionAgrees) newTasks := by
  induction plan using Plan.induction with
  | node kind recorded children ih =>
    cases hstage : kind.inputStage with
    | some stage =>
      have hnone : (node kind recorded children).kind.mapLength = none :=
        by cases kind <;> first | rfl | cases hstage
      rw [forallRuns_boundary hstage] at h ⊢
      exact ⟨⟨unionAgrees_of_not_union hnone _, h.1.2⟩, h.2⟩
    | none =>
      rcases NodeKind.union_or_transparent (congrArg Option.isSome hstage) with
        ⟨tasks, rfl⟩ | hkind
      · -- A union of the head stage has children, so it counts as one.
        have hplaced := (forallRuns_iff.mp h).1.2 tasks rfl
        rw [openUnion_union] at hunion
        · cases hunion
        · intro hnil
          apply hplaced.split.nonempty
          rw [← List.length_eq_zero_iff, ← hplaced.length_children]
          rw [hnil]
          rfl
      · rw [openUnion_transparent hkind, openUnionAny_eq_any, List.any_eq_false] at hunion
        rw [forallRuns_transparent hkind] at h ⊢
        have hnone : (node kind recorded children).kind.mapLength = none :=
          NodeKind.mapLength_of_transparent hkind
        refine ⟨⟨unionAgrees_of_not_union hnone _, h.1.2⟩, ?_⟩
        intro child hchild
        exact ih child hchild (Bool.eq_false_iff.mpr (hunion child hchild)) (h.2 child hchild)

/-- The head stage is closed with one task if it is restricted to one, or if no stage may have
more. -/
theorem openHead_asUsize {builder : Builder κ} {rebuilt : Plan κ} (hplan : plan.SingleNode)
    (hopen : openHead session df builder plan = .ok (rebuilt, taskCount))
    (h : plan.KeptToOne session ∨ session.maxTasks = .ok 1) : taskCount.asUsize = 1 := by
  obtain ⟨kind, recorded, children⟩ := plan
  obtain ⟨processed, hprocessed, hopen⟩ := bind_ok_iff.mp hopen
  rcases h with hkept | hmax
  · exact hkept.allows hplan hprocessed hopen taskCount.allows_asUsize
  · exact Nat.le_antisymm (openNode_le hmax hopen) taskCount.asUsize_pos

/-- Every union of the planned stages has one row for each task it runs in, if there is no union
in the head stage of the input plan, or a node of the head stage restricts it to one task. -/
theorem union_maps_agree {plan injected out : Plan κ} (hplan : plan.SingleNode)
    (hhead : headHasUnion none plan = false ∨ plan.KeptToOne session ∨ session.maxTasks = .ok 1)
    (hinject : injectNetworkBoundaries session df (cardinalityBasedBuilder session df) plan
      = .ok injected)
    (hprepare : prepareNetworkBoundaries df injected = .ok out) :
    ∀ run ∈ out.runs 1, UnionAgrees run.1 run.2 := by
  intro run hrun
  have inv := unionAgrees_invariant session df
  obtain ⟨rebuilt, taskCount, hopen, hplaced⟩ := injectNetworkBoundaries_ok hinject
  have hruns := inv.inject_runs hplan hopen hplaced
  have hone : injected.ForallRuns (Sound df UnionAgrees) 1 := by
    rcases hhead with hnone | hkept
    · exact forallRuns_of_no_openUnion ((inject_openUnion hplan hinject).trans hnone) hruns 1
    · rw [← openHead_asUsize hplan hopen hkept]
      exact hruns
  exact (inv.prepared_runs (prepareNetworkBoundaries_ok hprepare) hone run hrun).1

/-- Two scans of four tasks each, one of them shuffled, below a union. -/
def unionOfScans : Plan ℕ :=
  node .union none
    [node (.other 3) none
      [node (.repartition (.hash [.expr 0] 2) false) none [node (.other 1) none []]],
      node (.other 2) none []]

theorem unionOfScans_singleNode : unionOfScans.SingleNode :=
  singleNode_binary rfl (by exact Nat.zero_lt_two)
    (singleNode_unary rfl (by trivial) (singleNode_unary rfl (by rfl) (singleNode_leaf _ _) _) _)
    (singleNode_leaf _ _) _

/-- Below a `CoalescePartitionsExec` the union runs in the four tasks of its own stage. -/
theorem union_maps_agree_below_coalesce :
    ∃ out, createDistributedPlan (.ofEstimates {} fun _ => 4) (.ofLeaves fun _ => 2)
        (node (.coalescePartitions none) none [unionOfScans]) = .ok out ∧
      ∀ run ∈ out.runs 1, UnionAgrees run.1 run.2 := by
  have hok : ((createDistributedPlan (.ofEstimates {} fun _ => 4) (.ofLeaves fun _ => 2)
      (node (.coalescePartitions none) none [unionOfScans])).map fun _ => true) = .ok true := by
    decide +kernel
  have hhead : ((preparePlan (.ofEstimates {} fun _ => 4) (.ofLeaves fun _ => 2)
      (node (.coalescePartitions none) none [unionOfScans])).map (headHasUnion none)) =
        .ok false := by
    decide +kernel
  obtain ⟨out, hout, -⟩ := map_ok_iff.mp hok
  obtain ⟨prepared, injected, hprepared, hinjected, hprepare⟩ := createDistributedPlan_ok hout
  have hsingle := preparePlan_singleNode
    (singleNode_unary rfl (by rfl) unionOfScans_singleNode _) hprepared
  rw [hprepared] at hhead
  exact ⟨out, hout, union_maps_agree hsingle (.inl (Except.ok.inj hhead)) hinjected hprepare⟩

/-- Above the union is only a repartition to one partition, so the union is in the head stage.
It gets a map for four tasks and runs in one. A shuffle below it survives, so the plan is
distributed. -/
theorem head_union_in_one_task :
    ∃ prepared injected out,
      preparePlan (.ofEstimates {} fun _ => 4) (.ofLeaves fun _ => 2)
        (node (.repartition (.roundRobinBatch 1) false) none [unionOfScans]) = .ok prepared ∧
      prepared.SingleNode ∧
      injectNetworkBoundaries (.ofEstimates {} fun _ => 4) (.ofLeaves fun _ => 2)
        (cardinalityBasedBuilder (.ofEstimates {} fun _ => 4) (.ofLeaves fun _ => 2)) prepared
          = .ok injected ∧
      prepareNetworkBoundaries (.ofLeaves fun _ => 2) injected = .ok out ∧
      (∃ run ∈ out.runs 1, run.1.kind.isNetworkBoundary = true) ∧
      ∃ run ∈ out.runs 1, run.1.kind.mapLength = some 4 ∧ run.2 = 1 := by
  have hok : ∃ out, createDistributedPlan (.ofEstimates {} fun _ => 4) (.ofLeaves fun _ => 2)
      (node (.repartition (.roundRobinBatch 1) false) none [unionOfScans]) = .ok out ∧
        (∃ run ∈ out.runs 1, run.1.kind.isNetworkBoundary = true) ∧
          ∃ run ∈ out.runs 1, run.1.kind.mapLength = some 4 ∧ run.2 = 1 :=
    exists_ok_of_decide (by decide +kernel)
  obtain ⟨out, hout, hruns⟩ := hok
  obtain ⟨prepared, injected, hprepared, hinjected, hprepare⟩ := createDistributedPlan_ok hout
  exact ⟨prepared, injected, out, hprepared, preparePlan_singleNode
    (singleNode_unary rfl (by rfl) unionOfScans_singleNode _) hprepared, hinjected, hprepare,
    hruns.1, hruns.2⟩

end DatafusionDistributed
