import DatafusionDistributed.DistributedPlanner.CollectJoins
import DatafusionDistributed.DistributedPlanner.StageInvariant

/-!
# Nodes that fold all partitions into one

A `CoalescePartitionsExec` or `SortPreservingMergeExec` with a fetch is a global limit only if it
runs in one task. The planner restricts the stage of a fold to one task when it puts a
`NetworkCoalesceExec` below it. If the child of the fold ends its stage by itself, because it is
a hash or range `RepartitionExec` or a `BroadcastExec`, another boundary is put there and nothing
restricts the fold.

`fold_runs_in_one_task` shows that folds over other children always run in one task, and so does
every fold of the head stage. `fetch_in_four_tasks` is a plan in which a fold with a fetch runs
in four tasks.
-/

namespace DatafusionDistributed

open Library Plan

variable {κ : Type} {session : Session κ} {df : DataFusion κ}

/-- A `CoalescePartitionsExec` directly over a `NetworkBroadcastExec`. -/
def Plan.coalescesBroadcast : Plan κ → Bool
  | node (.coalescePartitions _) _ [node (.networkBroadcast _) _ _] => true
  | _ => false

/-- A fold runs in one task, unless it coalesces a broadcast. -/
def FoldSafe (plan : Plan κ) (tasks : ℕ) : Prop :=
  plan.kind.isFold = true → tasks = 1 ∨ plan.coalescesBroadcast = true

instance (plan : Plan κ) (tasks : ℕ) : Decidable (FoldSafe plan tasks) :=
  inferInstanceAs (Decidable (_ → _))

/-- The kinds of children over which a fold of this kind gets a `NetworkCoalesceExec`, or may
run in several tasks. -/
def NodeKind.foldsOver : NodeKind κ → NodeKind κ → Bool
  | .coalescePartitions _, .repartition partitioning _ => !partitioning.isShuffled
  | .sortPreservingMerge _ _, child => !child.topsStage
  | _, _ => true

/-- A node of a plan of a single node which, if it is a fold, is not over a node that ends its
stage by itself. -/
structure Plan.FoldsOwnStage (plan : Plan κ) : Prop extends plan.IsLocal where
  foldsOver : ∀ child ∈ plan.children, plan.kind.foldsOver child.kind = true

theorem foldsOwnStage_unary {kind : NodeKind κ} {recorded : Option TaskCountAnnotation}
    {child : Plan κ} (hkind : kind.isNetworkBoundary = false) (harity : kind.Arity 1)
    (hover : kind.foldsOver child.kind = true) :
    (node kind recorded [child]).FoldsOwnStage :=
  ⟨⟨hkind, harity⟩, List.forall_mem_singleton.mpr hover⟩

/-! ## The child of a fold -/

/-- Below a fold that is not over a node ending its stage there is a boundary that allows one
task only, or the broadcast of a coalesce. -/
theorem inject_below_fold {parent : NodeKind κ} {child out : Plan κ}
    (hfold : parent.isFold = true) (hover : parent.foldsOver child.kind = true)
    (h : injectFrom session df (cardinalityBasedBuilder session df) (some parent) child
      = .ok out) :
    (∀ tasks, out.AllowsTasks tasks → tasks = 1) ∨
      ∃ fetch exec recorded inputs, parent = .coalescePartitions fetch ∧
        out = node (.networkBroadcast exec) recorded inputs := by
  by_cases htops : child.kind.topsStage = true
  · -- A node that ends its stage and that a fold may be over is the broadcast of a coalesce.
    right
    obtain ⟨kind, recorded, children⟩ := child
    cases kind with
    | repartition partitioning preserveOrder =>
      have hshuffled : partitioning.isShuffled = true := htops
      cases parent with
      | coalescePartitions fetch | sortPreservingMerge ordering fetch =>
        simp [NodeKind.foldsOver, NodeKind.topsStage, hshuffled] at hover
      | _ => cases hfold
    | broadcast n =>
      obtain ⟨exec, newRecorded, inputs, rfl⟩ := injectFrom_broadcast h
      cases parent with
      | coalescePartitions fetch => exact ⟨fetch, exec, newRecorded, inputs, rfl, rfl⟩
      | sortPreservingMerge ordering fetch => cases hover
      | _ => cases hfold
    | _ => cases htops
  · left
    intro tasks hallows
    exact injectFrom_coalesced hfold (Bool.eq_false_iff.mpr htops) h hallows

/-! ## The invariant -/

theorem foldSafe_of_not_fold {plan : Plan κ} (h : plan.kind.isFold = false) (tasks : ℕ) :
    FoldSafe plan tasks := by
  simp [FoldSafe, h]

theorem NodeKind.arity_of_isFold {kind : NodeKind κ} (h : kind.isFold = true) {n : ℕ}
    (harity : kind.Arity n) : n = 1 := by
  cases kind with
  | coalescePartitions fetch | sortPreservingMerge ordering fetch => exact harity
  | _ => cases h

theorem foldSafe_invariant (session : Session κ) (df : DataFusion κ) :
    StageInvariant session df (cardinalityBasedBuilder session df) FoldsOwnStage FoldSafe where
  closes := cardinalityBasedBuilder_closes session df
  isLocal := fun _ hfolds => hfolds.toIsLocal
  routing := by
    intro plan tasks hrouting
    apply foldSafe_of_not_fold
    cases hkind : plan.kind <;> rw [hkind] at hrouting <;> first | rfl | cases hrouting
  leaf := by
    intro kind recorded tasks harity hfold
    cases NodeKind.arity_of_isFold hfold harity
  union := fun _ _ _ _ _ => foldSafe_of_not_fold (by rfl) _
  transparent := by
    intro kind recorded children processed reconciled taskCount newChildren hfolds hkind _ hne
      hprocessed hreconciled hallows hall hlength hfold
    obtain ⟨child, rfl⟩ : ∃ child, children = [child] :=
      List.length_eq_one_iff.mp (NodeKind.arity_of_isFold hfold hfolds.arity)
    obtain ⟨processedChild, rfl, hchild⟩ := forall₂_singleton_left.mp (injectAll_ok hprocessed)
    rcases inject_below_fold hfold (hfolds.foldsOver child List.mem_cons_self) hchild with
      hone | ⟨fetch, exec, recorded, inputs, rfl, rfl⟩
    · -- The boundary below the fold restricts its stage to one task.
      exact .inl (hone _ (reconcile_allows (by exact hkind) (by exact hne) hreconciled hallows _
        List.mem_cons_self))
    · right
      obtain ⟨newChild, rfl⟩ := List.length_eq_one_iff.mp hlength
      have hnew := hall 0 _ newChild rfl rfl
      cases hnew with
      | leaf hboundary => cases hboundary
      | boundary => rfl
      | transparent htransparent => cases htransparent
  prepared := by
    intro kind recorded newRecorded children newChildren tasks _ _ hsafe hlength hall hfold
    by_cases hone : tasks = 1
    · exact .inl hone
    · rcases hsafe hfold with htasks | hbroadcast
      · exact absurd htasks hone
      · right
        unfold coalescesBroadcast at hbroadcast
        split at hbroadcast
        · rename_i fetch outer exec inner inputs heq
          cases heq
          obtain ⟨newChild, rfl⟩ := List.length_eq_one_iff.mp hlength
          have hnew := hall 0 _ newChild rfl rfl
          cases hnew with
          | elided => exact absurd rfl hone
          | scaled | closed => rfl
          | transparent htransparent => cases htransparent
        · cases hbroadcast
  preparedUnion := fun _ _ => foldSafe_of_not_fold (by rfl) _

/-- If no fold below the head stage is directly over a hash or range repartition, and no
`SortPreservingMergeExec` there is directly over a broadcast, then every fold of the planned
stages runs in one task, whatever task counts are asked for. -/
theorem fold_runs_in_one_task {plan injected out : Plan κ}
    (hfolds : plan.BelowHead FoldsOwnStage none)
    (hinject : injectNetworkBoundaries session df (cardinalityBasedBuilder session df) plan
      = .ok injected)
    (hprepare : prepareNetworkBoundaries df injected = .ok out) :
    ∀ run ∈ out.runs 1, FoldSafe run.1 run.2 := by
  have inv := foldSafe_invariant session df
  have hone : ∀ plan : Plan κ, FoldSafe plan 1 := fun _ _ => .inl rfl
  have hruns := inv.prepared_runs (prepareNetworkBoundaries_ok hprepare)
    (inv.inject_head_runs hone hfolds hinject)
  intro run hrun
  exact (hruns run hrun).1

/-- Injection and preparation of a plan whose scans ask for four tasks. -/
def injectAndPrepare (plan : Plan ℕ) : Result (Plan ℕ) := do
  let injected ← injectNetworkBoundaries (.ofEstimates {} fun _ => 4) (.ofLeaves fun _ => 2)
    (cardinalityBasedBuilder (.ofEstimates {} fun _ => 4) (.ofLeaves fun _ => 2)) plan
  prepareNetworkBoundaries (.ofLeaves fun _ => 2) injected

/-- A limit between two hash repartitions, over `input`. -/
def limitBetweenShuffles (input : Plan ℕ) : Plan ℕ :=
  node (.coalescePartitions none) none
    [node (.repartition (.hash [.expr 0] 2) false) none
      [node (.coalescePartitions (some 5)) none [input]]]

/-- The scan, repartitioned. -/
def shuffledScan : Plan ℕ :=
  node (.repartition (.hash [.expr 1] 2) false) none [node (.other 1) none []]

theorem fold_runs_in_one_task_over_aggregate :
    ∃ out, injectAndPrepare (limitBetweenShuffles (node (.other 2) none [shuffledScan])) = .ok out ∧
      ∀ run ∈ out.runs 1, FoldSafe run.1 run.2 := by
  have hok : ((injectAndPrepare (limitBetweenShuffles
      (node (.other 2) none [shuffledScan]))).map fun _ => true) = .ok true := by
    decide +kernel
  obtain ⟨out, hout, -⟩ := map_ok_iff.mp hok
  obtain ⟨injected, hinjected, hprepare⟩ := bind_ok_iff.mp hout
  refine ⟨out, hout, fold_runs_in_one_task ?_ hinjected hprepare⟩
  -- The fold of the head stage is over a repartition, the one with the fetch is not.
  refine .transparent ⟨rfl, rfl⟩ rfl rfl (List.forall_mem_singleton.mpr ?_)
  exact .everywhere (everywhere_unary (foldsOwnStage_unary rfl rfl (by rfl))
    (everywhere_unary (foldsOwnStage_unary rfl rfl (by rfl))
      (everywhere_unary (foldsOwnStage_unary rfl (by trivial) (by rfl))
        (everywhere_unary (foldsOwnStage_unary rfl rfl (by rfl))
          (.node ⟨⟨rfl, trivial⟩, by simp⟩ (by simp))))))

/-- A limit directly over a hash repartition runs in four tasks. -/
theorem fetch_in_four_tasks :
    (limitBetweenShuffles shuffledScan).SingleNode ∧
      ∃ out, injectAndPrepare (limitBetweenShuffles shuffledScan) = .ok out ∧
        ¬ ∀ run ∈ out.runs 1, FoldSafe run.1 run.2 := by
  constructor
  · exact singleNode_unary rfl (by rfl) (singleNode_unary rfl (by rfl) (singleNode_unary rfl
      (by rfl) (singleNode_unary rfl (by rfl) (singleNode_leaf _ _) _) _) _) _
  · exact exists_ok_of_decide (by decide +kernel)

end DatafusionDistributed
