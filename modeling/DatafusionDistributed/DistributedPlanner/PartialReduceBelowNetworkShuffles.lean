import DatafusionDistributed.DistributedPlanner.NetworkBoundary
import DatafusionDistributed.ExecutionPlans.ShuffleDelivery
import DatafusionDistributed.Library.Grouping
import DatafusionDistributed.Recursion

/-!
# `partial_reduce_below_network_shuffles`

The pass puts an aggregate in mode `PartialReduce` between a network boundary and a hash
`RepartitionExec` over a partial aggregate, so that the partial states of one producer task are
merged before they are sent. The new node groups by the columns of the partial rows, with the
grouping sets of the partial aggregate.

An aggregate evaluates its group-by once for every grouping set, on whatever rows it reads. For
the partial rows of several grouping sets that is once too often.
-/

namespace DatafusionDistributed

open Library Plan

/-! ## Aggregates -/

/-- An expression of a group-by. -/
inductive GroupExpr where
  | column (name : String) (index : ℕ)
  | expr (id : ℕ)
  deriving DecidableEq, Repr

/-- `PhysicalGroupBy`: the expressions with their names, what replaces them where a grouping set
masks them, and the masks. Without grouping sets there is one mask, which masks nothing. -/
structure PhysicalGroupBy where
  expr : List (GroupExpr × String)
  nullExpr : List (GroupExpr × String)
  groups : List (List Bool)
  hasGroupingSet : Bool
  length_of_mem : ∀ mask ∈ groups, mask.length = expr.length
  length_nullExpr : hasGroupingSet = true → nullExpr.length = expr.length
  groups_single : hasGroupingSet = false →
    groups = [List.replicate expr.length false] ∨ expr = [] ∧ groups = []

namespace PhysicalGroupBy

def isTrueNoGrouping (self : PhysicalGroupBy) : Bool :=
  self.expr.isEmpty && !self.hasGroupingSet

/-- The columns of partial rows with the given names. -/
def columns (names : List String) : List (GroupExpr × String) :=
  names.zipIdx.map fun indexed => (.column indexed.1 indexed.2, indexed.1)

@[simp] theorem length_columns (names : List String) : (columns names).length = names.length := by
  simp [columns]

/-- The group-by of the node that the pass inserts: the columns of the partial rows, with the
masks as they are. -/
def partialReduce (orig : PhysicalGroupBy) : PhysicalGroupBy where
  expr := columns (orig.expr.map Prod.snd)
  nullExpr := columns (orig.nullExpr.map Prod.snd)
  groups := orig.groups
  hasGroupingSet := orig.hasGroupingSet
  length_of_mem := by simpa using orig.length_of_mem
  length_nullExpr := by simpa using orig.length_nullExpr
  groups_single := by simpa [columns] using orig.groups_single

/-- `as_final`: all columns of the partial rows, the grouping id among them. -/
def asFinal (self : PhysicalGroupBy) : PhysicalGroupBy where
  expr := columns (self.expr.map Prod.snd ++ if self.hasGroupingSet then ["__grouping_id"] else [])
  nullExpr := []
  groups := [List.replicate (self.expr.length + if self.hasGroupingSet then 1 else 0) false]
  hasGroupingSet := false
  length_of_mem := by
    intro mask hmask
    rw [List.mem_singleton.mp hmask]
    cases self.hasGroupingSet <;> simp
  length_nullExpr := by
    intro h
    cases h
  groups_single := by
    intro
    left
    cases self.hasGroupingSet <;> simp

end PhysicalGroupBy

inductive AggregateMode where
  | partialMode
  | partialReduce
  | finalMode
  | finalPartitioned
  | single
  | singlePartitioned
  deriving DecidableEq, Repr

/-- `AggregateExec`: the aggregate and filter expressions and the schema are known by numbers. -/
structure AggregateExec where
  mode : AggregateMode
  groupBy : PhysicalGroupBy
  aggrExpr : List ℕ
  filterExpr : List (Option ℕ)
  inputSchema : ℕ

/-- Which of the nodes without a constructor of their own are aggregates, and the node of an
aggregate. -/
structure AggregateNodes where
  downcast : ℕ → Option AggregateExec
  op : AggregateExec → ℕ

/-! ## The pass -/

variable {κ : Type}

def Plan.asAggregate (nodes : AggregateNodes) : Plan κ → Option AggregateExec
  | node (.other op) _ _ => nodes.downcast op
  | _ => none

/-- `AggregateExec::try_new`. -/
def AggregateNodes.tryNew (nodes : AggregateNodes) (df : DataFusion κ) (agg : AggregateExec)
    (input : Plan κ) : Result (Plan κ) := do
  df.check (.other (nodes.op agg)) [input.properties df]
  return node (.other (nodes.op agg)) none [input]

/-- The aggregate that the pass puts above the repartition of a partial aggregate. -/
def AggregateExec.partialReduce (agg : AggregateExec) : AggregateExec :=
  { agg with mode := .partialReduce, groupBy := agg.groupBy.partialReduce }

def insertPartialReduce (df : DataFusion κ) (nodes : AggregateNodes) : Rewrite κ Unit :=
  fun plan _ _ =>
    if plan.kind.isNetworkBoundary then do
      let child ← requireOneChild plan.children
      match child with
      | node (.repartition (.hash _ _) _) _ grandchildren => do
        let grandchild ← requireOneChild grandchildren
        match grandchild.asAggregate nodes with
        | none => .ok ((plan, false), ())
        | some agg =>
          if agg.mode = .partialMode then do
            let partialReduce ← nodes.tryNew df agg.partialReduce child
            let newPlan ← plan.replaceChildren df [partialReduce]
            return ((newPlan, true), ())
          else .ok ((plan, false), ())
      | _ => .ok ((plan, false), ())
    else .ok ((plan, false), ())

/-- `partial_reduce_below_network_shuffles`, where `partialReduce` is the option of the
configuration. -/
def partialReduceBelowNetworkShuffles (df : DataFusion κ) (nodes : AggregateNodes)
    (partialReduce : Bool) (plan : Plan κ) : Result (Plan κ) :=
  if partialReduce then do
    let ((plan, _), _) ← rewriteUp df (insertPartialReduce df nodes) plan 1 ()
    return plan
  else .ok plan

theorem insertPartialReduce_onBoundaries (df : DataFusion κ) (nodes : AggregateNodes) :
    OnBoundaries (insertPartialReduce df nodes) where
  keeps := by
    intro plan out tasks state next changed hkind h
    simp only [insertPartialReduce, NodeKind.isNetworkBoundary, hkind] at h
    cases h
    exact ⟨rfl, rfl⟩
  honest := by
    intro plan out tasks state next h
    unfold insertPartialReduce at h
    split at h
    · obtain ⟨child, -, h⟩ := bind_ok_iff.mp h
      split at h
      · obtain ⟨grandchild, -, h⟩ := bind_ok_iff.mp h
        split at h
        · cases h
          rfl
        · split at h
          · obtain ⟨reduce, -, h⟩ := bind_ok_iff.mp h
            obtain ⟨newPlan, -, h⟩ := bind_ok_iff.mp h
            cases h
          · cases h
            rfl
      · cases h
        rfl
    · cases h
      rfl

/-- What the pass makes of a shuffle over a hash `RepartitionExec` over a partial aggregate. The
plan below the aggregate is rewritten on its own. -/
theorem partialReduce_shuffle {df : DataFusion κ} {nodes : AggregateNodes}
    {exec : NetworkShuffleExec κ} {exprs : List PhysicalExpr} {partitions op : ℕ}
    {preserveOrder : Bool} {agg : AggregateExec} {below out : Plan κ}
    {shuffleTasks repartitionTasks aggregateTasks : Option TaskCountAnnotation}
    (hop : nodes.downcast op = some agg) (hmode : agg.mode = .partialMode)
    (h : partialReduceBelowNetworkShuffles df nodes true
      (node (.networkShuffle exec) shuffleTasks
        [node (.repartition (.hash exprs partitions) preserveOrder) repartitionTasks
          [node (.other op) aggregateTasks [below]]]) = .ok out) :
    ∃ newRepartitionTasks newAggregateTasks newBelow,
      out = node (.networkShuffle exec) none
        [node (.other (nodes.op agg.partialReduce)) none
          [node (.repartition (.hash exprs partitions) preserveOrder) newRepartitionTasks
            [node (.other op) newAggregateTasks [newBelow]]]] := by
  have hf := insertPartialReduce_onBoundaries df nodes
  obtain ⟨⟨⟨plan, changed⟩, state⟩, hrewrite, h⟩ := bind_ok_iff.mp h
  obtain rfl : plan = out := Except.ok.inj h
  obtain ⟨results, mid, mapped, flag, -, hmapped, hlast⟩ := rewriteUp_ok hf hrewrite
  obtain ⟨staged, newKind, newTasks, before, stagedFlag, after, -, rfl, hkind, hstaged⟩ :=
    hmapped.boundary rfl
  obtain rfl : newKind = .networkShuffle exec := by
    rcases hkind with ⟨rfl, -⟩ | rfl <;> rfl
  obtain ⟨newRepartitionTasks, aggregate, before, flag', after, hrepartition, haggregate⟩ :=
    rewriteUp_unary hf rfl hstaged
  obtain ⟨newAggregateTasks, newBelow, before, flag'', after, hother, -⟩ :=
    rewriteUp_unary hf rfl haggregate
  subst hrepartition hother
  refine ⟨newRepartitionTasks, newAggregateTasks, newBelow, ?_⟩
  obtain ⟨child, hchild, hlast⟩ := bind_ok_iff.mp hlast
  cases hchild
  obtain ⟨grandchild, hgrandchild, hlast⟩ := bind_ok_iff.mp hlast
  cases hgrandchild
  simp only [asAggregate, hop, hmode] at hlast
  obtain ⟨reduce, hreduce, hlast⟩ := bind_ok_iff.mp hlast
  obtain ⟨-, -, hreduce⟩ := bind_ok_iff.mp hreduce
  cases hreduce
  obtain ⟨newPlan, hnew, hlast⟩ := bind_ok_iff.mp hlast
  cases hlast
  exact replaceChildren_boundary rfl hnew

end DatafusionDistributed
