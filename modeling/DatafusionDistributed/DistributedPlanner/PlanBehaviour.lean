import DatafusionDistributed.DistributedPlanner.PushFetchIntoNetworkCoalesce
import DatafusionDistributed.Library.Behaviours
import DatafusionDistributed.Library.LexOrdering

/-!
# The streams of a plan

A plan may yield different streams in different runs: a `CoalescePartitionsExec` passes rows on as
they come, and a fetch cuts off what comes later. This module gives every plan its behaviour, the
streams that it may yield in each task. A plan may yield more if its inputs may, and a node that is
rebuilt over other inputs does with them what it did before.
-/

namespace DatafusionDistributed

open Library Plan

variable {κ Row V : Type}

/-- A task of a stage. -/
abbrev TaskOfStage := { ctx : DistributedTaskContext // ctx.taskIndex < ctx.taskCount }

/-- The streams that a plan may yield in its partitions, in each task of its stage. -/
abbrev PlanBehaviour (Row : Type) := Behaviour TaskOfStage Row

/-! ## `NetworkCoalesceExec` -/

namespace NetworkCoalesceExec

/-- The streams of the producer tasks that a consumer task reads, partition by partition, as
`executeRemote` asks for them. -/
def coalesced (tasks partitions : ℕ) (producers : ℕ → List (List Row))
    (ctx : DistributedTaskContext) : List (List Row) :=
  let group := taskGroup tasks ctx.taskIndex ctx.taskCount
  (List.range (partitions * maxInputTaskCount tasks ctx.taskCount)).map fun partition =>
    if group.len ≤ partition / partitions then []
    else (producers (group.startTask + partition / partitions)).getD (partition % partitions) []

variable {tasks partitions : ℕ} {ctx : DistributedTaskContext}

/-- The behaviour of the node above its stage: every producer task runs once, and all of them have
the same number of partitions. -/
def behaviour (self : NetworkCoalesceExec κ) (input : PlanBehaviour Row) : PlanBehaviour Row :=
  fun ctx streams => ∃ (partitions : ℕ) (producers : ℕ → List (List Row)),
    (∀ task, (h : task < self.inputStage.taskCount) →
      input ⟨⟨task, self.inputStage.taskCount⟩, h⟩ (producers task) ∧
        (producers task).length = partitions) ∧
    streams = coalesced self.inputStage.taskCount partitions producers ctx.val

variable {self : NetworkCoalesceExec κ} {cut whole : PlanBehaviour Row}

end NetworkCoalesceExec

/-! ## Plans -/

/-- What the nodes do with rows: the keys they are sorted by, the rows of the leaves, the
projections, and the nodes of which nothing is known but that they may do more if their inputs may.
What a
`ChildrenIsolatorUnionExec` does depends on its annotations and its number of tasks, from which its
task map is computed. -/
structure RowExecution (κ Row V : Type) where
  key : PhysicalExpr → Row → V
  leaf : ℕ → PlanBehaviour Row
  project : ℕ → Row → Row
  other : NodeKind κ → List (PlanBehaviour Row) → PlanBehaviour Row
  union : List TaskCountAnnotation → ℕ → List (PlanBehaviour Row) → PlanBehaviour Row
  other_mono : ∀ kind inputs more, List.Forall₂ (· ≤ ·) inputs more →
    other kind inputs ≤ other kind more
  union_mono : ∀ annotations tasks inputs more, List.Forall₂ (· ≤ ·) inputs more →
    union annotations tasks inputs ≤ union annotations tasks more

/-- A node with one input. Without it, the node yields nothing. -/
def unary (node : PlanBehaviour Row → PlanBehaviour Row) :
    List (PlanBehaviour Row) → PlanBehaviour Row
  | [input] => node input
  | _ => fun _ _ => False

section Semantics

variable [LinearOrder V]

/-- The behaviour of the nodes without a constructor of their own. -/
def FetchNode.behaviour (exec : RowExecution κ Row V) (op : ℕ) (self : FetchNode)
    (inputs : List (PlanBehaviour Row)) : PlanBehaviour Row :=
  match self with
  | globalLimit skip fetch => unary (Behaviour.skipped skip fetch) inputs
  | localLimit fetch => unary (Behaviour.limited fetch) inputs
  | sort ordering fetch => unary (Behaviour.sorted (Precedes exec.key ordering) fetch) inputs
  | projection => unary (Behaviour.mapped (exec.project op)) inputs
  | unknown _ => if inputs.isEmpty then exec.leaf op else exec.other (.other op) inputs

/-- The behaviour of a node. A `CoalescePartitionsExec` passes rows on in any order. -/
def NodeKind.behaviour (nodes : FetchNodes) (exec : RowExecution κ Row V) (kind : NodeKind κ)
    (inputs : List (PlanBehaviour Row)) : PlanBehaviour Row :=
  match kind with
  | .other op => (nodes.downcast op).behaviour exec op inputs
  | .coalescePartitions fetch =>
    unary (Behaviour.gather (fun streams out => out.Perm streams.flatten) fetch) inputs
  | .sortPreservingMerge ordering fetch =>
    unary (Behaviour.gather (Merges (Precedes exec.key ordering)) fetch) inputs
  | .networkCoalesce coalesce => unary coalesce.behaviour inputs
  | .childrenIsolatorUnion tasks =>
    exec.union tasks.childAnnotations tasks.taskIdxMap.length inputs
  | kind => exec.other kind inputs

mutual

def Plan.behaviour (nodes : FetchNodes) (exec : RowExecution κ Row V) : Plan κ → PlanBehaviour Row
  | node kind _ children => kind.behaviour nodes exec (behaviourAll nodes exec children)

def Plan.behaviourAll (nodes : FetchNodes) (exec : RowExecution κ Row V) :
    List (Plan κ) → List (PlanBehaviour Row)
  | [] => []
  | child :: children => child.behaviour nodes exec :: behaviourAll nodes exec children

end

/-- What `with_fetch` promises: the node that it returns for a smaller fetch yields the first rows
that the node itself yields. -/
structure RowExecution.Lawful (nodes : FetchNodes) (exec : RowExecution κ Row V) : Prop where
  withFetch : ∀ op fetch newOp inputs, nodes.withFetch op fetch = some newOp →
    (∀ old, (nodes.downcast op).fetch = some old → fetch ≤ old) →
    Behaviour.Truncates fetch (NodeKind.behaviour nodes exec (.other newOp) inputs)
      (NodeKind.behaviour nodes exec (.other op) inputs)

variable {nodes : FetchNodes} {exec : RowExecution κ Row V}

variable {inputs more : List (PlanBehaviour Row)}

end Semantics

end DatafusionDistributed
