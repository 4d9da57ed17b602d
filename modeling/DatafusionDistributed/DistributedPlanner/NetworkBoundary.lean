import DatafusionDistributed.Plan

/-!
# Network boundaries

The methods that all boundary nodes share, and the insertion of producer heads. A producer head
is inserted by the planner and again by the worker that runs the stage, so insertion first takes
off a `RepartitionExec` or `BroadcastExec` that is already on top.
-/

namespace DatafusionDistributed

variable {κ : Type}

/-- `producer_head` of a boundary; the other nodes have none. -/
def NodeKind.producerHead (df : DataFusion κ) (kind : NodeKind κ) (consumerTasks : ℕ) :
    Result (ProducerHead κ) :=
  match kind with
  | .networkShuffle exec => exec.producerHead df.rangeScale consumerTasks
  | .networkCoalesce exec => exec.producerHead consumerTasks
  | .networkBroadcast exec => exec.producerHead consumerTasks
  | _ => .ok .none

/-- `with_input_stage` of a boundary, where `plan` are the properties of the plan of the stage
if it is local. -/
def NodeKind.withInputStage (kind : NodeKind κ) (stage : Stage) (plan : PlanProperties κ) :
    NodeKind κ :=
  match kind with
  | .networkShuffle exec => .networkShuffle (exec.withInputStage stage)
  | .networkCoalesce exec => .networkCoalesce (exec.withInputStage stage plan)
  | .networkBroadcast exec => .networkBroadcast (exec.withInputStage stage)
  | kind => kind

namespace Plan

/-- The plan without a `RepartitionExec` or `BroadcastExec` on top. -/
def withoutHead : Plan κ → Plan κ
  | node (.repartition _ _) _ (input :: _) => input
  | node (.broadcast _) _ (input :: _) => input
  | plan => plan

/-- `RepartitionExec::with_preserve_order`: there is an order to preserve only if the input has
one and several partitions have to be merged. -/
def canPreserveOrder (df : DataFusion κ) (input : Plan κ) : Bool :=
  (input.properties df).eqProperties.outputOrdering.isSome && 1 < input.partitionCount df

/-- `RepartitionExec::try_new`, with `with_preserve_order` if `preserveOrder` is set. -/
def repartitionTryNew (df : DataFusion κ) (input : Plan κ) (partitioning : Partitioning κ)
    (preserveOrder : Bool) : Result (Plan κ) := do
  df.check (.repartition partitioning false) [input.properties df]
  return node (.repartition partitioning (preserveOrder && input.canPreserveOrder df)) none [input]

end Plan

def ProducerHead.insert (df : DataFusion κ) (self : ProducerHead κ) (input : Plan κ) :
    Result (Plan κ) :=
  let input := input.withoutHead
  match self with
  | .none => .ok input
  | .broadcastExec outputPartitions =>
    let partitions := input.partitionCount df
    if partitions = 0 then .error (.panic "attempt to divide by zero")
    else .ok (.node (.broadcast (outputPartitions / partitions)) Option.none [input])
  | .repartitionExec partitioning preserveOrder =>
    input.repartitionTryNew df partitioning preserveOrder

/-- `ProducerHead::insert_sampler`: the sampler goes right below the head node. -/
def insertSampler (df : DataFusion κ) (input : Plan κ) : Result (Plan κ) :=
  match input with
  | .node (.repartition partitioning preserveOrder) taskCount (child :: rest) =>
    (Plan.node (.repartition partitioning preserveOrder) taskCount (child :: rest)).replaceChildren
      df [.node .sampler none [child]]
  | .node (.broadcast consumerTaskCount) taskCount (child :: rest) =>
    (Plan.node (.broadcast consumerTaskCount) taskCount (child :: rest)).replaceChildren
      df [.node .sampler none [child]]
  | input => .ok input

end DatafusionDistributed
