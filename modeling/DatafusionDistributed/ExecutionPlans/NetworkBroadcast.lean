import DatafusionDistributed.Stage

/-!
# `NetworkBroadcastExec`

The boundary over a `BroadcastExec`. Every consumer task reads its own copy of every partition
from every producer task.
-/

namespace DatafusionDistributed

open Library

structure NetworkBroadcastExec (κ : Type) where
  properties : PlanProperties κ
  inputStage : Stage
  deriving DecidableEq, Repr

namespace NetworkBroadcastExec

variable {κ : Type}

def fromStage (inputStage : Stage) (inputProperties : PlanProperties κ) :
    NetworkBroadcastExec κ where
  properties := inputProperties.withPartitioning
    (.unknownPartitioning inputProperties.partitionCount)
  inputStage

/-- `with_input_stage`: the advertised properties are kept. -/
def withInputStage (self : NetworkBroadcastExec κ) (inputStage : Stage) :
    NetworkBroadcastExec κ :=
  { self with inputStage }

def producerHead (self : NetworkBroadcastExec κ) (consumerTaskCount : ℕ) :
    Result (ProducerHead κ) :=
  .ok (.broadcastExec (self.properties.partitionCount * consumerTaskCount))

/-- `execute` with a remote stage of `workers` tasks. -/
def executeRemote (self : NetworkBroadcastExec κ) (workers partition : ℕ)
    (ctx : DistributedTaskContext) : Result (BoundaryStream κ) := do
  let outPartitions := self.properties.partitionCount
  let off := outPartitions * ctx.taskIndex
  let requests ← (List.range workers).mapM fun inputTaskIndex => do
    let head ← self.producerHead ctx.taskCount
    workerExecute workers (off, off + outPartitions) inputTaskIndex (off + partition) head
  return .remote requests

def execute (self : NetworkBroadcastExec κ) (partition : ℕ) (ctx : DistributedTaskContext) :
    Result (BoundaryStream κ) :=
  match self.inputStage with
  | .localStage _ tasks => executeLocalStage tasks partition
  | .remoteStage _ workers => self.executeRemote workers partition ctx

/-- A consumer task reads one partition of its copy from every producer task. -/
theorem executeRemote_eq {node : NetworkBroadcastExec κ} {partition : ℕ}
    (hpartition : partition < node.properties.partitionCount) (workers : ℕ)
    (ctx : DistributedTaskContext) :
    node.executeRemote workers partition ctx =
      .ok (.remote ((List.range workers).map fun i =>
        ⟨(node.properties.partitionCount * ctx.taskIndex,
          node.properties.partitionCount * ctx.taskIndex + node.properties.partitionCount), i,
          node.properties.partitionCount * ctx.taskIndex + partition,
          .broadcastExec (node.properties.partitionCount * ctx.taskCount)⟩)) := by
  have hhead : node.producerHead ctx.taskCount = .ok _ := rfl
  unfold executeRemote
  dsimp only
  rw [mapM_workerExecute workers hhead (Nat.le_add_right _ _) (by omega)]
  rfl

end NetworkBroadcastExec

end DatafusionDistributed
