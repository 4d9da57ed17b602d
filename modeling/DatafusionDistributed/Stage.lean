import DatafusionDistributed.ExecutionPlans.Common
import DatafusionDistributed.Library.Checked

/-!
# Stages and what crosses a network boundary

A boundary node reads the stage below it. Before the stage is sent to workers it is local and
its plan is the child of the boundary node; afterwards only the workers are known. Executing a
boundary node issues requests to the workers of its input stage, each with the head node that
the worker has to put on top of its plan.
-/

namespace DatafusionDistributed

/-- `Stage`. The plan of a local stage is the child of the boundary node that holds it, and of
the worker URLs of a remote stage only their number is kept. -/
inductive Stage where
  | localStage (num tasks : ℕ)
  | remoteStage (num workers : ℕ)
  deriving DecidableEq, Repr

namespace Stage

def taskCount : Stage → ℕ
  | localStage _ tasks => tasks
  | remoteStage _ workers => workers

def num : Stage → ℕ
  | localStage num _ | remoteStage num _ => num

def isLocal : Stage → Bool
  | localStage _ _ => true
  | remoteStage _ _ => false

end Stage

/-- `ProducerHead`: the head node a boundary wants on top of the stage below it. -/
inductive ProducerHead (κ : Type) where
  | none
  | broadcastExec (outputPartitions : ℕ)
  | repartitionExec (partitioning : Partitioning κ) (preserveOrder : Bool)
  deriving DecidableEq, Repr

/-- One stream asked from a worker: the range of partitions of the connection, the producer
task, the partition read from it, and the head node to insert. -/
structure WorkerRequest (κ : Type) where
  targetPartitions : ℕ × ℕ
  targetTask : ℕ
  targetPartition : ℕ
  producerHead : ProducerHead κ
  deriving DecidableEq, Repr

/-- The stream of one partition of a boundary node. -/
inductive BoundaryStream (κ : Type) where
  | empty
  /-- The partition of the plan of a local stage. -/
  | localPlan (partition : ℕ)
  /-- The merged streams of several requests. -/
  | remote (requests : List (WorkerRequest κ))
  deriving DecidableEq, Repr

/-- `LocalStage::execute`. -/
def executeLocalStage {κ : Type} (tasks partition : ℕ) : Result (BoundaryStream κ) :=
  if 1 < tasks then .error (.execution "Cannot execute a local stage with more than 1 task")
  else .ok (.localPlan partition)

/-- `WorkerConnectionPool::execute`, up to the connection itself. -/
def workerExecute {κ : Type} (workers : ℕ) (targetPartitions : ℕ × ℕ)
    (targetTask targetPartition : ℕ) (producerHead : ProducerHead κ) :
    Result (WorkerRequest κ) :=
  if workers ≤ targetTask then
    .error (.internal s!"input_stage.workers[{targetTask}] out of range.")
  else if targetPartition < targetPartitions.1 ∨ targetPartitions.2 ≤ targetPartition then
    .error (.internal s!"WorkerConnections has no stream for partition {targetPartition}")
  else .ok { targetPartitions, targetTask, targetPartition, producerHead }

theorem workerExecute_ok {κ : Type} {workers start stop targetTask targetPartition : ℕ}
    (producerHead : ProducerHead κ) (htask : targetTask < workers)
    (hstart : start ≤ targetPartition) (hstop : targetPartition < stop) :
    workerExecute workers (start, stop) targetTask targetPartition producerHead =
      .ok ⟨(start, stop), targetTask, targetPartition, producerHead⟩ := by
  rw [workerExecute, if_neg (by omega), if_neg (by dsimp only; omega)]

theorem mapM_workerExecute {κ : Type} {start stop targetPartition : ℕ} {head : ProducerHead κ}
    {producerHead : Result (ProducerHead κ)} (workers : ℕ) (hhead : producerHead = .ok head)
    (hstart : start ≤ targetPartition) (hstop : targetPartition < stop) :
    (List.range workers).mapM (fun targetTask => do
      let head ← producerHead
      workerExecute workers (start, stop) targetTask targetPartition head) =
      .ok ((List.range workers).map fun targetTask =>
        ⟨(start, stop), targetTask, targetPartition, head⟩) := by
  rw [Library.mapM_ok_iff, List.forall₂_map_right_iff, List.forall₂_same]
  intro i hi
  rw [hhead]
  exact workerExecute_ok head (List.mem_range.mp hi) hstart hstop

end DatafusionDistributed
