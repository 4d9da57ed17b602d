import Mathlib.Algebra.BigOperators.Group.Finset.Basic
import DatafusionDistributed.Stage

/-!
# Rows served by a worker

What a worker serves for one request: it puts the requested head node on top of its plan and
executes the requested partitions. Rows have an arbitrary type. How a `RepartitionExec` routes
a row is DataFusion's: a row goes to the partition of its hash for a hash partitioning, and to
some partition of its own otherwise.
-/

namespace DatafusionDistributed

/-- The routing of rows by `RepartitionExec`. Keys are values of expressions, and the hash is a
fixed function of the list of key values. -/
structure RowRouting (κ Row Value : Type) where
  eval : ℕ → Row → Value
  literal : ℕ → Value
  hash : List Value → ℕ
  route : Partitioning κ → Row → ℕ
  route_hash : ∀ (exprs : List PhysicalExpr) (n : ℕ) (row : Row),
    route (.hash exprs n) row =
      hash (exprs.map fun e => match e with
        | .expr id => eval id row
        | .literal value => literal value) % n
  route_lt : ∀ (partitioning : Partitioning κ) (row : Row), 0 < partitioning.partitionCount →
    route partitioning row < partitioning.partitionCount

namespace RowRouting

variable {κ Row Value : Type} (routing : RowRouting κ Row Value)

/-- The value of an expression on a row. -/
def value (row : Row) : PhysicalExpr → Value
  | .expr id => routing.eval id row
  | .literal value => routing.literal value

def keyValues (exprs : List PhysicalExpr) (row : Row) : List Value :=
  exprs.map (routing.value row)

def hashRow (exprs : List PhysicalExpr) (row : Row) : ℕ :=
  routing.hash (routing.keyValues exprs row)

theorem route_hash_eq (exprs : List PhysicalExpr) (n : ℕ) (row : Row) :
    routing.route (.hash exprs n) row = routing.hashRow exprs row % n := by
  rw [routing.route_hash]
  rfl

/-- The hash of a row with a literal appended to the keys. -/
def saltedHash (exprs : List PhysicalExpr) (salt : ℕ) (row : Row) : ℕ :=
  routing.hash (routing.keyValues exprs row ++ [routing.literal salt])

theorem hashRow_salted (exprs : List PhysicalExpr) (salt : ℕ) (row : Row) :
    routing.hashRow (exprs ++ [.literal salt]) row = routing.saltedHash exprs salt row := by
  rw [hashRow, keyValues, List.map_append]
  rfl

/-- Partition `partition` of a `RepartitionExec` over `input`. -/
def repartition (partitioning : Partitioning κ) (input : Multiset Row) (partition : ℕ) :
    Multiset Row :=
  input.filter fun row => routing.route partitioning row = partition

end RowRouting

/-- The plan below the head node of a stage in one task: its name and the rows of each of its
partitions. -/
structure StageInput (Row : Type) where
  name : String
  partitions : List (Multiset Row)

namespace StageInput

variable {κ Row Value : Type}

def rows (self : StageInput Row) : Multiset Row :=
  self.partitions.sum

/-- The name of the plan with the head node on top. -/
def headName (self : StageInput Row) : ProducerHead κ → String
  | .none => self.name
  | .broadcastExec _ => "BroadcastExec"
  | .repartitionExec _ _ => "RepartitionExec"

def headCount (self : StageInput Row) : ProducerHead κ → ℕ
  | .none => self.partitions.length
  | .broadcastExec outputPartitions =>
    self.partitions.length * (outputPartitions / self.partitions.length)
  | .repartitionExec partitioning _ => partitioning.partitionCount

/-- The rows of one partition of the plan with the head node on top. -/
def headRows (routing : RowRouting κ Row Value) (self : StageInput Row) (partition : ℕ) :
    ProducerHead κ → Multiset Row
  | .none => self.partitions.getD partition 0
  | .broadcastExec _ => self.partitions.getD (partition % self.partitions.length) 0
  | .repartitionExec partitioning _ => routing.repartition partitioning self.rows partition

/-- `execute_task`: all partitions of the requested range have to exist. The consumer takes the
stream of its target partition. -/
def executeTask (routing : RowRouting κ Row Value) (self : StageInput Row)
    (request : WorkerRequest κ) : Result (Multiset Row) :=
  let count := self.headCount request.producerHead
  let firstMissing := max request.targetPartitions.1 count
  if firstMissing < request.targetPartitions.2 then
    .error (.execution (s!"partition {firstMissing} not available. The head plan " ++
      s!"{self.headName request.producerHead} of the stage just has {count} partitions"))
  else .ok (self.headRows routing request.targetPartition request.producerHead)

theorem executeTask_ok (routing : RowRouting κ Row Value) {self : StageInput Row}
    {request : WorkerRequest κ}
    (h : request.targetPartitions.2 ≤ self.headCount request.producerHead) :
    self.executeTask routing request =
      .ok (self.headRows routing request.targetPartition request.producerHead) := by
  rw [executeTask, if_neg (by omega)]

end StageInput

/-- The rows a consumer reads from a boundary stream, when `inputs i` is the input of the head
node in producer task `i`. -/
def BoundaryStream.read {κ Row Value : Type} (routing : RowRouting κ Row Value)
    (inputs : ℕ → StageInput Row) (localPlan : ℕ → Multiset Row) :
    BoundaryStream κ → Result (Multiset Row)
  | .empty => .ok 0
  | .localPlan partition => .ok (localPlan partition)
  | .remote requests => do
    let streams ← requests.mapM fun request =>
      (inputs request.targetTask).executeTask routing request
    return streams.sum

theorem BoundaryStream.read_request {κ Row Value : Type} (routing : RowRouting κ Row Value)
    (inputs : ℕ → StageInput Row) (localPlan : ℕ → Multiset Row) (request : WorkerRequest κ)
    (h : request.targetPartitions.2 ≤
      (inputs request.targetTask).headCount request.producerHead) :
    (BoundaryStream.remote [request]).read routing inputs localPlan =
      .ok ((inputs request.targetTask).headRows routing request.targetPartition
        request.producerHead) := by
  simp only [BoundaryStream.read, List.mapM_cons, List.mapM_nil, bind, Except.bind, pure,
    Except.pure, StageInput.executeTask_ok routing h, List.sum_singleton]

end DatafusionDistributed
