import DatafusionDistributed.Stage

/-!
# `NetworkShuffleExec`

The boundary over a hash or range `RepartitionExec`. In direct mode every consumer task reads
its own run of partitions from every producer task. In two-phase mode the producers partition
by a salted hash into one partition for each consumer task, a consumer task reads that partition
from every producer task, and a `RepartitionExec` in the consumer restores the partitioning.
-/

namespace DatafusionDistributed

open Library

def producerSaltDefault : ℕ := 0x517cc1b727220a95

inductive ShuffleMode where
  | direct
  | twoPhase (salt : ℕ)
  deriving DecidableEq, Repr

structure NetworkShuffleExec (κ : Type) where
  properties : PlanProperties κ
  producerPartitioning : Partitioning κ
  inputStage : Stage
  mode : ShuffleMode
  deriving DecidableEq, Repr

namespace NetworkShuffleExec

variable {κ : Type}

/-- `compute_properties`: a range shuffle has one partition for each consumer task, and
constants of one producer partition do not hold across producer tasks. -/
def computeProperties (inputProperties : PlanProperties κ) (inputTaskCount : ℕ) :
    PlanProperties κ :=
  let isRange := inputProperties.partitioning.isRange
  if 1 < inputTaskCount ∨ isRange then
    { partitioning := if isRange then .unknownPartitioning 1 else inputProperties.partitioning
      eqProperties :=
        if 1 < inputTaskCount then inputProperties.eqProperties.clearPerPartitionConstants
        else inputProperties.eqProperties }
  else inputProperties

def fromStage (inputStage : Stage) (inputProperties : PlanProperties κ) : NetworkShuffleExec κ where
  properties := computeProperties inputProperties inputStage.taskCount
  producerPartitioning := inputProperties.partitioning
  inputStage
  mode := .direct

def toTwoPhaseSalted (self : NetworkShuffleExec κ) : NetworkShuffleExec κ :=
  { self with
    properties := self.properties.withPartitioning
      (.unknownPartitioning self.inputStage.taskCount)
    mode := .twoPhase producerSaltDefault }

/-- Whether the planner switches the shuffle to two phases for `taskCount` consumer tasks. -/
def needsTwoPhase (self : NetworkShuffleExec κ) (fanoutThreshold taskCount : ℕ) : Bool :=
  match self.mode, self.producerPartitioning with
  | .direct, .hash _ partitions => fanoutThreshold ≤ taskCount * partitions
  | _, _ => false

def withInputStage (self : NetworkShuffleExec κ) (inputStage : Stage) : NetworkShuffleExec κ :=
  { self with
    properties := computeProperties self.properties inputStage.taskCount
    inputStage }

def producerHead (scale : RangeScale κ) (self : NetworkShuffleExec κ) (consumerTaskCount : ℕ) :
    Result (ProducerHead κ) := do
  let partitioning ← match self.mode with
    | .direct => self.producerPartitioning.scaleShuffle scale consumerTaskCount
    | .twoPhase salt => self.producerPartitioning.salted salt consumerTaskCount
  return .repartitionExec partitioning self.properties.eqProperties.outputOrdering.isSome

/-- `execute` with a remote stage of `workers` tasks. -/
def executeRemote (scale : RangeScale κ) (self : NetworkShuffleExec κ) (workers partition : ℕ)
    (ctx : DistributedTaskContext) : Result (BoundaryStream κ) := do
  let requests ← match self.mode with
    | .direct =>
      let partitionCount := self.properties.partitionCount
      let off := ctx.taskIndex * partitionCount
      (List.range workers).mapM fun inputTaskIndex => do
        let head ← self.producerHead scale ctx.taskCount
        workerExecute workers (off, off + partitionCount) inputTaskIndex (off + partition) head
    | .twoPhase _ => do
      let head ← self.producerHead scale ctx.taskCount
      let request ← workerExecute workers (ctx.taskIndex, ctx.taskIndex + 1) partition
        ctx.taskIndex head
      .ok [request]
  return if requests.isEmpty then .empty else .remote requests

def execute (scale : RangeScale κ) (self : NetworkShuffleExec κ) (partition : ℕ)
    (ctx : DistributedTaskContext) : Result (BoundaryStream κ) :=
  match self.inputStage with
  | .localStage _ tasks => executeLocalStage tasks partition
  | .remoteStage _ workers => self.executeRemote scale workers partition ctx

/-! ## Advertised properties -/

theorem partitioning_computeProperties (props : PlanProperties κ) (tasks : ℕ) :
    (computeProperties props tasks).partitioning =
      if props.partitioning.isRange then .unknownPartitioning 1 else props.partitioning := by
  unfold computeProperties
  by_cases hrange : props.partitioning.isRange = true
  · simp [hrange]
  · by_cases htasks : 1 < tasks <;> simp [hrange, htasks]

theorem orderings_computeProperties (props : PlanProperties κ) (tasks : ℕ) :
    (computeProperties props tasks).eqProperties.orderings = props.eqProperties.orderings := by
  unfold computeProperties
  dsimp only
  split
  · split <;> rfl
  · rfl

theorem partitioning_withInputStage {self : NetworkShuffleExec κ} (stage : Stage)
    (h : self.properties.partitioning.isRange = false) :
    (self.withInputStage stage).properties.partitioning = self.properties.partitioning := by
  unfold withInputStage
  rw [partitioning_computeProperties, h]
  rfl

/-- The nodes the planner and the coordinator make of one shuffle over `producers` tasks: built
over a stage, switched to two phases if `taskCount` consumer tasks need it, and then attached
to stages with the same number of tasks. -/
inductive Planned (fanoutThreshold taskCount producers : ℕ) (properties : PlanProperties κ) :
    NetworkShuffleExec κ → Prop
  | direct {stage : Stage} : stage.taskCount = producers →
    (fromStage stage properties).needsTwoPhase fanoutThreshold taskCount = false →
    Planned fanoutThreshold taskCount producers properties (fromStage stage properties)
  | twoPhase {stage : Stage} : stage.taskCount = producers →
    (fromStage stage properties).needsTwoPhase fanoutThreshold taskCount = true →
    Planned fanoutThreshold taskCount producers properties
      (fromStage stage properties).toTwoPhaseSalted
  | attached {node : NetworkShuffleExec κ} {stage : Stage} :
    Planned fanoutThreshold taskCount producers properties node → stage.taskCount = producers →
    Planned fanoutThreshold taskCount producers properties (node.withInputStage stage)

variable {node : NetworkShuffleExec κ}

variable {fanoutThreshold taskCount producers workers partition : ℕ} {properties : PlanProperties κ}
  {scale : RangeScale κ} {ctx : DistributedTaskContext} {head : ProducerHead κ}

/-- What `Planned` fixes for a hash shuffle: the mode follows from the consumer tasks and the
partitions alone, and the advertised partitions are those of a producer head in direct mode,
and one for each producer task in two-phase mode. -/
theorem Planned.hash_fields {partitions : ℕ} {exprs : List PhysicalExpr}
    (h : Planned fanoutThreshold taskCount producers properties node)
    (hhash : properties.partitioning = .hash exprs partitions) :
    node.producerPartitioning = .hash exprs partitions ∧
      ((node.mode = .direct ∧ taskCount * partitions < fanoutThreshold ∧
          node.properties.partitioning = .hash exprs partitions) ∨
        (node.mode = .twoPhase producerSaltDefault ∧ fanoutThreshold ≤ taskCount * partitions ∧
          node.properties.partitioning = .unknownPartitioning producers)) := by
  induction h with
  | direct hstage hneeds =>
    refine ⟨hhash, Or.inl ⟨rfl, ?_, ?_⟩⟩
    · simpa [needsTwoPhase, fromStage, hhash] using hneeds
    · rw [fromStage, partitioning_computeProperties, hhash]
      rfl
  | @twoPhase stage hstage hneeds =>
    refine ⟨hhash, Or.inr ⟨rfl, ?_, ?_⟩⟩
    · simpa [needsTwoPhase, fromStage, hhash] using hneeds
    · rw [← hstage]
      rfl
  | @attached node stage _ hstage ih =>
    have hrange : node.properties.partitioning.isRange = false := by
      rcases ih.2 with ⟨-, -, hpart⟩ | ⟨-, -, hpart⟩ <;> rw [hpart] <;> rfl
    rw [partitioning_withInputStage stage hrange]
    exact ih

/-- What `Planned` fixes for a range shuffle: it stays direct and advertises one partition. -/
theorem Planned.range_fields {range : RangePartitioning κ}
    (h : Planned fanoutThreshold taskCount producers properties node)
    (hrange : properties.partitioning = .range range) :
    node.producerPartitioning = .range range ∧ node.mode = .direct ∧
      node.properties.partitioning = .unknownPartitioning 1 := by
  induction h with
  | direct hstage hneeds =>
    refine ⟨hrange, rfl, ?_⟩
    rw [fromStage, partitioning_computeProperties, hrange]
    rfl
  | twoPhase hstage hneeds =>
    simp [needsTwoPhase, fromStage, hrange] at hneeds
  | @attached node stage _ hstage ih =>
    obtain ⟨hproducer, hmode, hpart⟩ := ih
    refine ⟨hproducer, hmode, ?_⟩
    rw [partitioning_withInputStage stage (by rw [hpart]; rfl), hpart]

/-! ## Requests -/

/-- In direct mode a consumer task reads one partition of its run from every producer task. -/
theorem executeRemote_direct (hmode : node.mode = .direct)
    (hhead : node.producerHead scale ctx.taskCount = .ok head)
    (hpartition : partition < node.properties.partitionCount) (hworkers : 0 < workers) :
    node.executeRemote scale workers partition ctx =
      .ok (.remote ((List.range workers).map fun i =>
        ⟨(ctx.taskIndex * node.properties.partitionCount,
          ctx.taskIndex * node.properties.partitionCount + node.properties.partitionCount), i,
          ctx.taskIndex * node.properties.partitionCount + partition, head⟩)) := by
  unfold executeRemote
  rw [hmode]
  dsimp only
  rw [mapM_workerExecute workers hhead (Nat.le_add_right _ _) (by omega), ok_bind, if_neg]
  · rfl
  · rw [List.isEmpty_iff, List.map_eq_nil_iff, List.range_eq_nil]
    omega

/-- In two-phase mode partition `i` of a consumer task is the task's partition of producer
task `i`. -/
theorem executeRemote_twoPhase {salt : ℕ} (hmode : node.mode = .twoPhase salt)
    (hhead : node.producerHead scale ctx.taskCount = .ok head) (hpartition : partition < workers) :
    node.executeRemote scale workers partition ctx =
      .ok (.remote [⟨(ctx.taskIndex, ctx.taskIndex + 1), partition, ctx.taskIndex, head⟩]) := by
  unfold executeRemote
  rw [hmode]
  rw [hhead]
  simp only [bind, Except.bind,
    workerExecute_ok head hpartition (Nat.le_refl ctx.taskIndex) (Nat.lt_succ_self _)]
  rfl

end NetworkShuffleExec

end DatafusionDistributed
