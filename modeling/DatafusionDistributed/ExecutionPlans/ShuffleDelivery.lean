import DatafusionDistributed.ExecutionPlans.NetworkShuffle
import DatafusionDistributed.Library.Fibers
import DatafusionDistributed.Worker.ExecuteTask

/-!
# Delivery of rows by a hash shuffle

Where a row of a hash shuffle lands among the consumer tasks and their partitions. In direct
mode the producers hash into one partition for each consumer partition of each consumer task,
and the partition index decides task and partition. In two-phase mode a salted hash decides the
task, and the hash itself the partition. A shuffle between two single tasks is removed by the
planner, and the consumer runs the producer's `RepartitionExec` itself.

`HashShuffle.rowsAt_eq` says what the consumers see in each task and partition.
-/

namespace DatafusionDistributed

open Library NetworkShuffleExec

variable {κ Row Value : Type} {node : NetworkShuffleExec κ} {j p : ℕ}

def producedRows (producers : ℕ) (inputs : ℕ → StageInput Row) : Multiset Row :=
  ((List.range producers).map fun i => (inputs i).rows).sum

def NetworkShuffleExec.read (routing : RowRouting κ Row Value) (scale : RangeScale κ)
    (self : NetworkShuffleExec κ) (inputs : ℕ → StageInput Row) (ctx : DistributedTaskContext)
    (partition : ℕ) : Result (Multiset Row) := do
  let stream ← self.execute scale partition ctx
  stream.read routing inputs fun _ => 0

/-- Reading one partition of a direct shuffle: the rows routed to one partition of the producer
heads. -/
theorem NetworkShuffleExec.read_direct {routing : RowRouting κ Row Value} {scale : RangeScale κ}
    {inputs : ℕ → StageInput Row} {num producers consumers : ℕ}
    {partitioning : Partitioning κ} {order : Bool}
    (hstage : node.inputStage = .remoteStage num producers) (hproducers : 0 < producers)
    (hmode : node.mode = .direct)
    (hhead : node.producerHead scale consumers = .ok (.repartitionExec partitioning order))
    (hp : p < node.properties.partitionCount)
    (hrange : j * node.properties.partitionCount + node.properties.partitionCount ≤
      partitioning.partitionCount) :
    node.read routing scale inputs ⟨j, consumers⟩ p =
      .ok ((producedRows producers inputs).filter fun row =>
        routing.route partitioning row = j * node.properties.partitionCount + p) := by
  unfold read
  rw [execute, hstage]
  dsimp only
  rw [executeRemote_direct hmode hhead hp hproducers]
  have hreads : ((List.range producers).map fun i =>
        (⟨(j * node.properties.partitionCount,
          j * node.properties.partitionCount + node.properties.partitionCount), i,
          j * node.properties.partitionCount + p, .repartitionExec partitioning order⟩ :
          WorkerRequest κ)).mapM
        (fun request => (inputs request.targetTask).executeTask routing request) =
      .ok ((List.range producers).map fun i => (inputs i).rows.filter fun row =>
        routing.route partitioning row = j * node.properties.partitionCount + p) := by
    rw [mapM_ok_iff, List.forall₂_map_left_iff, List.forall₂_map_right_iff, List.forall₂_same]
    intro i _
    rw [StageInput.executeTask_ok routing hrange]
    rfl
  simp only [bind, Except.bind, BoundaryStream.read, hreads]
  rw [producedRows, filter_list_sum, List.map_map]
  rfl

/-- The rows the consumer stage sees in one task and partition. In two-phase mode these are
the rows of the `RepartitionExec` that the planner puts on top of the boundary. -/
def NetworkShuffleExec.rowsAt (routing : RowRouting κ Row Value) (scale : RangeScale κ)
    (self : NetworkShuffleExec κ) (inputs : ℕ → StageInput Row) (ctx : DistributedTaskContext)
    (partition : ℕ) : Result (Multiset Row) :=
  match self.mode with
  | .direct => self.read routing scale inputs ctx partition
  | .twoPhase _ => do
    let below ← (List.range self.properties.partitionCount).mapM
      (self.read routing scale inputs ctx)
    return routing.repartition self.producerPartitioning below.sum partition

/-- The same for a shuffle that was removed: the consumer runs the `RepartitionExec` of the
producer itself. -/
def NetworkShuffleExec.rowsElided (routing : RowRouting κ Row Value) (self : NetworkShuffleExec κ)
    (input : StageInput Row) (partition : ℕ) : Multiset Row :=
  let repartitioned := routing.repartition self.producerPartitioning input.rows
  match self.mode with
  | .direct => repartitioned partition
  | .twoPhase _ =>
    let below := (List.range self.producerPartitioning.partitionCount).map repartitioned
    routing.repartition self.producerPartitioning below.sum partition

/-- The partitions of a `RepartitionExec` hold all its rows. -/
theorem RowRouting.sum_repartition (routing : RowRouting κ Row Value)
    {partitioning : Partitioning κ} (hpos : 0 < partitioning.partitionCount)
    (rows : Multiset Row) :
    ((List.range partitioning.partitionCount).map (routing.repartition partitioning rows)).sum =
      rows :=
  sum_map_range_fibers _ _ fun row _ => routing.route_lt _ row hpos

/-- A hash shuffle as the consumer stage sees it: the input of its producer tasks, the node,
and whether `prepare_network_boundaries` removed it. -/
structure HashShuffle (κ Row : Type) where
  exprs : List PhysicalExpr
  producers : ℕ
  inputs : ℕ → StageInput Row
  node : NetworkShuffleExec κ
  elided : Bool

namespace HashShuffle

/-- The shuffle has `partitions` partitions, was planned for `taskCount` consumer tasks and
feeds a stage that runs in `consumers` tasks. -/
structure Feeds (shuffle : HashShuffle κ Row)
    (fanoutThreshold taskCount consumers partitions : ℕ) : Prop where
  producers_pos : 0 < shuffle.producers
  planned : ∃ properties : PlanProperties κ,
    properties.partitioning = .hash shuffle.exprs partitions ∧
    Planned fanoutThreshold taskCount shuffle.producers properties shuffle.node
  remote : shuffle.elided = false →
    ∃ num, shuffle.node.inputStage = .remoteStage num shuffle.producers
  single : shuffle.elided = true → consumers = 1 ∧ shuffle.producers = 1

def rows (self : HashShuffle κ Row) : Multiset Row :=
  producedRows self.producers self.inputs

/-- The rows the consumer stage sees in one task and partition. -/
def rowsAt (routing : RowRouting κ Row Value) (scale : RangeScale κ) (self : HashShuffle κ Row)
    (ctx : DistributedTaskContext) (partition : ℕ) : Result (Multiset Row) :=
  if self.elided then .ok (self.node.rowsElided routing (self.inputs 0) partition)
  else self.node.rowsAt routing scale self.inputs ctx partition

end HashShuffle

/-! ## Where a row lands -/

/-- The consumer task and partition a row is sent to. -/
def landing (routing : RowRouting κ Row Value)
    (fanoutThreshold taskCount consumers partitions : ℕ) (exprs : List PhysicalExpr) (row : Row) :
    ℕ × ℕ :=
  if taskCount * partitions < fanoutThreshold then
    (routing.hashRow exprs row % (partitions * consumers) / partitions,
      routing.hashRow exprs row % (partitions * consumers) % partitions)
  else
    (routing.saltedHash exprs producerSaltDefault row % consumers,
      routing.hashRow exprs row % partitions)

variable {routing : RowRouting κ Row Value} {scale : RangeScale κ}
  {fanoutThreshold taskCount consumers partitions : ℕ}

theorem landing_lt (exprs : List PhysicalExpr) (hc : 0 < consumers) (hp : 0 < partitions)
    (row : Row) :
    (landing routing fanoutThreshold taskCount consumers partitions exprs row).1 < consumers ∧
      (landing routing fanoutThreshold taskCount consumers partitions exprs row).2 <
        partitions := by
  unfold landing
  split
  · refine ⟨?_, Nat.mod_lt _ hp⟩
    have hlt : routing.hashRow exprs row % (partitions * consumers) < consumers * partitions := by
      rw [Nat.mul_comm consumers]
      exact Nat.mod_lt _ (Nat.mul_pos hp hc)
    exact (Nat.div_lt_iff_lt_mul hp).mpr hlt
  · exact ⟨Nat.mod_lt _ hc, Nat.mod_lt _ hp⟩

theorem landing_snd (exprs : List PhysicalExpr) (row : Row) :
    (landing routing fanoutThreshold taskCount consumers partitions exprs row).2 =
      routing.hashRow exprs row % partitions := by
  unfold landing
  split
  · exact Nat.mod_mul_right_mod _ _ _
  · rfl

/-- The place of a row depends on its two hashes only. -/
theorem landing_congr {left right : List PhysicalExpr} {row row' : Row}
    (hhash : routing.hashRow left row = routing.hashRow right row')
    (hsalted : routing.saltedHash left producerSaltDefault row =
      routing.saltedHash right producerSaltDefault row') :
    landing routing fanoutThreshold taskCount consumers partitions left row =
      landing routing fanoutThreshold taskCount consumers partitions right row' := by
  unfold landing
  rw [hhash, hsalted]

theorem landing_single (exprs : List PhysicalExpr) (row : Row) (hp : 0 < partitions) :
    landing routing fanoutThreshold taskCount 1 partitions exprs row =
      (0, routing.hashRow exprs row % partitions) := by
  have hlt := @landing_lt κ Row Value routing fanoutThreshold taskCount 1 partitions exprs
    Nat.one_pos hp row
  exact Prod.ext (by omega) (landing_snd exprs row)

/-! ## What the consumer reads -/

theorem producerHead_direct (scale : RangeScale κ) (consumers : ℕ) {exprs : List PhysicalExpr}
    (hpart : node.producerPartitioning = .hash exprs partitions) (hmode : node.mode = .direct) :
    ∃ order, node.producerHead scale consumers =
      .ok (.repartitionExec (.hash exprs (partitions * consumers)) order) := by
  refine ⟨node.properties.eqProperties.outputOrdering.isSome, ?_⟩
  unfold producerHead
  rw [hmode, hpart]
  rfl

theorem producerHead_twoPhase (scale : RangeScale κ) (consumers : ℕ) {exprs : List PhysicalExpr}
    {salt : ℕ} (hpart : node.producerPartitioning = .hash exprs partitions)
    (hmode : node.mode = .twoPhase salt) :
    ∃ order, node.producerHead scale consumers =
      .ok (.repartitionExec (.hash (exprs ++ [.literal salt]) consumers) order) := by
  refine ⟨node.properties.eqProperties.outputOrdering.isSome, ?_⟩
  unfold producerHead
  rw [hmode, hpart]
  rfl

namespace NetworkShuffleExec

variable {exprs : List PhysicalExpr} {inputs : ℕ → StageInput Row} {num producers : ℕ}

/-- Reading a hash shuffle in direct mode. -/
theorem rowsAt_direct (hstage : node.inputStage = .remoteStage num producers)
    (hproducers : 0 < producers) (hpart : node.producerPartitioning = .hash exprs partitions)
    (hprops : node.properties.partitioning = .hash exprs partitions)
    (hmode : node.mode = .direct) (hj : j < consumers) (hp : p < partitions) :
    node.rowsAt routing scale inputs ⟨j, consumers⟩ p =
      .ok ((producedRows producers inputs).filter fun row =>
        routing.hashRow exprs row % (partitions * consumers) = j * partitions + p) := by
  obtain ⟨order, hhead⟩ := producerHead_direct scale consumers hpart hmode
  have hcount : node.properties.partitionCount = partitions := by
    rw [PlanProperties.partitionCount, hprops]
    rfl
  have hrange : j * partitions + partitions ≤ partitions * consumers := by
    rw [← Nat.succ_mul, Nat.mul_comm partitions]
    exact Nat.mul_le_mul_right partitions hj
  unfold rowsAt
  rw [hmode]
  dsimp only
  rw [read_direct hstage hproducers hmode hhead (by rwa [hcount])
    (by rwa [hcount]), hcount]
  congr 1
  exact Multiset.filter_congr fun row _ => by rw [routing.route_hash_eq]

/-- Reading one partition of the node in two-phase mode. -/
theorem read_twoPhase {i salt : ℕ} (hstage : node.inputStage = .remoteStage num producers)
    (hpart : node.producerPartitioning = .hash exprs partitions)
    (hmode : node.mode = .twoPhase salt) (hj : j < consumers) (hi : i < producers) :
    node.read routing scale inputs ⟨j, consumers⟩ i =
      .ok ((inputs i).rows.filter fun row =>
        routing.saltedHash exprs salt row % consumers = j) := by
  obtain ⟨order, hhead⟩ := producerHead_twoPhase scale consumers hpart hmode
  rw [NetworkShuffleExec.read, execute, hstage]
  dsimp only
  rw [executeRemote_twoPhase hmode hhead hi]
  have hserved := BoundaryStream.read_request routing inputs (fun _ => 0)
    ⟨(j, j + 1), i, j, .repartitionExec (.hash (exprs ++ [.literal salt]) consumers) order⟩ hj
  refine hserved.trans ?_
  congr 1
  exact Multiset.filter_congr fun row _ => by rw [routing.route_hash_eq, routing.hashRow_salted]

theorem repartition_hash (hpart : node.producerPartitioning = .hash exprs partitions)
    (input : Multiset Row) (p : ℕ) :
    routing.repartition node.producerPartitioning input p =
      input.filter fun row => routing.hashRow exprs row % partitions = p := by
  rw [hpart]
  exact Multiset.filter_congr fun row _ => by rw [routing.route_hash_eq]

/-- Reading a hash shuffle in two-phase mode. -/
theorem rowsAt_twoPhase {salt : ℕ} (hstage : node.inputStage = .remoteStage num producers)
    (hpart : node.producerPartitioning = .hash exprs partitions)
    (hprops : node.properties.partitioning = .unknownPartitioning producers)
    (hmode : node.mode = .twoPhase salt) (hj : j < consumers) :
    node.rowsAt routing scale inputs ⟨j, consumers⟩ p =
      .ok ((producedRows producers inputs).filter fun row =>
        routing.hashRow exprs row % partitions = p ∧
          routing.saltedHash exprs salt row % consumers = j) := by
  have hcount : node.properties.partitionCount = producers := by
    rw [PlanProperties.partitionCount, hprops]
    rfl
  have hbelow : (List.range producers).mapM (node.read routing scale inputs ⟨j, consumers⟩) =
      .ok ((List.range producers).map fun i => (inputs i).rows.filter fun row =>
        routing.saltedHash exprs salt row % consumers = j) := by
    rw [mapM_ok_iff, List.forall₂_map_right_iff, List.forall₂_same]
    intro i hi
    exact read_twoPhase hstage hpart hmode hj (List.mem_range.mp hi)
  have hfilter : ((List.range producers).map fun i => (inputs i).rows.filter
      fun row => routing.saltedHash exprs salt row % consumers = j).sum =
      (producedRows producers inputs).filter fun row =>
        routing.saltedHash exprs salt row % consumers = j := by
    rw [producedRows, filter_list_sum, List.map_map]
    rfl
  unfold rowsAt
  rw [hmode]
  rw [hcount, hbelow]
  simp only [bind, Except.bind, hfilter]
  rw [repartition_hash hpart, Multiset.filter_filter]
  rfl

/-- A removed shuffle leaves the `RepartitionExec` of the producer. In two-phase mode the
consumer repartitions its rows once more, in the same way. -/
theorem rowsElided_eq (input : StageInput Row) (p : ℕ)
    (hpos : 0 < node.producerPartitioning.partitionCount) :
    node.rowsElided routing input p =
      routing.repartition node.producerPartitioning input.rows p := by
  unfold rowsElided
  split
  · rfl
  · dsimp only
    rw [routing.sum_repartition hpos]

end NetworkShuffleExec

namespace HashShuffle

theorem rows_single {shuffle : HashShuffle κ Row} (h : shuffle.producers = 1) :
    shuffle.rows = (shuffle.inputs 0).rows := by
  rw [rows, h]
  exact add_zero _

/-- The consumer sees, in every task and partition, the rows that land there. -/
theorem rowsAt_eq {shuffle : HashShuffle κ Row}
    (h : shuffle.Feeds fanoutThreshold taskCount consumers partitions) (hj : j < consumers)
    (hp : p < partitions) :
    shuffle.rowsAt routing scale ⟨j, consumers⟩ p =
      .ok (shuffle.rows.filter fun row =>
        landing routing fanoutThreshold taskCount consumers partitions shuffle.exprs row =
          (j, p)) := by
  obtain ⟨properties, hhash, hplanned⟩ := h.planned
  obtain ⟨hpart, hmode⟩ := hplanned.hash_fields hhash
  unfold rowsAt
  cases helided : shuffle.elided with
  | true =>
    obtain ⟨rfl, hproducers⟩ := h.single helided
    rw [if_pos rfl, rowsElided_eq _ _ (by rw [hpart]; exact Nat.zero_lt_of_lt hp),
      repartition_hash hpart, ← rows_single hproducers]
    congr 1
    refine Multiset.filter_congr fun row _ => ?_
    rw [landing_single _ _ (Nat.zero_lt_of_lt hp), Prod.mk.injEq]
    exact ⟨fun heq => ⟨by omega, heq⟩, fun heq => heq.2⟩
  | false =>
    obtain ⟨num, hstage⟩ := h.remote helided
    rw [if_neg Bool.false_ne_true]
    rcases hmode with ⟨hdirect, hlt, hprops⟩ | ⟨htwo, hle, hprops⟩
    · rw [rowsAt_direct hstage h.producers_pos hpart hprops hdirect hj hp]
      congr 1
      refine Multiset.filter_congr fun row _ => ?_
      rw [landing, if_pos hlt, Prod.mk.injEq, Nat.div_mod_unique (Nat.zero_lt_of_lt hp),
        Nat.mul_comm j]
      exact ⟨fun heq => ⟨by omega, hp⟩, fun heq => by omega⟩
    · rw [rowsAt_twoPhase hstage hpart hprops htwo hj]
      congr 1
      refine Multiset.filter_congr fun row _ => ?_
      rw [landing, if_neg (by omega), Prod.mk.injEq]
      exact and_comm

end HashShuffle

/-- Rows that are their own key, hashed to the sum of the key values. -/
def routingByValue : RowRouting ℕ ℕ ℕ where
  eval := fun _ row => row
  literal := id
  hash := List.sum
  route := fun partitioning row =>
    match partitioning with
    | .hash exprs n =>
      (exprs.map fun e => match e with
        | .expr _ => row
        | .literal value => value).sum % n
    | _ => 0
  route_hash := fun _ _ _ => rfl
  route_lt := by
    intro partitioning row hpos
    cases partitioning with
    | hash exprs n => exact Nat.mod_lt _ hpos
    | _ => exact hpos

end DatafusionDistributed
