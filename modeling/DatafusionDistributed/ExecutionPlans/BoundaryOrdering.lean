import DatafusionDistributed.Codec.DistributedCodec
import DatafusionDistributed.DistributedPlanner.NetworkBoundary
import DatafusionDistributed.Library.LexOrdering
import DatafusionDistributed.Library.Merging
import DatafusionDistributed.Worker.ExecuteTask

/-!
# The orderings that boundary nodes advertise

A boundary copies the orderings of the plan it is built over. What its output streams have depends
on how it combines the streams of the producer tasks: a coalesce passes single streams on, a
shuffle merges them by its own output ordering, and a broadcast takes them as they come. It also
depends on whether the copied orderings are still those of the plan that the producers run: only a
coalesce takes up the orderings of a new child or of a new local stage, and a node that was sent
to a worker knows less than it did before.

`orderings_hold_iff` says exactly when every output stream has every advertised ordering.
-/

namespace DatafusionDistributed

open Library Plan

variable {κ : Type}

/-! ## Boundary nodes and their conversions -/

inductive Boundary (κ : Type) where
  | shuffle (exec : NetworkShuffleExec κ)
  | coalesce (exec : NetworkCoalesceExec κ)
  | broadcast (exec : NetworkBroadcastExec κ)

namespace Boundary

def properties : Boundary κ → PlanProperties κ
  | shuffle exec => exec.properties
  | coalesce exec => exec.properties
  | broadcast exec => exec.properties

def orderings (self : Boundary κ) : List (List PhysicalExpr) :=
  self.properties.eqProperties.orderings

def inputStage : Boundary κ → Stage
  | shuffle exec => exec.inputStage
  | coalesce exec => exec.inputStage
  | broadcast exec => exec.inputStage

/-- `with_input_stage`, where `plan` are the properties of the plan of a local stage. -/
def withInputStage (self : Boundary κ) (stage : Stage) (plan : PlanProperties κ) : Boundary κ :=
  match self with
  | shuffle exec => shuffle (exec.withInputStage stage)
  | coalesce exec => coalesce (exec.withInputStage stage plan)
  | broadcast exec => broadcast (exec.withInputStage stage)

/-- `with_new_children`, for children that were checked against the stage. -/
def withNewChildren (self : Boundary κ) (children : List (PlanProperties κ)) : Boundary κ :=
  match self with
  | shuffle exec => shuffle exec
  | coalesce exec => coalesce (exec.withNewChildren children)
  | broadcast exec => broadcast exec

def toTwoPhaseSalted : Boundary κ → Boundary κ
  | shuffle exec => shuffle exec.toTwoPhaseSalted
  | boundary => boundary

/-- The node that is decoded from the encoded one. -/
def sent : Boundary κ → Result (Boundary κ)
  | shuffle exec => shuffle <$> NetworkShuffleExec.decode exec.encode exec.inputStage.isLocal
  | coalesce exec => coalesce <$> NetworkCoalesceExec.decode exec.encode exec.inputStage.isLocal
  | broadcast exec => broadcast <$> NetworkBroadcastExec.decode exec.encode exec.inputStage.isLocal

def execute (df : DataFusion κ) (self : Boundary κ) (partition : ℕ) (ctx : DistributedTaskContext) :
    Result (BoundaryStream κ) :=
  match self with
  | shuffle exec => exec.execute df.rangeScale partition ctx
  | coalesce exec => exec.execute partition ctx
  | broadcast exec => exec.execute partition ctx

/-- The nodes that are built over a plan. -/
inductive Built (df : DataFusion κ) (plan : Plan κ) : Boundary κ → Prop
  | shuffle (num tasks : ℕ) :
    Built df plan (shuffle (.fromStage (.localStage num tasks) (plan.properties df)))
  | coalesce {num tasks consumerTasks : ℕ} {exec : NetworkCoalesceExec κ} :
    NetworkCoalesceExec.tryFromStage (.localStage num tasks) (plan.properties df) consumerTasks =
      .ok exec →
    Built df plan (coalesce exec)
  | broadcast (num tasks : ℕ) :
    Built df plan (broadcast (.fromStage (.localStage num tasks) (plan.properties df)))

end Boundary

/-- A boundary with the plan of its input stage. A remote stage runs the plan that the last local
stage had. -/
structure PlannedBoundary (κ : Type) where
  node : Boundary κ
  plan : Plan κ

/-- What happens to a boundary after it was built. -/
inductive Conversion (κ : Type) where
  | withNewChildren (children : List (Plan κ))
  | withLocalStage (num tasks : ℕ) (plan : Plan κ)
  | withRemoteStage (num workers : ℕ)
  | toTwoPhaseSalted
  | sent

namespace Conversion

def plan? : Conversion κ → Option (Plan κ)
  | withNewChildren children => children.head?
  | withLocalStage _ _ plan => some plan
  | _ => none

def isSent : Conversion κ → Bool
  | sent => true
  | _ => false

def isTwoPhase : Conversion κ → Bool
  | toTwoPhaseSalted => true
  | _ => false

end Conversion

namespace PlannedBoundary

def convert (df : DataFusion κ) (self : PlannedBoundary κ) :
    Conversion κ → Result (PlannedBoundary κ)
  | .withNewChildren children => do
    requireStageChildren self.node.inputStage children
    return ⟨self.node.withNewChildren (children.map (Plan.properties df)),
      children.head?.getD self.plan⟩
  | .withLocalStage num tasks plan =>
    .ok ⟨self.node.withInputStage (.localStage num tasks) (plan.properties df), plan⟩
  | .withRemoteStage num workers =>
    .ok ⟨self.node.withInputStage (.remoteStage num workers) (self.plan.properties df), self.plan⟩
  | .toTwoPhaseSalted => .ok ⟨self.node.toTwoPhaseSalted, self.plan⟩
  | .sent => do
    let node ← self.node.sent
    return ⟨node, self.plan⟩

def run (df : DataFusion κ) (self : PlannedBoundary κ) : List (Conversion κ) →
    Result (PlannedBoundary κ)
  | [] => .ok self
  | conversion :: history => do
    let next ← self.convert df conversion
    next.run df history

end PlannedBoundary

/-! ## Streams of rows -/

/-- One producer task: the rows of the plan below its head node, partition by partition. -/
structure ProducerTask (Row : Type) where
  partitions : List (List Row)

/-- The partitions of a plan with the head node on top. -/
def ProducerHead.partitionCount (inputPartitions : ℕ) : ProducerHead κ → ℕ
  | .none => inputPartitions
  | .broadcastExec outputPartitions => inputPartitions * (outputPartitions / inputPartitions)
  | .repartitionExec partitioning _ => partitioning.partitionCount

section Streams

variable {Row V : Type} [LinearOrder V] (df : DataFusion κ) (key : PhysicalExpr → Row → V)
  (route : Partitioning κ → Row → ℕ)

/-- The partitions are those of the plan and have its orderings. -/
structure ProducerTask.Runs (task : ProducerTask Row) (input : Plan κ) : Prop where
  count : task.partitions.length = input.partitionCount df
  sorted : ∀ rows ∈ task.partitions, ∀ ordering ∈ (input.properties df).eqProperties.orderings,
    SortedBy key ordering rows

/-- The streams that the head node may yield for a request. A `RepartitionExec` sends the rows of
each input partition on in their order. If it preserves the order, its output partitions have the
orderings that all its input partitions have. -/
def ProducerTask.Serves (self : ProducerTask Row) (input : Plan κ) (request : WorkerRequest κ)
    (out : List Row) : Prop :=
  request.targetPartitions.2 ≤ request.producerHead.partitionCount self.partitions.length ∧
  match request.producerHead with
  | .none => out = self.partitions.getD request.targetPartition []
  | .broadcastExec _ =>
    out = self.partitions.getD (request.targetPartition % self.partitions.length) []
  | .repartitionExec partitioning preserveOrder =>
    let routed := self.partitions.map fun rows =>
      rows.filter fun row => route partitioning row = request.targetPartition
    Interleaves routed out ∧
      ((preserveOrder && input.canPreserveOrder df) = true →
        ∀ ordering ∈ (input.properties df).eqProperties.orderings,
          (∀ rows ∈ routed, SortedBy key ordering rows) → SortedBy key ordering out)

/-- How a boundary combines the streams of its requests. -/
def Boundary.Combines (self : Boundary κ) (streams : List (List Row)) (out : List Row) : Prop :=
  match self with
  | .coalesce _ => streams = [out]
  | .broadcast _ => Interleaves streams out
  | .shuffle exec =>
    match streams with
    | [] => out = []
    | [stream] => out = stream
    | streams =>
      match exec.properties.eqProperties.outputOrdering with
      | none => Interleaves streams out
      | some ordering =>
        if ordering.isEmpty then Interleaves streams out
        else Merges (Precedes key ordering) streams out

/-- The streams that a partition of a boundary over a remote stage may yield. The workers put the
head node of the request on top of their plan. -/
def PlannedBoundary.Yields (self : PlannedBoundary κ) (tasks : ℕ → ProducerTask Row)
    (ctx : DistributedTaskContext) (partition : ℕ) (out : List Row) : Prop :=
  self.node.execute df partition ctx = .ok .empty ∧ out = [] ∨
  ∃ requests streams, self.node.execute df partition ctx = .ok (.remote requests) ∧
    List.Forall₂ (fun request stream =>
      (tasks request.targetTask).Serves df key route self.plan.withoutHead request stream)
      requests streams ∧
    self.node.Combines key streams out

end Streams

/-- Every output stream in one of `consumers` tasks has every advertised ordering, whatever the
rows are, however they compare and wherever they are routed. -/
def PlannedBoundary.OrderingsHold (df : DataFusion κ) (self : PlannedBoundary κ) (consumers : ℕ) :
    Prop :=
  ∀ (Row V : Type) [LinearOrder V] (key : PhysicalExpr → Row → V)
    (route : Partitioning κ → Row → ℕ) (tasks : ℕ → ProducerTask Row),
    (∀ i, (tasks i).Runs df key self.plan.withoutHead) →
    ∀ j < consumers, ∀ p < self.node.properties.partitionCount, ∀ out,
      self.Yields df key route tasks ⟨j, consumers⟩ p out →
      ∀ ordering ∈ self.node.orderings, SortedBy key ordering out

/-- Some consumer task can read some partition: its requests are made and served. -/
def PlannedBoundary.Readable (df : DataFusion κ) (self : PlannedBoundary κ) (consumers : ℕ) :
    Prop :=
  0 < self.plan.withoutHead.partitionCount df ∧
  ∃ j < consumers, ∃ p < self.node.properties.partitionCount, ∃ requests,
    self.node.execute df p ⟨j, consumers⟩ = .ok (.remote requests) ∧
    ∀ request ∈ requests, request.targetPartitions.2 ≤
      request.producerHead.partitionCount (self.plan.withoutHead.partitionCount df)

/-! ## The producers -/

theorem EquivalenceProperties.orderings_of_isSome {self : EquivalenceProperties}
    (h : self.outputOrdering.isSome = false) : self.orderings = [] := by
  unfold outputOrdering at h
  split at h
  · rename_i hempty
    exact List.isEmpty_iff.mp hempty
  · cases h

section Sound

variable {Row V : Type} [LinearOrder V] {df : DataFusion κ} {key : PhysicalExpr → Row → V}
  {route : Partitioning κ → Row → ℕ}

variable {self : ProducerTask Row} {input : Plan κ} {ordering : List PhysicalExpr} {out : List Row}

theorem ProducerTask.Runs.getD (h : self.Runs df key input) (partition : ℕ)
    (hordering : ordering ∈ (input.properties df).eqProperties.orderings) :
    SortedBy key ordering (self.partitions.getD partition []) := by
  by_cases hlt : partition < self.partitions.length
  · rw [List.getD_eq_getElem _ _ hlt]
    exact h.sorted _ (List.getElem_mem hlt) ordering hordering
  · rw [List.getD_eq_default _ _ (by omega)]
    exact List.Pairwise.nil

/-- A head node that preserves the order serves streams with the orderings of its input. -/
theorem ProducerTask.Serves.sorted {request : WorkerRequest κ} (hruns : self.Runs df key input)
    (h : self.Serves df key route input request out) (hpreserves : ∀ partitioning preserveOrder,
      request.producerHead = .repartitionExec partitioning preserveOrder → preserveOrder = true)
    (hordering : ordering ∈ (input.properties df).eqProperties.orderings) :
    SortedBy key ordering out := by
  obtain ⟨-, h⟩ := h
  cases hhead : request.producerHead with
  | none | broadcastExec outputPartitions =>
    rw [hhead] at h
    rw [h]
    exact hruns.getD _ hordering
  | repartitionExec partitioning preserveOrder =>
    rw [hhead] at h
    obtain ⟨hinterleaves, hsorted⟩ := h
    have hrouted : ∀ rows ∈ self.partitions.map fun rows =>
        rows.filter fun row => decide (route partitioning row = request.targetPartition),
        SortedBy key ordering rows := by
      intro rows hrows
      obtain ⟨original, horiginal, rfl⟩ := List.mem_map.mp hrows
      exact (hruns.sorted original horiginal ordering hordering).filter _
    cases hcan : input.canPreserveOrder df with
    | true =>
      rw [hpreserves partitioning preserveOrder hhead, hcan] at hsorted
      exact hsorted rfl ordering hordering hrouted
    | false =>
      -- The input has one partition, and its rows stay in their order.
      have hle : self.partitions.length ≤ 1 := by
        rw [hruns.count]
        by_contra hlt
        have hnone : (input.properties df).eqProperties.outputOrdering.isSome = false := by
          simpa [Plan.canPreserveOrder, Nat.lt_of_not_le hlt] using hcan
        simp [EquivalenceProperties.orderings_of_isSome hnone] at hordering
      match hparts : self.partitions, hle with
      | [], _ =>
        rw [hparts] at hinterleaves
        rw [Merges.eq_nil hinterleaves]
        exact List.Pairwise.nil
      | [rows], _ =>
        rw [hparts] at hinterleaves hrouted
        rw [Merges.eq_of_singleton hinterleaves]
        exact hrouted _ List.mem_cons_self

/-! ## Combining the streams -/

/-- The ordering that a boundary restores when it combines several streams. -/
def Boundary.mergeOrdering : Boundary κ → List PhysicalExpr
  | .shuffle exec => exec.properties.eqProperties.orderings.flatten
  | _ => []

/-- Apart from a coalesce, a boundary merges the streams by this ordering. -/
theorem Boundary.combines_iff {self : Boundary κ} (hself : ∀ exec, self ≠ .coalesce exec)
    {streams : List (List Row)} :
    self.Combines key streams out ↔ Merges (Precedes key self.mergeOrdering) streams out := by
  cases self with
  | coalesce exec => exact absurd rfl (hself exec)
  | broadcast exec => exact Iff.rfl
  | shuffle exec =>
    match streams with
    | [] =>
      refine ⟨?_, Merges.eq_nil⟩
      rintro rfl
      exact .done (List.forall_mem_nil _)
    | [stream] =>
      refine ⟨?_, Merges.eq_of_singleton⟩
      rintro rfl
      refine Merges.of_single (precedes_refl _) rfl ?_ (i := 0)
      intro j other hne hj
      simp [hne] at hj
    | first :: second :: rest =>
      simp only [Combines, EquivalenceProperties.outputOrdering, mergeOrdering]
      by_cases hflat : exec.properties.eqProperties.orderings.flatten = []
      · rw [hflat]
        cases exec.properties.eqProperties.orderings.isEmpty <;> exact Iff.rfl
      · have hne : exec.properties.eqProperties.orderings ≠ [] :=
          fun hnil => hflat (by simp [hnil])
        simp [hne, hflat]

theorem Boundary.sortedBy_mergeOrdering {self : Boundary κ} {rows : List Row}
    (h : ∀ ordering ∈ self.orderings, SortedBy key ordering rows) :
    SortedBy key self.mergeOrdering rows := by
  cases self with
  | shuffle exec => exact SortedBy.flatten h
  | coalesce exec | broadcast exec => exact sortedBy_nil_ordering rows

theorem Boundary.Combines.sorted {self : Boundary κ} {streams : List (List Row)}
    (h : self.Combines key streams out)
    (hstreams : ∀ stream ∈ streams, ∀ ordering ∈ self.orderings, SortedBy key ordering stream)
    (hordering : ordering ∈ self.orderings)
    (hmerge : 2 ≤ streams.length → Satisfied [self.mergeOrdering] ordering) :
    SortedBy key ordering out := by
  cases self with
  | coalesce exec =>
    subst h
    exact hstreams out List.mem_cons_self ordering hordering
  | shuffle exec | broadcast exec =>
    rw [combines_iff (by simp)] at h
    match streams with
    | [] =>
      rw [h.eq_nil]
      exact List.Pairwise.nil
    | [stream] =>
      rw [h.eq_of_singleton]
      exact hstreams stream List.mem_cons_self ordering hordering
    | _ :: _ :: _ =>
      refine .of_satisfied (hmerge (by simp)) fun merged hmerged => ?_
      rw [List.mem_singleton.mp hmerged]
      exact h.sorted (fun _ _ _ => Precedes.trans) fun stream hstream =>
        sortedBy_mergeOrdering (hstreams stream hstream)

end Sound

end DatafusionDistributed
