import DatafusionDistributed.ExecutionPlans.NetworkBroadcast
import DatafusionDistributed.ExecutionPlans.NetworkCoalesce
import DatafusionDistributed.ExecutionPlans.NetworkShuffle

/-!
# Boundary nodes on the wire

The messages that the codec makes of the boundary nodes, and the nodes it builds from them. The
child of a node with a local stage travels as an input of its own, and whether there is one tells
a local stage from a remote one. Partitionings and expressions are DataFusion's and arrive as they
were sent.

Of the equivalence properties only the classes of equal expressions are sent, and for a shuffle
also the output ordering.
-/

namespace DatafusionDistributed

/-- `StageProto`: of each task only whether it has a URL is kept. -/
structure StageProto where
  num : ℕ
  tasks : List Bool
  deriving DecidableEq, Repr

/-- `encode_stage_proto`. -/
def Stage.encode : Stage → StageProto
  | localStage num tasks => ⟨num, List.replicate tasks false⟩
  | remoteStage num workers => ⟨num, List.replicate workers true⟩

/-- `parse_stage_proto`, where `hasInput` tells whether the node was sent with a child. -/
def StageProto.parse (self : StageProto) (hasInput : Bool) : Result Stage :=
  if hasInput then .ok (.localStage self.num self.tasks.length)
  else if self.tasks.all id then .ok (.remoteStage self.num self.tasks.length)
  else .error (.internal "Missing URL in task")

theorem StageProto.parse_encode (stage : Stage) : stage.encode.parse stage.isLocal = .ok stage := by
  cases stage with
  | localStage num tasks | remoteStage num workers =>
    simp [Stage.encode, StageProto.parse, Stage.isLocal]

structure NetworkShuffleExecProto (κ : Type) where
  partitioning : Partitioning κ
  inputStage : StageProto
  equivalenceClasses : List (List PhysicalExpr)
  twoPhase : Bool
  salt : ℕ
  ordering : List PhysicalExpr
  deriving DecidableEq, Repr

structure NetworkCoalesceExecProto (κ : Type) where
  partitioning : Partitioning κ
  inputStage : StageProto
  equivalenceClasses : List (List PhysicalExpr)
  consumerTasks : ℕ
  deriving DecidableEq, Repr

structure NetworkBroadcastExecProto (κ : Type) where
  partitioning : Partitioning κ
  inputStage : StageProto
  equivalenceClasses : List (List PhysicalExpr)
  deriving DecidableEq, Repr

variable {κ : Type}

def parseEquivalenceProperties (equivalenceClasses : List (List PhysicalExpr)) :
    EquivalenceProperties :=
  { eqGroup := equivalenceClasses }

/-! ## Shuffles -/

namespace NetworkShuffleExec

def encode (self : NetworkShuffleExec κ) : NetworkShuffleExecProto κ where
  partitioning := self.producerPartitioning
  inputStage := self.inputStage.encode
  equivalenceClasses := self.properties.eqProperties.eqGroup
  twoPhase := match self.mode with
    | .direct => false
    | .twoPhase _ => true
  salt := match self.mode with
    | .direct => 0
    | .twoPhase salt => salt
  ordering := self.properties.eqProperties.outputOrdering.getD []

def newNetworkHashShuffleExec (partitioning : Partitioning κ)
    (equivalenceProperties : EquivalenceProperties) (inputStage : Stage) (mode : ShuffleMode) :
    NetworkShuffleExec κ where
  properties :=
    { eqProperties := equivalenceProperties
      partitioning := match mode with
        | .direct => if partitioning.isRange then .unknownPartitioning 1 else partitioning
        | .twoPhase _ => .unknownPartitioning inputStage.taskCount }
  producerPartitioning := partitioning
  inputStage
  mode

def decode (proto : NetworkShuffleExecProto κ) (hasInput : Bool) :
    Result (NetworkShuffleExec κ) := do
  let parsed := parseEquivalenceProperties proto.equivalenceClasses
  let equivalenceProperties :=
    if proto.ordering.isEmpty then parsed else { parsed with orderings := [proto.ordering] }
  let mode := if proto.twoPhase then ShuffleMode.twoPhase proto.salt else .direct
  let inputStage ← proto.inputStage.parse hasInput
  return newNetworkHashShuffleExec proto.partitioning equivalenceProperties inputStage mode

/-- What a shuffle that was sent knows of its equivalences: its classes, and all of its orderings,
one after the other. -/
def sentEquivalences (self : NetworkShuffleExec κ) : EquivalenceProperties :=
  { orderings := if self.properties.eqProperties.orderings.flatten.isEmpty then []
      else [self.properties.eqProperties.orderings.flatten]
    eqGroup := self.properties.eqProperties.eqGroup }

theorem ordering_encode (self : NetworkShuffleExec κ) :
    self.encode.ordering = self.properties.eqProperties.orderings.flatten := by
  simp only [encode, EquivalenceProperties.outputOrdering]
  split
  · rename_i hempty
    simp [List.isEmpty_iff.mp hempty]
  · rfl

theorem mode_encode (self : NetworkShuffleExec κ) :
    (if self.encode.twoPhase then ShuffleMode.twoPhase self.encode.salt else .direct) =
      self.mode := by
  obtain ⟨properties, producerPartitioning, inputStage, mode⟩ := self
  cases mode <;> rfl

theorem equivalences_encode (self : NetworkShuffleExec κ) :
    (if self.encode.ordering.isEmpty then parseEquivalenceProperties self.encode.equivalenceClasses
      else { parseEquivalenceProperties self.encode.equivalenceClasses with
        orderings := [self.encode.ordering] }) = self.sentEquivalences := by
  rw [ordering_encode, sentEquivalences]
  split <;> rfl

theorem decode_encode_eq (self : NetworkShuffleExec κ) :
    decode self.encode self.inputStage.isLocal =
      .ok (newNetworkHashShuffleExec self.producerPartitioning self.sentEquivalences
        self.inputStage self.mode) := by
  unfold decode
  dsimp only
  rw [equivalences_encode, mode_encode]
  show (self.inputStage.encode.parse self.inputStage.isLocal >>= fun _ => _) = _
  rw [StageProto.parse_encode]
  rfl

/-- A shuffle that was sent advertises one ordering: all of its orderings, one after the
other. -/
theorem decode_encode (self : NetworkShuffleExec κ) :
    ∃ node : NetworkShuffleExec κ, decode self.encode self.inputStage.isLocal = .ok node ∧
      node.inputStage = self.inputStage ∧ node.mode = self.mode ∧
      node.producerPartitioning = self.producerPartitioning ∧
      node.properties.eqProperties.orderings =
        if self.properties.eqProperties.orderings.flatten.isEmpty then []
        else [self.properties.eqProperties.orderings.flatten] :=
  ⟨_, self.decode_encode_eq, rfl, rfl, rfl, rfl⟩

end NetworkShuffleExec

/-! ## Coalesces -/

namespace NetworkCoalesceExec

def encode (self : NetworkCoalesceExec κ) : NetworkCoalesceExecProto κ where
  partitioning := self.properties.partitioning
  inputStage := self.inputStage.encode
  equivalenceClasses := self.properties.eqProperties.eqGroup
  consumerTasks := self.consumerTasks

def decode (proto : NetworkCoalesceExecProto κ) (hasInput : Bool) :
    Result (NetworkCoalesceExec κ) := do
  let inputStage ← proto.inputStage.parse hasInput
  return { properties :=
             { eqProperties := parseEquivalenceProperties proto.equivalenceClasses
               partitioning := proto.partitioning }
           inputStage
           consumerTasks :=
             if h : 0 < proto.consumerTasks then ⟨proto.consumerTasks, h⟩ else 1 }

theorem consumerTasks_encode (self : NetworkCoalesceExec κ) :
    (if h : 0 < self.encode.consumerTasks then ⟨self.encode.consumerTasks, h⟩ else 1) =
      self.consumerTasks :=
  dif_pos self.consumerTasks.pos

theorem decode_encode (self : NetworkCoalesceExec κ) :
    decode self.encode self.inputStage.isLocal =
      .ok { self with
        properties := ⟨{ eqGroup := self.properties.eqProperties.eqGroup },
          self.properties.partitioning⟩ } := by
  show (self.inputStage.encode.parse self.inputStage.isLocal >>= fun _ => _) = _
  rw [StageProto.parse_encode]
  rw [consumerTasks_encode]
  rfl

end NetworkCoalesceExec

/-! ## Broadcasts -/

namespace NetworkBroadcastExec

def encode (self : NetworkBroadcastExec κ) : NetworkBroadcastExecProto κ where
  partitioning := self.properties.partitioning
  inputStage := self.inputStage.encode
  equivalenceClasses := self.properties.eqProperties.eqGroup

def decode (proto : NetworkBroadcastExecProto κ) (hasInput : Bool) :
    Result (NetworkBroadcastExec κ) := do
  let inputStage ← proto.inputStage.parse hasInput
  return { properties :=
             { eqProperties := parseEquivalenceProperties proto.equivalenceClasses
               partitioning := proto.partitioning }
           inputStage }

theorem decode_encode (self : NetworkBroadcastExec κ) :
    decode self.encode self.inputStage.isLocal =
      .ok { self with
        properties := ⟨{ eqGroup := self.properties.eqProperties.eqGroup },
          self.properties.partitioning⟩ } := by
  show (self.inputStage.encode.parse self.inputStage.isLocal >>= fun _ => _) = _
  rw [StageProto.parse_encode]
  rfl

end NetworkBroadcastExec

end DatafusionDistributed
