import DatafusionDistributed.ExecutionPlans.BoundaryOrdering

/-!
# The plan nodes of this crate on the wire

`DistributedCodec` turns one of the six plan nodes of this crate into a message and back. The
children of a node travel by themselves and come back as `inputs`. Several fields are not sent:
the advertised partitioning of a shuffle follows from its mode and its stage, the properties of a
`BroadcastExec` follow from its input, and those of a union from a `UnionExec` of its inputs.

DataFusion's messages for schemas, expressions and partitionings, and the texts of URLs, are
parameters (`DataFusionProto`), and `DataFusionProto.RoundTrips` says that each of them comes back
as it was sent.

`plan_node_roundTrip` says what comes back.
-/

namespace DatafusionDistributed

open Library

/-- What the codec calls in DataFusion, in its protobuf crate and in the crate of `Url`. -/
structure DataFusionProto (κ : Type) where
  Schema : Type
  SchemaNode : Type
  ExprNode : Type
  SortExprNode : Type
  PartitioningNode : Type
  Url : Type
  schemaToProto : Schema → Result SchemaNode
  schemaFromProto : SchemaNode → Result Schema
  physicalExprToProto : PhysicalExpr → Result ExprNode
  protoToPhysicalExpr : Schema → ExprNode → Result PhysicalExpr
  serializePhysicalSortExpr : PhysicalExpr → Result SortExprNode
  parsePhysicalSortExpr : Schema → SortExprNode → Result PhysicalExpr
  serializePartitioning : Partitioning κ → Result PartitioningNode
  parseProtobufPartitioning :
    Schema → Option PartitioningNode → Result (Option (Partitioning κ))
  urlToString : Url → String
  urlParse : String → Option Url

/-- What DataFusion's own codecs send comes back. -/
structure DataFusionProto.RoundTrips {κ : Type} (proto : DataFusionProto κ) : Prop where
  schema : ∀ schema, RoundTrip proto.schemaToProto proto.schemaFromProto schema
  expr : ∀ schema expr,
    RoundTrip proto.physicalExprToProto (proto.protoToPhysicalExpr schema) expr
  sortExpr : ∀ schema expr,
    RoundTrip proto.serializePhysicalSortExpr (proto.parsePhysicalSortExpr schema) expr
  partitioning : ∀ schema partitioning, ∃ node,
    proto.serializePartitioning partitioning = .ok node ∧
      proto.parseProtobufPartitioning schema (some node) = .ok (some partitioning)
  url : ∀ url, proto.urlParse (proto.urlToString url) = some url

/-! ## Identifiers and task counts -/

structure Uuid where
  bytes : List UInt8
  length_bytes : bytes.length = 16
  deriving DecidableEq

def serializeUuid (id : Uuid) : List UInt8 := id.bytes

def deserializeUuid (id : List UInt8) : Result Uuid :=
  if h : id.length = 16 then .ok ⟨id, h⟩
  else .error (.internal
    s!"Invalid Uuid bytes: invalid length: expected 16 bytes, found {id.length}")

theorem deserializeUuid_serializeUuid (id : Uuid) :
    deserializeUuid (serializeUuid id) = .ok id :=
  dif_pos id.length_bytes

structure TaskCountAnnotationProto where
  soft : ℚ
  hard : Option ℕ
  min : Option ℕ
  max : Option ℕ
  deriving DecidableEq, Repr

/-- `NonZeroUsize::new`, with the error of an empty count. -/
def nonZero (value : ℕ) (message : String) : Result ℕ+ :=
  if h : 0 < value then .ok ⟨value, h⟩ else .error (.internal message)

@[simp] theorem nonZero_coe (value : ℕ+) (message : String) :
    nonZero value message = .ok value :=
  dif_pos value.pos

def parseTaskCountAnnotation (value : TaskCountAnnotationProto) : Result TaskCountAnnotation := do
  let annotation ← match value.min with
    | none => .ok (.ofSoft value.soft)
    | some min => do
      let min ← nonZero min "Task-count minimum must be nonzero"
      .ok (.ofMin min value.soft)
  let annotation ← match value.max with
    | none => .ok annotation
    | some max => do
      let max ← nonZero max "Task-count maximum must be nonzero"
      annotation.merge (.ofMax max value.soft)
  match value.hard with
  | none => .ok annotation
  | some exact => do
    let exact ← nonZero exact "Exact task count must be nonzero"
    annotation.merge (.ofExact exact value.soft)

def serializeTaskCountAnnotation (value : TaskCountAnnotation) : TaskCountAnnotationProto :=
  match value.restriction with
  | .none => ⟨value.soft, none, none, none⟩
  | .exact exact => ⟨value.soft, some exact, none, none⟩
  | .min min => ⟨value.soft, none, some min, none⟩
  | .max max => ⟨value.soft, none, none, some max⟩
  | .range min max _ => ⟨value.soft, none, some min, some max⟩

/-- Nothing is added to a restriction by an estimate of the same size. -/
theorem merge_ofSoft (soft : ℚ) (restriction : TaskCountRestriction) :
    TaskCountAnnotation.merge (.ofSoft soft) ⟨soft, restriction⟩ = .ok ⟨soft, restriction⟩ := by
  show Except.ok (⟨Max.max soft soft, restriction⟩ : TaskCountAnnotation) = _
  rw [max_self]

/-- An annotation comes back with every restriction. A range is put together again from its two
bounds. -/
theorem parseTaskCountAnnotation_serialize (value : TaskCountAnnotation) :
    (value |> serializeTaskCountAnnotation |> parseTaskCountAnnotation) = .ok value := by
  obtain ⟨soft, restriction⟩ := value
  cases restriction with
  | none => rfl
  | exact exact =>
    simp only [nonZero_coe, parseTaskCountAnnotation, serializeTaskCountAnnotation]
    exact merge_ofSoft soft (.exact exact)
  | min min =>
    simp only [nonZero_coe, parseTaskCountAnnotation, serializeTaskCountAnnotation]
    rfl
  | max max =>
    simp only [nonZero_coe, ok_bind, parseTaskCountAnnotation, serializeTaskCountAnnotation,
      TaskCountAnnotation.ofMax, merge_ofSoft]
  | range min max lt =>
    have hbounds : TaskCountRestriction.mergeMinMax min max = .ok (.range min max lt) := by
      rw [TaskCountRestriction.mergeMinMax, dif_neg (not_lt.mpr lt.le),
        TaskCountRestriction.ofBounds, dif_neg lt.ne]
    have hmerge : TaskCountAnnotation.merge (.ofMin min soft) (.ofMax max soft) =
        .ok ⟨soft, .range min max lt⟩ := by
      show (TaskCountRestriction.mergeMinMax min max >>= fun restriction =>
        .ok (⟨Max.max soft soft, restriction⟩ : TaskCountAnnotation)) = _
      rw [hbounds, max_self]
      rfl
    simp only [nonZero_coe, ok_bind, hmerge, parseTaskCountAnnotation, serializeTaskCountAnnotation]

/-! ## Stages -/

section stages

variable {κ : Type} (proto : DataFusionProto κ) {α : Type}

structure LocalStage (α : Type) where
  queryId : Uuid
  num : ℕ
  plan : α
  tasks : ℕ

structure RemoteStage (proto : DataFusionProto κ) where
  queryId : Uuid
  num : ℕ
  workers : List proto.Url
  dynamicFilterAnchors : List PhysicalExpr

/-- `Stage` with everything the wire carries of it. -/
inductive InputStage (proto : DataFusionProto κ) (α : Type) where
  | localStage (stage : LocalStage α)
  | remoteStage (stage : RemoteStage proto)

namespace InputStage

variable {proto}

def toStage : InputStage proto α → Stage
  | localStage stage => .localStage stage.num stage.tasks
  | remoteStage stage => .remoteStage stage.num stage.workers.length

/-- The plan of a local stage is the child of the boundary node. -/
def children : InputStage proto α → List α
  | localStage stage => [stage.plan]
  | remoteStage _ => []

def dynamicFilterAnchors : InputStage proto α → List PhysicalExpr
  | localStage _ => []
  | remoteStage stage => stage.dynamicFilterAnchors

end InputStage

structure ExecutionTaskProto where
  urlStr : Option String
  deriving DecidableEq, Repr

/-- `StageProto`, with all of its fields. -/
structure InputStageProto (proto : DataFusionProto κ) where
  queryId : List UInt8
  num : ℕ
  tasks : List ExecutionTaskProto
  dynamicFilterAnchors : List proto.ExprNode

def encodeStageProto (stage : InputStage proto α) : Result (InputStageProto proto) := do
  let dynamicFilterAnchors ← stage.dynamicFilterAnchors.mapM proto.physicalExprToProto
  match stage with
  | .localStage stage =>
    .ok { queryId := serializeUuid stage.queryId
          num := stage.num
          tasks := List.replicate stage.tasks ⟨none⟩
          dynamicFilterAnchors }
  | .remoteStage stage =>
    .ok { queryId := serializeUuid stage.queryId
          num := stage.num
          tasks := stage.workers.map fun worker => ⟨some (proto.urlToString worker)⟩
          dynamicFilterAnchors }

def parseTaskUrl (task : ExecutionTaskProto) : Result proto.Url :=
  match task.urlStr with
  | none => .error (.internal "Missing URL in task")
  | some urlStr =>
    match proto.urlParse urlStr with
    | none => .error (.internal "Invalid URL in task")
    | some url => .ok url

def parseStageProto (stage : Option (InputStageProto proto)) (inputs : List α)
    (dynamicFilterAnchors : List PhysicalExpr) : Result (InputStage proto α) :=
  match stage with
  | none => .error (.internal "Empty StageProto")
  | some stage =>
    match inputs with
    | input :: _ =>
      if dynamicFilterAnchors.isEmpty then do
        let queryId ← deserializeUuid stage.queryId
        return .localStage { queryId, num := stage.num, plan := input, tasks := stage.tasks.length }
      else .error (.internal "Dynamic filter anchors require a remote input stage")
    | [] => do
      let workers ← stage.tasks.mapM (parseTaskUrl proto)
      let queryId ← deserializeUuid stage.queryId
      return .remoteStage { queryId, num := stage.num, workers, dynamicFilterAnchors }

/-- The anchors of the stage message, read with the schema of the boundary. -/
def parseAnchors (schema : proto.Schema) (stage : Option (InputStageProto proto)) :
    Result (List PhysicalExpr) :=
  (stage.elim [] InputStageProto.dynamicFilterAnchors).mapM (proto.protoToPhysicalExpr schema)

variable {proto}

theorem mapM_parseTaskUrl (h : proto.RoundTrips) (workers : List proto.Url) :
    (workers.map fun worker => (⟨some (proto.urlToString worker)⟩ : ExecutionTaskProto)).mapM
      (parseTaskUrl proto) = .ok workers := by
  rw [mapM_ok_iff, List.forall₂_map_left_iff, List.forall₂_same]
  intro worker _
  simp only [parseTaskUrl, h.url]

/-- A stage comes back with its identifier, number, tasks, URLs and anchors. -/
theorem stage_roundTrip (h : proto.RoundTrips) (schema : proto.Schema)
    (stage : InputStage proto α) :
    ∃ message, encodeStageProto proto stage = .ok message ∧
      parseAnchors proto schema (some message) = .ok stage.dynamicFilterAnchors ∧
      parseStageProto proto (some message) stage.children stage.dynamicFilterAnchors =
        .ok stage := by
  obtain ⟨anchors, hanchors, hback⟩ :=
    (RoundTrip.mapM fun expr _ => h.expr schema expr :
      RoundTrip _ (List.mapM (proto.protoToPhysicalExpr schema)) stage.dynamicFilterAnchors)
  simp only [encodeStageProto, hanchors]
  cases stage with
  | localStage stage =>
    refine ⟨_, rfl, hback, ?_⟩
    simp [parseStageProto, InputStage.children, InputStage.dynamicFilterAnchors,
      deserializeUuid_serializeUuid, ok_bind, pure, Except.pure]
  | remoteStage stage =>
    refine ⟨_, rfl, hback, ?_⟩
    simp [parseStageProto, InputStage.children, InputStage.dynamicFilterAnchors,
      mapM_parseTaskUrl h, deserializeUuid_serializeUuid, ok_bind, pure, Except.pure]

end stages

/-! ## Nodes and messages -/

section nodes

variable {κ : Type} (proto : DataFusionProto κ) {α : Type}

/-- A boundary node, with its schema and all of its stage. -/
structure BoundaryNode (proto : DataFusionProto κ) (α : Type) where
  schema : proto.Schema
  stage : InputStage proto α
  exec : Boundary κ
  agrees : exec.inputStage = stage.toStage

/-- The plan nodes that the codec is asked to send. -/
inductive PlanNode (proto : DataFusionProto κ) (α : Type) where
  | boundary (node : BoundaryNode proto α)
  | broadcast (input : α) (consumerTaskCount : ℕ)
  /-- The equivalence properties are those of a `UnionExec` of the children at one time. -/
  | childrenIsolatorUnion (union : ChildrenIsolatorUnionExec α)
      (eqProperties : EquivalenceProperties)
  | sampler (input : α)
  | other (name : String) (properties : PlanProperties κ) (children : List α)

/-- The fields that the messages of the three boundary nodes share. -/
structure BoundaryProto (proto : DataFusionProto κ) where
  schema : Option proto.SchemaNode
  partitioning : Option proto.PartitioningNode
  inputStage : Option (InputStageProto proto)
  equivalenceClasses : List (List proto.ExprNode)

structure ChildIdxWithTaskContextProto where
  childIdx : ℕ
  taskIdx : ℕ
  taskCount : ℕ
  deriving DecidableEq, Repr

def ChildIdxWithTaskContextProto.ofTask (task : ChildTask) : ChildIdxWithTaskContextProto :=
  ⟨task.1, task.2.taskIndex, task.2.taskCount⟩

def ChildIdxWithTaskContextProto.toTask (self : ChildIdxWithTaskContextProto) : ChildTask :=
  (self.childIdx, ⟨self.taskIdx, self.taskCount⟩)

inductive DistributedExecNode (proto : DataFusionProto κ) where
  | networkHashShuffle (fields : BoundaryProto proto) (twoPhase : Bool) (salt : ℕ)
      (ordering : List proto.SortExprNode)
  | networkCoalesceTasks (fields : BoundaryProto proto) (consumerTasks : ℕ)
  | childrenIsolatorUnion (partitionCount : ℕ)
      (taskIdxMap : List (List ChildIdxWithTaskContextProto))
      (childAnnotations : List TaskCountAnnotationProto)
  | networkBroadcast (fields : BoundaryProto proto)
  | broadcast (consumerTaskCount : ℕ)
  | sampler

structure DistributedExecProto (proto : DataFusionProto κ) where
  node : Option (DistributedExecNode proto)

/-- What the codec asks of the children of a node. -/
structure InputOps (κ α : Type) extends ChildOps α where
  properties : α → PlanProperties κ
  /-- The equivalence properties of a `UnionExec` of the children. -/
  unionEquivalences : List α → EquivalenceProperties

/-! ## Encoding -/

def serializeEquivalenceGroup (classes : List (List PhysicalExpr)) :
    Result (List (List proto.ExprNode)) :=
  classes.mapM fun exprs => exprs.mapM proto.physicalExprToProto

def encodeBoundary (schema : proto.Schema) (partitioning : Partitioning κ)
    (inputStage : InputStage proto α) (equivalenceClasses : List (List PhysicalExpr)) :
    Result (BoundaryProto proto) := do
  let schema ← proto.schemaToProto schema
  let partitioning ← proto.serializePartitioning partitioning
  let inputStage ← encodeStageProto proto inputStage
  let equivalenceClasses ← serializeEquivalenceGroup proto equivalenceClasses
  return ⟨some schema, some partitioning, some inputStage, equivalenceClasses⟩

/-- `try_encode_with_codec` of a boundary node. What is sent of the node itself is `encode`. -/
def encodeBoundaryNode (self : BoundaryNode proto α) : Result (DistributedExecNode proto) :=
  match self.exec with
  | .shuffle exec => do
    let ordering ← exec.encode.ordering.mapM proto.serializePhysicalSortExpr
    let fields ← encodeBoundary proto self.schema exec.encode.partitioning self.stage
      exec.encode.equivalenceClasses
    return .networkHashShuffle fields exec.encode.twoPhase exec.encode.salt ordering
  | .coalesce exec => do
    let fields ← encodeBoundary proto self.schema exec.encode.partitioning self.stage
      exec.encode.equivalenceClasses
    return .networkCoalesceTasks fields exec.encode.consumerTasks
  | .broadcast exec => do
    let fields ← encodeBoundary proto self.schema exec.encode.partitioning self.stage
      exec.encode.equivalenceClasses
    return .networkBroadcast fields

/-- `try_encode_with_codec`, up to the bytes of the message. -/
def tryEncode : PlanNode proto α → Result (DistributedExecProto proto)
  | .boundary node => do
    let message ← encodeBoundaryNode proto node
    return ⟨some message⟩
  | .broadcast _ consumerTaskCount => .ok ⟨some (.broadcast consumerTaskCount)⟩
  | .childrenIsolatorUnion union _ =>
    .ok ⟨some (.childrenIsolatorUnion union.partitionCount
      (union.taskIdxMap.map (List.map .ofTask))
      (union.childAnnotations.map serializeTaskCountAnnotation))⟩
  | .sampler _ => .ok ⟨some .sampler⟩
  | .other name _ _ => .error (.internal s!"Unexpected plan {name}")

/-! ## Decoding -/

/-- What the three boundary messages are decoded to before a node is built. -/
structure BoundaryFields (proto : DataFusionProto κ) (α : Type) where
  schema : proto.Schema
  partitioning : Partitioning κ
  ordering : List PhysicalExpr
  equivalenceClasses : List (List PhysicalExpr)
  stage : InputStage proto α

def parseSchema (name : String) : Option proto.SchemaNode → Result proto.Schema
  | none => .error (.internal s!"{name} is missing schema")
  | some schema => proto.schemaFromProto schema

def parsePartitioning (name : String) (schema : proto.Schema)
    (partitioning : Option proto.PartitioningNode) : Result (Partitioning κ) := do
  match ← proto.parseProtobufPartitioning schema partitioning with
  | none => .error (.internal s!"{name} is missing partitioning")
  | some partitioning => .ok partitioning

/-- The fields of a boundary message, in the order in which they are parsed. Only a shuffle has an
`ordering`. -/
def decodeBoundary (name : String) (message : BoundaryProto proto)
    (ordering : List proto.SortExprNode) (inputs : List α) : Result (BoundaryFields proto α) := do
  let schema ← parseSchema proto name message.schema
  let partitioning ← parsePartitioning proto name schema message.partitioning
  let ordering ← ordering.mapM (proto.parsePhysicalSortExpr schema)
  let dynamicFilterAnchors ← parseAnchors proto schema message.inputStage
  let equivalenceClasses ← message.equivalenceClasses.mapM fun exprs =>
    exprs.mapM (proto.protoToPhysicalExpr schema)
  let stage ← parseStageProto proto message.inputStage inputs dynamicFilterAnchors
  return { schema, partitioning, ordering, equivalenceClasses, stage }

def decodeShuffle (message : BoundaryProto proto) (twoPhase : Bool) (salt : ℕ)
    (ordering : List proto.SortExprNode) (inputs : List α) : Result (BoundaryNode proto α) := do
  let fields ← decodeBoundary proto "NetworkShuffleExec" message ordering inputs
  let parsed := parseEquivalenceProperties fields.equivalenceClasses
  -- The ordering is restored so that the consumer can merge the streams of the producers.
  let equivalenceProperties :=
    if fields.ordering.isEmpty then parsed else { parsed with orderings := [fields.ordering] }
  let mode := if twoPhase then ShuffleMode.twoPhase salt else .direct
  return { schema := fields.schema
           stage := fields.stage
           exec := .shuffle (.newNetworkHashShuffleExec fields.partitioning equivalenceProperties
             fields.stage.toStage mode)
           agrees := rfl }

def decodeCoalesce (message : BoundaryProto proto) (consumerTasks : ℕ) (inputs : List α) :
    Result (BoundaryNode proto α) := do
  let fields ← decodeBoundary proto "NetworkCoalesceExec" message [] inputs
  return { schema := fields.schema
           stage := fields.stage
           exec := .coalesce
             { properties :=
                 { eqProperties := parseEquivalenceProperties fields.equivalenceClasses
                   partitioning := fields.partitioning }
               inputStage := fields.stage.toStage
               consumerTasks := if h : 0 < consumerTasks then ⟨consumerTasks, h⟩ else 1 }
           agrees := rfl }

def decodeBroadcast (message : BoundaryProto proto) (inputs : List α) :
    Result (BoundaryNode proto α) := do
  let fields ← decodeBoundary proto "NetworkBroadcastExec" message [] inputs
  return { schema := fields.schema
           stage := fields.stage
           exec := .broadcast
             { properties :=
                 { eqProperties := parseEquivalenceProperties fields.equivalenceClasses
                   partitioning := fields.partitioning }
               inputStage := fields.stage.toStage }
           agrees := rfl }

def PlanNode.requireOneChild : List α → Result α
  | [child] => .ok child
  | children => .error (.plan s!"Expected exactly 1 children, got {children.length}")

/-- `try_decode_with_codec`, of a message whose bytes were read. -/
def tryDecode (ops : InputOps κ α) (message : DistributedExecProto proto) (inputs : List α) :
    Result (PlanNode proto α) :=
  match message.node with
  | none => .error (.internal "Expected DistributedExecNode in DistributedExecProto")
  | some (.networkHashShuffle fields twoPhase salt ordering) => do
    let node ← decodeShuffle proto fields twoPhase salt ordering inputs
    return .boundary node
  | some (.networkCoalesceTasks fields consumerTasks) => do
    let node ← decodeCoalesce proto fields consumerTasks inputs
    return .boundary node
  | some (.networkBroadcast fields) => do
    let node ← decodeBroadcast proto fields inputs
    return .boundary node
  | some (.broadcast consumerTaskCount) =>
    match inputs with
    | [child] => .ok (.broadcast child consumerTaskCount)
    | inputs =>
      .error (.internal s!"BroadcastExec expects exactly one child, got {inputs.length}")
  | some (.childrenIsolatorUnion partitionCount taskIdxMap childAnnotations) => do
    ops.unionTryNew inputs
    let childAnnotations ← childAnnotations.mapM parseTaskCountAnnotation
    return .childrenIsolatorUnion
      { partitionCount
        childAnnotations
        taskIdxMap := taskIdxMap.map (List.map ChildIdxWithTaskContextProto.toTask)
        children := inputs }
      (ops.unionEquivalences inputs)
  | some .sampler => do
    let child ← PlanNode.requireOneChild inputs
    return .sampler child

end nodes

/-! ## What a node shows -/

namespace PlanNode

variable {κ : Type} {proto : DataFusionProto κ} {α : Type}

def name : PlanNode proto α → String
  | boundary ⟨_, _, .shuffle _, _⟩ => "NetworkShuffleExec"
  | boundary ⟨_, _, .coalesce _, _⟩ => "NetworkCoalesceExec"
  | boundary ⟨_, _, .broadcast _, _⟩ => "NetworkBroadcastExec"
  | broadcast _ _ => "BroadcastExec"
  | childrenIsolatorUnion _ _ => "ChildrenIsolatorUnionExec"
  | sampler _ => "SamplerExec"
  | other name _ _ => name

def children : PlanNode proto α → List α
  | boundary node => node.stage.children
  | broadcast input _ | sampler input => [input]
  | childrenIsolatorUnion union _ => union.children
  | other _ _ children => children

def inputStage : PlanNode proto α → Option (InputStage proto α)
  | boundary node => some node.stage
  | _ => none

def mode : PlanNode proto α → Option ShuffleMode
  | boundary ⟨_, _, .shuffle exec, _⟩ => some exec.mode
  | _ => none

/-- The consumer tasks that a coalesce and a `BroadcastExec` keep. -/
def consumerTasks : PlanNode proto α → Option ℕ
  | boundary ⟨_, _, .coalesce exec, _⟩ => some exec.consumerTasks
  | broadcast _ consumerTaskCount => some consumerTaskCount
  | _ => none

def unionTasks : PlanNode proto α → Option UnionTasks
  | childrenIsolatorUnion union _ => some union.toUnionTasks
  | _ => none

def properties (ops : InputOps κ α) : PlanNode proto α → PlanProperties κ
  | boundary node => node.exec.properties
  | broadcast input consumerTaskCount =>
    (ops.properties input).withPartitioning
      (.unknownPartitioning ((ops.properties input).partitionCount * consumerTaskCount))
  | childrenIsolatorUnion union eqProperties =>
    ⟨eqProperties, .unknownPartitioning union.partitionCount⟩
  | sampler input => ops.properties input
  | other _ properties _ => properties

/-- `producer_head` of a boundary node. -/
def producerHead (scale : RangeScale κ) (self : PlanNode proto α) (consumerTaskCount : ℕ) :
    Option (Result (ProducerHead κ)) :=
  match self with
  | boundary ⟨_, _, .shuffle exec, _⟩ => some (exec.producerHead scale consumerTaskCount)
  | boundary ⟨_, _, .coalesce exec, _⟩ => some (exec.producerHead consumerTaskCount)
  | boundary ⟨_, _, .broadcast exec, _⟩ => some (exec.producerHead consumerTaskCount)
  | _ => none

def eqGroup (ops : InputOps κ α) (self : PlanNode proto α) : List (List PhysicalExpr) :=
  (self.properties ops).eqProperties.eqGroup

/-- The node `back` shows what the node `sent` showed, the equivalences aside. -/
structure Same (ops : InputOps κ α) (scale : RangeScale κ) (sent back : PlanNode proto α) :
    Prop where
  name : back.name = sent.name
  children : back.children = sent.children
  inputStage : back.inputStage = sent.inputStage
  mode : back.mode = sent.mode
  consumerTasks : back.consumerTasks = sent.consumerTasks
  unionTasks : back.unionTasks = sent.unionTasks
  partitioning : (back.properties ops).partitioning = (sent.properties ops).partitioning
  producerHead : ∀ consumerTaskCount,
    back.producerHead scale consumerTaskCount = sent.producerHead scale consumerTaskCount
  ordering : sent.mode.isSome →
    (back.properties ops).eqProperties.outputOrdering =
      (sent.properties ops).eqProperties.outputOrdering

end PlanNode

/-! ## The nodes that are sent -/

/-- The shuffles that the crate builds: over a stage, switched to two phases, attached to another
stage, and read from the wire. A stage that a two-phase shuffle is attached to has as many tasks
as the one before, and the orderings of DataFusion are never empty. -/
inductive ShuffleBuilt {κ : Type} : NetworkShuffleExec κ → Prop
  | fromStage (stage : Stage) {properties : PlanProperties κ} :
    (∀ ordering ∈ properties.eqProperties.orderings, ordering ≠ []) →
    ShuffleBuilt (.fromStage stage properties)
  | twoPhase {node : NetworkShuffleExec κ} (salt : ℕ) : ShuffleBuilt node →
    ShuffleBuilt { node.toTwoPhaseSalted with mode := .twoPhase salt }
  | attached {node : NetworkShuffleExec κ} {stage : Stage} : ShuffleBuilt node →
    (node.mode = .direct ∨ stage.taskCount = node.inputStage.taskCount) →
    ShuffleBuilt (node.withInputStage stage)
  | decoded (partitioning : Partitioning κ) {equivalenceProperties : EquivalenceProperties}
      (stage : Stage) (mode : ShuffleMode) :
    (∀ ordering ∈ equivalenceProperties.orderings, ordering ≠ []) →
    ShuffleBuilt (.newNetworkHashShuffleExec partitioning equivalenceProperties stage mode)

namespace ShuffleBuilt

variable {κ : Type} {node : NetworkShuffleExec κ}

/-- The advertised partitioning can be computed again from what is sent. -/
theorem partitioning_eq (h : ShuffleBuilt node) (eqProperties : EquivalenceProperties) :
    node.properties.partitioning = (NetworkShuffleExec.newNetworkHashShuffleExec
      node.producerPartitioning eqProperties node.inputStage
        node.mode).properties.partitioning := by
  induction h with
  | fromStage stage _ =>
    rw [NetworkShuffleExec.fromStage, NetworkShuffleExec.partitioning_computeProperties]
    rfl
  | twoPhase salt _ _ => rfl
  | @attached node stage _ hstage ih =>
    have hrange : node.properties.partitioning.isRange = false := by
      rw [ih]
      obtain ⟨properties, partitioning, inputStage, mode⟩ := node
      cases mode with
      | direct => cases partitioning <;> rfl
      | twoPhase salt => rfl
    rw [NetworkShuffleExec.partitioning_withInputStage stage hrange, ih]
    obtain ⟨properties, partitioning, inputStage, mode⟩ := node
    cases mode with
    | direct => rfl
    | twoPhase salt =>
      rcases hstage with hdirect | hcount
      · cases hdirect
      · show Partitioning.unknownPartitioning inputStage.taskCount = .unknownPartitioning _
        rw [← hcount]
        rfl
  | decoded partitioning stage mode _ => rfl

theorem orderings_ne_nil (h : ShuffleBuilt node) :
    ∀ ordering ∈ node.properties.eqProperties.orderings, ordering ≠ [] := by
  induction h with
  | fromStage stage horderings =>
    rw [NetworkShuffleExec.fromStage, NetworkShuffleExec.orderings_computeProperties]
    exact horderings
  | twoPhase salt _ ih => exact ih
  | attached _ _ ih =>
    rw [NetworkShuffleExec.withInputStage, NetworkShuffleExec.orderings_computeProperties]
    exact ih
  | decoded partitioning stage mode horderings => exact horderings

theorem outputOrdering_sent (h : ShuffleBuilt node) :
    node.sentEquivalences.outputOrdering = node.properties.eqProperties.outputOrdering := by
  have hne := h.orderings_ne_nil
  unfold NetworkShuffleExec.sentEquivalences EquivalenceProperties.outputOrdering
  cases horderings : node.properties.eqProperties.orderings with
  | nil => rfl
  | cons ordering rest =>
    rw [horderings] at hne
    have hflat : (ordering :: rest).flatten.isEmpty = false := by
      rw [List.isEmpty_eq_false_iff, Ne, List.flatten_eq_nil_iff]
      exact fun hempty => hne ordering List.mem_cons_self (hempty ordering List.mem_cons_self)
    simp only [hflat]
    show some ((ordering :: rest).flatten ++ []) = _
    rw [List.append_nil]
    rfl

end ShuffleBuilt

/-- The unions that the crate builds, with the equivalences they keep: from children and
annotations, with new children, specialised to one task, and read from the wire. The index tells
whether the last of these steps specialised the union. -/
inductive UnionBuilt {κ α : Type} (ops : InputOps κ α) :
    Bool → ChildrenIsolatorUnionExec α → EquivalenceProperties → Prop
  | fromChildren {children : List α} {anns : List TaskCountAnnotation} {tasks : ℕ}
      {union : ChildrenIsolatorUnionExec α} :
    ChildrenIsolatorUnionExec.fromChildrenAndAnnotations ops.toChildOps children anns tasks =
      .ok union →
    UnionBuilt ops false union (ops.unionEquivalences union.children)
  | withNewChildren {specialised : Bool} {union next : ChildrenIsolatorUnionExec α}
      {eqProperties : EquivalenceProperties} {children : List α} :
    UnionBuilt ops specialised union eqProperties →
    union.withNewChildren ops.toChildOps children = .ok next →
    UnionBuilt ops false next (ops.unionEquivalences next.children)
  | specialized {specialised : Bool} {union next : ChildrenIsolatorUnionExec α}
      {eqProperties : EquivalenceProperties} {taskI : ℕ} :
    UnionBuilt ops specialised union eqProperties →
    union.toTaskSpecialized ops.toChildOps taskI = .ok next →
    UnionBuilt ops true next eqProperties
  | decoded {specialised : Bool} {union : ChildrenIsolatorUnionExec α}
      {eqProperties : EquivalenceProperties} :
    UnionBuilt ops specialised union eqProperties →
    UnionBuilt ops false union (ops.unionEquivalences union.children)

/-- A placeholder has the schema of the child it stands for, so a `UnionExec` with it can be
built. -/
def InputOps.PlaceholdersFit {κ α : Type} (ops : InputOps κ α) : Prop :=
  ∀ children row, ops.unionTryNew children = .ok () →
    ops.unionTryNew
      (ChildrenIsolatorUnionExec.specializedChildren ops.toChildOps children row) = .ok ()

namespace UnionBuilt

variable {κ α : Type} {ops : InputOps κ α} {specialised : Bool}
  {union : ChildrenIsolatorUnionExec α} {eqProperties : EquivalenceProperties}

theorem unionTryNew_fromChildren {ops : ChildOps α} {children : List α}
    {anns : List TaskCountAnnotation} {tasks : ℕ}
    (h : ChildrenIsolatorUnionExec.fromChildrenAndAnnotations ops children anns tasks =
      .ok union) : ops.unionTryNew union.children = .ok () := by
  obtain ⟨-, h⟩ := ite_error_ok_iff.mp h
  obtain ⟨map, -, h⟩ := bind_ok_iff.mp h
  split at h
  · cases h
  · obtain ⟨_, hunion, h⟩ := bind_ok_iff.mp h
    cases h
    exact hunion

theorem unionTryNew (hfit : ops.PlaceholdersFit)
    (h : UnionBuilt ops specialised union eqProperties) :
    ops.unionTryNew union.children = .ok () := by
  induction h with
  | fromChildren hunion => exact unionTryNew_fromChildren hunion
  | withNewChildren _ hnext _ =>
    obtain ⟨-, hnext⟩ := ite_error_ok_iff.mp hnext
    exact unionTryNew_fromChildren hnext
  | specialized _ hnext ih =>
    unfold ChildrenIsolatorUnionExec.toTaskSpecialized at hnext
    split at hnext
    · cases hnext
    · cases hnext
      exact hfit _ _ ih
  | decoded _ ih => exact ih

theorem eqProperties_eq (h : UnionBuilt ops false union eqProperties) :
    eqProperties = ops.unionEquivalences union.children := by
  cases h <;> rfl

end UnionBuilt

/-- The nodes of this crate, as it builds them. -/
inductive PlanNode.Built {κ α : Type} {proto : DataFusionProto κ} (ops : InputOps κ α) :
    Bool → PlanNode proto α → Prop
  | shuffle {node : BoundaryNode proto α} {exec : NetworkShuffleExec κ} :
    node.exec = .shuffle exec → ShuffleBuilt exec → Built ops false (.boundary node)
  | coalesce {node : BoundaryNode proto α} {exec : NetworkCoalesceExec κ} :
    node.exec = .coalesce exec → Built ops false (.boundary node)
  | networkBroadcast {node : BoundaryNode proto α} {exec : NetworkBroadcastExec κ} :
    node.exec = .broadcast exec → Built ops false (.boundary node)
  | broadcast (input : α) (consumerTaskCount : ℕ) :
    Built ops false (.broadcast input consumerTaskCount)
  | union {specialised : Bool} {union : ChildrenIsolatorUnionExec α}
      {eqProperties : EquivalenceProperties} : UnionBuilt ops specialised union eqProperties →
    Built ops specialised (.childrenIsolatorUnion union eqProperties)
  | sampler (input : α) : Built ops false (.sampler input)

/-! ## Round trips -/

/-- The node that comes back for a boundary node, over the stage that came back. -/
def Boundary.arrived {κ : Type} (self : Boundary κ) (stage : Stage) : Boundary κ :=
  match self with
  | shuffle exec => shuffle (.newNetworkHashShuffleExec exec.producerPartitioning
      exec.sentEquivalences stage exec.mode)
  | coalesce exec => coalesce { exec with
      properties := ⟨{ eqGroup := exec.properties.eqProperties.eqGroup },
        exec.properties.partitioning⟩
      inputStage := stage }
  | broadcast exec => broadcast { exec with
      properties := ⟨{ eqGroup := exec.properties.eqProperties.eqGroup },
        exec.properties.partitioning⟩
      inputStage := stage }

def BoundaryNode.arrived {κ α : Type} {proto : DataFusionProto κ} (self : BoundaryNode proto α) :
    BoundaryNode proto α where
  schema := self.schema
  stage := self.stage
  exec := self.exec.arrived self.stage.toStage
  agrees := by cases self.exec <;> rfl

section roundTrip

variable {κ : Type} {proto : DataFusionProto κ} {α : Type}

theorem fields_roundTrip (h : proto.RoundTrips) (name : String) (schema : proto.Schema)
    (partitioning : Partitioning κ) (ordering : List PhysicalExpr)
    (classes : List (List PhysicalExpr)) (stage : InputStage proto α) :
    ∃ message nodes,
      ordering.mapM proto.serializePhysicalSortExpr = .ok nodes ∧
      encodeBoundary proto schema partitioning stage classes = .ok message ∧
      decodeBoundary proto name message nodes stage.children =
        .ok ⟨schema, partitioning, ordering, classes, stage⟩ := by
  obtain ⟨schemaNode, hschema, hschemaBack⟩ := h.schema schema
  obtain ⟨partitioningNode, hpartitioning, hpartitioningBack⟩ := h.partitioning schema partitioning
  obtain ⟨nodes, hnodes, hnodesBack⟩ :=
    (RoundTrip.mapM fun expr _ => h.sortExpr schema expr :
      RoundTrip _ (List.mapM (proto.parsePhysicalSortExpr schema)) ordering)
  obtain ⟨stageNode, hstage, hanchors, hstageBack⟩ := stage_roundTrip h schema stage
  obtain ⟨classNodes, hclasses, hclassesBack⟩ :=
    (RoundTrip.mapM fun exprs _ => RoundTrip.mapM fun expr _ => h.expr schema expr :
      RoundTrip (List.mapM fun exprs => exprs.mapM proto.physicalExprToProto)
        (List.mapM fun exprs => exprs.mapM (proto.protoToPhysicalExpr schema)) classes)
  refine ⟨⟨some schemaNode, some partitioningNode, some stageNode, classNodes⟩, nodes, hnodes,
    ?_, ?_⟩
  · simp only [encodeBoundary, serializeEquivalenceGroup, hschema, hpartitioning, hstage, hclasses]
    rfl
  · simp only [decodeBoundary, parseSchema, parsePartitioning, hschemaBack, hpartitioningBack,
      hnodesBack, hanchors, hclassesBack, hstageBack, ok_bind]
    rfl

/-- A boundary node comes back as the node that `sent` gives, with its schema and its stage. -/
theorem boundary_roundTrip (h : proto.RoundTrips) (ops : InputOps κ α)
    (node : BoundaryNode proto α) :
    ∃ message, tryEncode proto (.boundary node) = .ok message ∧
      tryDecode proto ops message node.stage.children = .ok (.boundary node.arrived) := by
  obtain ⟨schema, stage, exec, agrees⟩ := node
  cases exec with
  | shuffle exec =>
    obtain ⟨message, nodes, hnodes, hmessage, hback⟩ := fields_roundTrip h "NetworkShuffleExec"
      schema exec.encode.partitioning exec.encode.ordering exec.encode.equivalenceClasses stage
    refine ⟨⟨some (.networkHashShuffle message exec.encode.twoPhase exec.encode.salt nodes)⟩,
      ?_, ?_⟩
    · simp only [tryEncode, encodeBoundaryNode, hnodes, hmessage]
      rfl
    · simp only [tryDecode, decodeShuffle, hback, ok_bind, exec.mode_encode,
        exec.equivalences_encode]
      rfl
  | coalesce exec =>
    obtain ⟨message, nodes, hnodes, hmessage, hback⟩ := fields_roundTrip h "NetworkCoalesceExec"
      schema exec.encode.partitioning [] exec.encode.equivalenceClasses stage
    obtain rfl : [] = nodes := Except.ok.inj hnodes
    refine ⟨⟨some (.networkCoalesceTasks message exec.encode.consumerTasks)⟩, ?_, ?_⟩
    · simp only [tryEncode, encodeBoundaryNode, hmessage]
      rfl
    · simp only [tryDecode, decodeCoalesce, hback, exec.consumerTasks_encode]
      rfl
  | broadcast exec =>
    obtain ⟨message, nodes, hnodes, hmessage, hback⟩ := fields_roundTrip h "NetworkBroadcastExec"
      schema exec.encode.partitioning [] exec.encode.equivalenceClasses stage
    obtain rfl : [] = nodes := Except.ok.inj hnodes
    refine ⟨⟨some (.networkBroadcast message)⟩, ?_, ?_⟩
    · simp only [tryEncode, encodeBoundaryNode, hmessage]
      rfl
    · simp only [tryDecode, decodeBroadcast, hback]
      rfl

/-- A union comes back with its task map and annotations, and with the equivalences of its
children. -/
theorem union_roundTrip (proto : DataFusionProto κ) {ops : InputOps κ α}
    {union : ChildrenIsolatorUnionExec α} (htry : ops.unionTryNew union.children = .ok ())
    (eqProperties : EquivalenceProperties) :
    ∃ message, tryEncode proto (.childrenIsolatorUnion union eqProperties) = .ok message ∧
      tryDecode proto ops message union.children =
        .ok (.childrenIsolatorUnion union (ops.unionEquivalences union.children)) := by
  refine ⟨_, rfl, ?_⟩
  have hanns : (union.childAnnotations.map serializeTaskCountAnnotation).mapM
      parseTaskCountAnnotation = .ok union.childAnnotations := by
    rw [mapM_ok_iff, List.forall₂_map_left_iff, List.forall₂_same]
    exact fun value _ => parseTaskCountAnnotation_serialize value
  have hmap : (union.taskIdxMap.map (List.map ChildIdxWithTaskContextProto.ofTask)).map
      (List.map ChildIdxWithTaskContextProto.toTask) = union.taskIdxMap := by
    simp [Function.comp_def, ChildIdxWithTaskContextProto.ofTask,
      ChildIdxWithTaskContextProto.toTask]
  simp only [tryDecode, htry, hanns, hmap]
  rfl

/-- A boundary node that was built shows the same when it comes back, and the same classes. -/
theorem same_arrived {ops : InputOps κ α} (scale : RangeScale κ) {node : BoundaryNode proto α}
    {specialised : Bool} (h : PlanNode.Built ops specialised (.boundary node)) :
    PlanNode.Same ops scale (.boundary node) (.boundary node.arrived) ∧
      PlanNode.eqGroup ops (.boundary node.arrived) = PlanNode.eqGroup ops (.boundary node) := by
  obtain ⟨schema, stage, exec, agrees⟩ := node
  cases h with
  | @shuffle _ exec hexec hbuilt =>
    subst hexec
    have hpartitioning := hbuilt.partitioning_eq exec.sentEquivalences
    have hordering := hbuilt.outputOrdering_sent
    have hstage : exec.inputStage = stage.toStage := agrees
    rw [hstage] at hpartitioning
    refine ⟨⟨rfl, rfl, rfl, rfl, rfl, rfl, hpartitioning.symm, ?_, fun _ => hordering⟩, rfl⟩
    intro consumerTaskCount
    show some (NetworkShuffleExec.producerHead scale _ consumerTaskCount) = some _
    unfold NetworkShuffleExec.producerHead
    rw [← hordering]
    rfl
  | coalesce hexec | networkBroadcast hexec =>
    subst hexec
    refine ⟨⟨rfl, rfl, rfl, rfl, rfl, rfl, rfl, fun _ => rfl, ?_⟩, rfl⟩
    intro hmode
    cases hmode

theorem partitioning_arrived_twoPhase {ops : InputOps κ α} {node : BoundaryNode proto α} {salt : ℕ}
    (h : PlanNode.mode (.boundary node.arrived) = some (.twoPhase salt)) :
    (PlanNode.properties ops (.boundary node.arrived)).partitioning =
      .unknownPartitioning node.stage.toStage.taskCount := by
  obtain ⟨schema, stage, exec, agrees⟩ := node
  cases exec with
  | shuffle exec =>
    obtain ⟨properties, partitioning, inputStage, mode⟩ := exec
    cases h
    rfl
  | coalesce exec | broadcast exec => cases h

end roundTrip

/-- Every node that the crate builds comes back from the wire with the same stage, mode, advertised
partitioning, producer heads, task map and annotations, and a shuffle with the same ordering. The
equivalences are the same too, unless the node is a union that was specialised to a task: a union
comes back with the equivalences that a `UnionExec` has over the children that were sent. -/
theorem plan_node_roundTrip {κ α : Type} {proto : DataFusionProto κ} (hproto : proto.RoundTrips)
    {ops : InputOps κ α} (hfit : ops.PlaceholdersFit) (scale : RangeScale κ) {specialised : Bool}
    {node : PlanNode proto α} (hbuilt : node.Built ops specialised) :
    ∃ message back, tryEncode proto node = .ok message ∧
      tryDecode proto ops message node.children = .ok back ∧
      node.Same ops scale back ∧
      (specialised = false → back.eqGroup ops = node.eqGroup ops) ∧
      (∀ union eqProperties, node = .childrenIsolatorUnion union eqProperties →
        back = .childrenIsolatorUnion union (ops.unionEquivalences union.children)) ∧
      ∀ salt stage, back.mode = some (.twoPhase salt) → back.inputStage = some stage →
        (back.properties ops).partitioning = .unknownPartitioning stage.toStage.taskCount := by
  cases node with
  | boundary node =>
    obtain ⟨message, hmessage, hback⟩ := boundary_roundTrip hproto ops node
    obtain ⟨hsame, hgroup⟩ := same_arrived scale hbuilt
    refine ⟨message, _, hmessage, hback, hsame, fun _ => hgroup, ?_, ?_⟩
    · intro union eqProperties h
      cases h
    · intro salt stage hmode hstage
      cases hstage
      exact partitioning_arrived_twoPhase hmode
  | broadcast input consumerTaskCount | sampler input =>
    refine ⟨_, _, rfl, rfl, ⟨rfl, rfl, rfl, rfl, rfl, rfl, rfl, fun _ => rfl, fun _ => rfl⟩,
      fun _ => rfl, ?_, ?_⟩
    · intro union eqProperties h
      cases h
    · intro salt stage hmode
      cases hmode
  | childrenIsolatorUnion union eqProperties =>
    cases hbuilt with
    | union hunion =>
      obtain ⟨message, hmessage, hback⟩ :=
        union_roundTrip proto (hunion.unionTryNew hfit) eqProperties
      refine ⟨message, _, hmessage, hback,
        ⟨rfl, rfl, rfl, rfl, rfl, rfl, rfl, fun _ => rfl, ?_⟩, ?_, ?_, ?_⟩
      · intro hmode
        cases hmode
      · intro hspecialised
        subst hspecialised
        rw [hunion.eqProperties_eq]
      · intro union eqProperties h
        cases h
        rfl
      · intro salt stage hmode
        cases hmode
  | other name properties children => cases hbuilt

/-! ## A union whose children agree on an equality -/

/-- DataFusion's messages, sent as they are. -/
def plainProto : DataFusionProto ℕ where
  Schema := List String
  SchemaNode := List String
  ExprNode := PhysicalExpr
  SortExprNode := PhysicalExpr
  PartitioningNode := Partitioning ℕ
  Url := String
  schemaToProto := .ok
  schemaFromProto := .ok
  physicalExprToProto := .ok
  protoToPhysicalExpr := fun _ => .ok
  serializePhysicalSortExpr := .ok
  parsePhysicalSortExpr := fun _ => .ok
  serializePartitioning := .ok
  parseProtobufPartitioning := fun _ => .ok
  urlToString := id
  urlParse := some

theorem plainProto_roundTrips : plainProto.RoundTrips where
  schema := fun schema => ⟨schema, rfl, rfl⟩
  expr := fun _ expr => ⟨expr, rfl, rfl⟩
  sortExpr := fun _ expr => ⟨expr, rfl, rfl⟩
  partitioning := fun _ partitioning => ⟨partitioning, rfl, rfl⟩
  url := fun _ => rfl

/-- A scan below a filter: its partitions, and the equalities that the filter gives. -/
structure FilteredScan where
  partitions : ℕ
  classes : List (List PhysicalExpr)
  deriving DecidableEq, Repr

/-- A union knows the equalities that all of its children have, and a placeholder has none. -/
def filteredScans : InputOps ℕ FilteredScan where
  partitionCount := FilteredScan.partitions
  unionTryNew := fun _ => .ok ()
  emptyExec := fun scan => { scan with classes := [] }
  properties := fun scan => ⟨{ eqGroup := scan.classes }, .unknownPartitioning scan.partitions⟩
  unionEquivalences := fun children =>
    { eqGroup := (children.head?.elim [] FilteredScan.classes).filter fun exprs =>
        children.all fun child => child.classes.contains exprs }

def nilUuid : Uuid := ⟨List.replicate 16 0, rfl⟩

/-- A stage of two workers that keeps the anchor of one filter. -/
def twoWorkers : RemoteStage plainProto :=
  ⟨nilUuid, 3, ["http://a:50051", "http://b:50051"], [.expr 9]⟩

/-- A hash shuffle in two phases, with a salt of its own, whose input is sorted. -/
def sortedShuffle : NetworkShuffleExec ℕ :=
  { NetworkShuffleExec.toTwoPhaseSalted (.fromStage (.remoteStage 3 2)
      ⟨⟨[[.expr 0], [.expr 1]], [], [[.expr 0, .expr 2]]⟩, .hash [.expr 0] 4⟩) with
    mode := .twoPhase 7 }

theorem sortedShuffle_built : ShuffleBuilt sortedShuffle := by
  apply ShuffleBuilt.twoPhase 7
  apply ShuffleBuilt.fromStage
  decide

def sortedShuffleNode : BoundaryNode plainProto FilteredScan :=
  ⟨["a", "b", "c"], .remoteStage twoWorkers, .shuffle sortedShuffle, rfl⟩

/-- The shuffle comes back with its URLs and its anchor, its salt, its ordering and its class, and
reads one partition from each of the two workers. -/
theorem sorted_shuffle_comes_back :
    ∃ message back, tryEncode plainProto (.boundary sortedShuffleNode) = .ok message ∧
      tryDecode plainProto filteredScans message [] = .ok back ∧
      back.inputStage = some (.remoteStage twoWorkers) ∧ back.mode = some (.twoPhase 7) ∧
      (back.properties filteredScans).partitioning = .unknownPartitioning 2 ∧
      (back.properties filteredScans).eqProperties.outputOrdering = some [.expr 0, .expr 1] ∧
      back.eqGroup filteredScans = [[.expr 0, .expr 2]] := by
  have hbuilt : (.boundary sortedShuffleNode : PlanNode plainProto FilteredScan).Built
      filteredScans false :=
    .shuffle rfl sortedShuffle_built
  obtain ⟨message, back, hmessage, hback, hsame, hgroup, -, -⟩ := plan_node_roundTrip
    plainProto_roundTrips (fun _ _ _ => rfl) (fun range _ => .ok range) hbuilt
  exact ⟨message, back, hmessage, hback, hsame.inputStage, hsame.mode, hsame.partitioning,
    hsame.ordering rfl, hgroup rfl⟩

/-- Two scans that are both filtered by `a = 5 AND b = 5`, over two tasks. -/
def filteredUnion : ChildrenIsolatorUnionExec FilteredScan where
  partitionCount := 1
  childAnnotations := [.ofSoft 1, .ofSoft 1]
  taskIdxMap := [[(0, ⟨0, 1⟩)], [(1, ⟨0, 1⟩)]]
  children := [⟨1, [[.expr 0, .expr 1]]⟩, ⟨1, [[.expr 0, .expr 1]]⟩]

theorem filteredUnion_built :
    UnionBuilt filteredScans false filteredUnion ⟨[], [], [[.expr 0, .expr 1]]⟩ := by
  have h : ChildrenIsolatorUnionExec.fromChildrenAndAnnotations filteredScans.toChildOps
      filteredUnion.children filteredUnion.childAnnotations 2 = .ok filteredUnion := by
    decide +kernel
  exact .fromChildren h

/-- The plan of the first task: the second scan is a placeholder. -/
def firstTaskUnion : ChildrenIsolatorUnionExec FilteredScan :=
  { filteredUnion with
    children := [⟨1, [[.expr 0, .expr 1]]⟩, ⟨1, []⟩] }

theorem firstTaskUnion_built :
    UnionBuilt filteredScans true firstTaskUnion ⟨[], [], [[.expr 0, .expr 1]]⟩ := by
  have h : filteredUnion.toTaskSpecialized filteredScans.toChildOps 0 = .ok firstTaskUnion := by
    decide +kernel
  exact .specialized filteredUnion_built h

/-- The equality that the union of the first task advertises is lost on the wire. -/
theorem specialised_union_loses_class :
    (.childrenIsolatorUnion firstTaskUnion ⟨[], [], [[.expr 0, .expr 1]]⟩ :
        PlanNode plainProto FilteredScan).Built filteredScans true ∧
      ¬ ∃ message back,
        tryEncode plainProto
          (.childrenIsolatorUnion firstTaskUnion ⟨[], [], [[.expr 0, .expr 1]]⟩) = .ok message ∧
        tryDecode plainProto filteredScans message firstTaskUnion.children = .ok back ∧
        back.eqGroup filteredScans = [[.expr 0, .expr 1]] := by
  refine ⟨.union firstTaskUnion_built, ?_⟩
  rintro ⟨message, back, hmessage, hback, hgroup⟩
  have htry : filteredScans.unionTryNew firstTaskUnion.children = .ok () := rfl
  obtain ⟨sent, hsent, hsentBack⟩ := union_roundTrip plainProto htry ⟨[], [], [[.expr 0, .expr 1]]⟩
  obtain rfl := Except.ok.inj (hsent.symm.trans hmessage)
  obtain rfl := Except.ok.inj (hsentBack.symm.trans hback)
  revert hgroup
  decide

end DatafusionDistributed
