import DatafusionDistributed.DistributedPlanner.NetworkBoundary
import DatafusionDistributed.Recursion

/-!
# `inject_network_boundaries`

The pass that divides a plan into stages. It climbs the plan and reconciles the task counts that
leaves and other nodes ask for. Where a stage ends it closes the stage: the reconciled task count
is propagated down to the leaves and the unions of the stage, and a boundary is put on top. The
boundary builder decides with which task count the climb goes on. When the root is reached the
head stage is closed in the same way.
-/

namespace DatafusionDistributed

open Library

variable {κ : Type}

/-- The options of `DistributedConfig` that the planner reads. -/
structure DistributedConfig where
  broadcastJoins : Bool := true
  childrenIsolatorUnions : Bool := true
  maxTasksPerStage : ℕ := 0
  cardinalityTaskCountFactor : ℚ := 1
  twoStepShuffleFanoutThreshold : ℕ := 128
  dynamicBytesPerPartition : ℕ := 16 * 1024 * 1024
  deriving DecidableEq, Repr

/-- The session: options, number of workers, and the event handlers. A desired task count may be
given for any node. A scaled up leaf is again a leaf. -/
structure Session (κ : Type) where
  config : DistributedConfig
  targetPartitions : ℕ
  workerUrls : Result ℕ
  desiredTaskCount : Plan κ → Option (Result TaskCountAnnotation)
  scaleUpLeafNode : Plan κ → ℕ → Option (Result ℕ)

/-- A session with four workers in which only leaves ask for tasks, with an estimate each. -/
def Session.ofEstimates (config : DistributedConfig) (soft : ℕ → ℚ) : Session κ where
  config
  targetPartitions := 2
  workerUrls := .ok 4
  desiredTaskCount plan :=
    match plan with
    | .node (.other op) _ [] => some (.ok (.ofSoft (soft op)))
    | _ => none
  scaleUpLeafNode _ _ := none

def Session.maxTasks (self : Session κ) : Result ℕ :=
  match self.config.maxTasksPerStage with
  | 0 => do
    let urls ← self.workerUrls
    return max urls 1
  | v => .ok v

/-- `task_count`: the task count recorded for a node. -/
def Plan.recordedTaskCount (plan : Plan κ) : Result TaskCountAnnotation :=
  match plan.taskCount with
  | some taskCount => .ok taskCount
  | none =>
    .error (.plan (s!"Missing task count for node {plan.kind.name}. " ++
      "This is a bug in Distributed DataFusion's planner, please report it."))

/-! ## Propagation -/

/-- A leaf of a stage that runs in `taskCount` tasks. -/
def propagateLeaf (session : Session κ) (plan : Plan κ) (taskCount : TaskCountAnnotation) :
    Result (Plan κ) :=
  match session.scaleUpLeafNode plan taskCount.asUsize with
  | none => .ok (plan.withTaskCount taskCount)
  | some response => do
    let op ← response
    return .node (.other op) (some taskCount) []

/-- A boundary below a stage that runs in `taskCount` tasks: a hash shuffle with a large fan-out
is switched to two phases. -/
def propagateBoundary (session : Session κ) (df : DataFusion κ) (plan : Plan κ)
    (taskCount : TaskCountAnnotation) : Result (Plan κ) :=
  match plan.kind with
  | .networkShuffle shuffle =>
    if shuffle.needsTwoPhase session.config.twoStepShuffleFanoutThreshold taskCount.asUsize then do
      let twoPhaseShuffle :=
        Plan.node (.networkShuffle shuffle.toTwoPhaseSalted) (some taskCount) plan.children
      let consumerRepartition ←
        twoPhaseShuffle.repartitionTryNew df shuffle.producerPartitioning true
      return consumerRepartition.withTaskCount taskCount
    else .ok (plan.withTaskCount taskCount)
  | _ => .ok (plan.withTaskCount taskCount)

mutual

/-- `propagate_task_count_until_network_boundaries`. -/
def propagate (session : Session κ) (df : DataFusion κ) :
    Plan κ → TaskCountAnnotation → Result (Plan κ)
  | .node kind recorded children, taskCount =>
    let plan := Plan.node kind recorded children
    if children.isEmpty && !kind.isNetworkBoundary then propagateLeaf session plan taskCount
    else if kind.isNetworkBoundary then propagateBoundary session df plan taskCount
    else
      match kind with
      | .childrenIsolatorUnion _ => do
        let childAnnotations ← children.mapM Plan.recordedTaskCount
        let union ← ChildrenIsolatorUnionExec.fromChildrenAndAnnotations (Plan.childOps df)
          children childAnnotations taskCount.asUsize
        let newChildren ← propagateUnion session df children union.childTaskCounts taskCount.soft
        let plan ←
          (Plan.node (.childrenIsolatorUnion union.toUnionTasks) none children).replaceChildren
          df newChildren
        return plan.withTaskCount taskCount
      | _ => do
        let newChildren ← propagateAll session df children taskCount
        let plan ← plan.replaceChildren df newChildren
        return plan.withTaskCount taskCount

/-- All children of a node that passes its task count on. -/
def propagateAll (session : Session κ) (df : DataFusion κ) :
    List (Plan κ) → TaskCountAnnotation → Result (List (Plan κ))
  | [], _ => .ok []
  | child :: children, taskCount => do
    let newChild ← propagate session df child taskCount
    let newChildren ← propagateAll session df children taskCount
    return newChild :: newChildren

/-- The children of a union, each with its own task count. -/
def propagateUnion (session : Session κ) (df : DataFusion κ) :
    List (Plan κ) → List ℕ → ℚ → Result (List (Plan κ))
  | child :: children, childTaskCount :: counts, soft =>
    if h : 0 < childTaskCount then do
      let newChild ← propagate session df child
        (.ofExact ⟨childTaskCount, h⟩ soft)
      let newChildren ← propagateUnion session df children counts soft
      return newChild :: newChildren
    else .error (.internal "Child task allocation cannot be zero")
  | _, _, _ => .ok []

end

/-! ## Boundary builders -/

/-- The boundary that ends a stage. -/
inductive BoundaryKind where
  | shuffle
  | broadcast
  | coalesce
  deriving DecidableEq, Repr

/-- `NetworkBoundaryBuilderResult`. The plan of a local input stage is given as the children of
the boundary. -/
structure BuilderResult (κ : Type) where
  consumerTaskCount : TaskCountAnnotation
  inputStage : Stage
  children : List (Plan κ)
  inputProperties : PlanProperties κ

/-- A boundary builder gets the plan of the stage with its recorded task count, the number of
tasks and the kind of the boundary. -/
abbrev Builder (κ : Type) := Plan κ → ℕ → BoundaryKind → Result (BuilderResult κ)

mutual

/-- `calculate_scale_factor`. -/
def scaleFactor (df : DataFusion κ) (factor : ℚ) : Plan κ → ℚ
  | .node kind _ children =>
    if kind.isNetworkBoundary then 1
    else
      let sf := (scaleFactorAll df factor children).getD 1
      match df.cardinalityEffect kind with
      | .lowerEqual => sf / factor
      | .greaterEqual => sf * factor
      | _ => sf

/-- The largest factor of the children. -/
def scaleFactorAll (df : DataFusion κ) (factor : ℚ) : List (Plan κ) → Option ℚ
  | [] => none
  | child :: children =>
    match scaleFactorAll df factor children with
    | none => some (scaleFactor df factor child)
    | some sf => some (max (scaleFactor df factor child) sf)

end

/-- `CardinalityBasedNetworkBoundaryBuilder`. -/
def cardinalityBasedBuilder (session : Session κ) (df : DataFusion κ) : Builder κ :=
  fun plan tasks kind => do
    let tc ← plan.recordedTaskCount
    let plan ← propagate session df plan tc
    let result (consumerTaskCount : TaskCountAnnotation) : BuilderResult κ :=
      { consumerTaskCount
        inputStage := .localStage 0 tasks
        children := [plan]
        inputProperties := plan.properties df }
    match kind with
    | .coalesce => return result (.ofExact 1 tc.soft)
    | _ =>
      let f := scaleFactor df session.config.cardinalityTaskCountFactor plan
      return result (.ofSoft (min tc.soft tasks * f))

/-! ## Injection -/

/-- The task counts of the children merged into `taskCount`, one after the other. -/
def mergeChildren (taskCount : TaskCountAnnotation) (processedChildren : List (Plan κ)) :
    Result TaskCountAnnotation :=
  processedChildren.foldlM
    (fun taskCount child => do
      let childCount ← child.recordedTaskCount
      taskCount.merge childCount)
    taskCount

/-- The load a child adds to a union, capped by its own limits. -/
def childLoad (childCount : TaskCountAnnotation) : ℚ :=
  match childCount.restriction with
  | .exact count => min childCount.soft (count : ℕ)
  | _ =>
    match childCount.getMax with
    | some m => min childCount.soft (m : ℕ)
    | none => childCount.soft

/-- The task count of a union: the loads are summed, and the largest minimum is kept. -/
def unionTaskCount (childCounts : List TaskCountAnnotation) : TaskCountAnnotation :=
  let load := (childCounts.map childLoad).sum
  let min := childCounts.foldl
    (fun (min : Option ℕ+) childCount =>
      match childCount.getMin with
      | some count => some (match min with
        | some current => max current count
        | none => count)
      | none => min)
    none
  match min with
  | some value => TaskCountAnnotation.ofMin value load
  | none => TaskCountAnnotation.ofSoft load

/-- Whether a join collects its build side in a way that cannot be broadcast. -/
def collectsInOneTask (broadcastJoins : Bool) : NodeKind κ → Bool
  | .hashJoin join =>
    join.mode = .collectLeft &&
      (!broadcastJoins || join.nullAware || !join.joinType.isLeftBroadcastSafe)
  | .nestedLoopJoin joinType =>
    !broadcastJoins || joinType = .full || !joinType.isLeftBroadcastSafe
  | .crossJoin => !broadcastJoins
  | _ => false

/-- The task count the event handlers ask for, or the given one. -/
def desiredOr (session : Session κ) (plan : Plan κ) (fallback : TaskCountAnnotation) :
    Result TaskCountAnnotation :=
  match session.desiredTaskCount plan with
  | some response => response
  | none => .ok fallback

/-- The task count of a node, reconciled with those of its processed children. -/
def reconcile (session : Session κ) (plan : Plan κ) (processedChildren : List (Plan κ)) :
    Result TaskCountAnnotation :=
  if plan.children.isEmpty then
    desiredOr session plan (.ofExact 1 0)
  else
    match plan.kind with
    | .childrenIsolatorUnion _ => do
      let childCounts ← processedChildren.mapM Plan.recordedTaskCount
      return unionTaskCount childCounts
    | kind =>
      if collectsInOneTask session.config.broadcastJoins kind then
        mergeChildren (.ofExact 1 0) processedChildren
      else do
        let taskCount ← desiredOr session plan (.ofSoft 0)
        mergeChildren taskCount processedChildren

/-- The reconciled task count must fit the largest number of tasks, which also caps the
estimate. -/
def capTaskCount (maxTasks : ℕ) (taskCount : TaskCountAnnotation) :
    Result TaskCountAnnotation :=
  let capped : TaskCountAnnotation := { taskCount with soft := min taskCount.soft maxTasks }
  match taskCount.getMin with
  | some min =>
    if maxTasks < min then
      .error (.plan (s!"Cannot assign a required task count of {min.val}, " ++
        s!"the max task slots available are {maxTasks}"))
    else .ok capped
  | none => .ok capped

/-- Whether a `RepartitionExec` with this partitioning ends a stage. -/
def Partitioning.isShuffled : Partitioning κ → Bool
  | .hash _ _ | .range _ => true
  | _ => false

/-- The boundary over a hash or range repartition. -/
def placeShuffle (builder : Builder κ) (plan : Plan κ) (partitioning : Partitioning κ)
    (taskCount : TaskCountAnnotation) : Result (Plan κ) := do
  let result ← builder (plan.withTaskCount taskCount) taskCount.asUsize .shuffle
  let inputProperties := result.inputProperties.withPartitioning partitioning
  let shuffle := NetworkShuffleExec.fromStage result.inputStage inputProperties
  return .node (.networkShuffle shuffle) (some result.consumerTaskCount) result.children

def placeBroadcast (builder : Builder κ) (plan : Plan κ) (taskCount : TaskCountAnnotation) :
    Result (Plan κ) := do
  let result ← builder (plan.withTaskCount taskCount) taskCount.asUsize .broadcast
  let nb := NetworkBroadcastExec.fromStage result.inputStage result.inputProperties
  return .node (.networkBroadcast nb) (some result.consumerTaskCount) result.children

/-- The boundary below a fold: the stage above it must run in one task. -/
def placeCoalesce (builder : Builder κ) (plan : Plan κ) (taskCount : TaskCountAnnotation) :
    Result (Plan κ) := do
  let result ← builder (plan.withTaskCount taskCount) taskCount.asUsize .coalesce
  if result.consumerTaskCount.restriction ≠ .exact 1 then
    .error (.plan "A NetworkCoalesceExec must return an exact task count of 1")
  else
    let nb ← NetworkCoalesceExec.tryFromStage result.inputStage result.inputProperties 1
    return .node (.networkCoalesce nb) (some result.consumerTaskCount) result.children

/-- The end of the visit of a node: it ends a stage, or is the root, or just records its task
count. -/
def placeNode (session : Session κ) (df : DataFusion κ) (builder : Builder κ)
    (parent : Option (NodeKind κ)) (plan : Plan κ) (taskCount : TaskCountAnnotation) :
    Result (Plan κ) :=
  match plan.kind, parent with
  | .repartition partitioning _, parent =>
    if partitioning.isShuffled then placeShuffle builder plan partitioning taskCount
    else
      match parent with
      | some parent =>
        if parent.isFold then placeCoalesce builder plan taskCount
        else .ok (plan.withTaskCount taskCount)
      | none => propagate session df plan taskCount
  | .broadcast _, _ => placeBroadcast builder plan taskCount
  | _, some parent =>
    if parent.isFold then placeCoalesce builder plan taskCount
    else .ok (plan.withTaskCount taskCount)
  | _, none => propagate session df plan taskCount

/-- A node whose children have been visited, with its reconciled task count, before it is decided
whether its stage ends here. -/
def openNode (session : Session κ) (df : DataFusion κ) (plan : Plan κ)
    (processedChildren : List (Plan κ)) : Result (Plan κ × TaskCountAnnotation) := do
  let taskCount ← reconcile session plan processedChildren
  let plan ← plan.replaceChildren df processedChildren
  let maxTasks ← session.maxTasks
  let taskCount ← capTaskCount maxTasks taskCount
  return (plan, taskCount)

mutual

/-- `_inject_network_boundaries`. -/
def injectFrom (session : Session κ) (df : DataFusion κ) (builder : Builder κ)
    (parent : Option (NodeKind κ)) : Plan κ → Result (Plan κ)
  | .node kind taskCount children => do
    let processedChildren ← injectAll session df builder kind children
    let (plan, taskCount) ← openNode session df (.node kind taskCount children) processedChildren
    placeNode session df builder parent plan taskCount

def injectAll (session : Session κ) (df : DataFusion κ) (builder : Builder κ)
    (parent : NodeKind κ) : List (Plan κ) → Result (List (Plan κ))
  | [] => .ok []
  | child :: children => do
    let processed ← injectFrom session df builder (some parent) child
    let processedChildren ← injectAll session df builder parent children
    return processed :: processedChildren

end

/-- The root of the plan with its reconciled task count, right before the head stage is closed. -/
def openHead (session : Session κ) (df : DataFusion κ) (builder : Builder κ) (plan : Plan κ) :
    Result (Plan κ × TaskCountAnnotation) := do
  let processedChildren ← injectAll session df builder plan.kind plan.children
  openNode session df plan processedChildren

def injectNetworkBoundaries (session : Session κ) (df : DataFusion κ) (builder : Builder κ)
    (plan : Plan κ) : Result (Plan κ) :=
  injectFrom session df builder none plan

end DatafusionDistributed
