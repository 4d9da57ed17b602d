import DatafusionDistributed.DynamicFiltering.Discovery
import DatafusionDistributed.Library.History
import DatafusionDistributed.Library.Transition

/-!
# The registry of dynamic filters

`DynamicFilterRegistry`, the hub of a query: tasks register the filters they produce and consume,
producers report, and the merged filter goes to the consumers. Every call runs under one mutex.

The sets are lists, whose order means nothing. The maps and sets of the registry are iterated in an
order of their own, the query may end and receivers may go away at any moment; all this is the
environment of a call. What happens is logged, the latest first: the messages that are sent, and the
changes of the state.
-/

namespace DatafusionDistributed

open Library

/-- `TaskKey`. The registry belongs to one query, whose identifier is left out. -/
structure TaskKey where
  stageId : ℕ
  taskNumber : ℕ
  deriving DecidableEq, Repr

namespace TaskKey

def debug (self : TaskKey) : String :=
  s!"TaskKey \x7b stage_id: {self.stageId}, task_number: {self.taskNumber} \x7d"

/-- The order of the stage identifiers, then of the task numbers. -/
def le (a b : TaskKey) : Prop :=
  a.stageId < b.stageId ∨ a.stageId = b.stageId ∧ a.taskNumber ≤ b.taskNumber

instance : DecidableRel le := fun a b => by
  unfold le
  infer_instance

end TaskKey

inductive DynamicFilterMergePolicy where
  | unionWhenAllComplete
  | forwardFirstComplete
  | intersectOnUpdate
  deriving DecidableEq, Repr

def DynamicFilterMergePolicy.debug : DynamicFilterMergePolicy → String
  | unionWhenAllComplete => "UnionWhenAllComplete"
  | forwardFirstComplete => "ForwardFirstComplete"
  | intersectOnUpdate => "IntersectOnUpdate"

/-- `PhysicalExprNode`: the encoded expressions, with the node that joins several of them. -/
class PhysicalExprNodes (ε : Type) where
  binaryExpr : (op : String) → (operands : List ε) → ε

structure PhysicalDynamicFilterNode (ε : Type) where
  children : List ε
  generation : ℕ
  innerExpr : Option ε
  isComplete : Bool
  deriving DecidableEq

/-- An encoded dynamic filter with its identifier: what `merged_bytes` decodes to. -/
structure EncodedDynamicFilter (ε : Type) where
  exprId : ℕ
  filter : PhysicalDynamicFilterNode ε
  deriving DecidableEq

structure PlannedDynamicFilter (ε S : Type) where
  producers : HashMap TaskKey (Option (PhysicalDynamicFilterNode ε)) := ∅
  consumerTasks : List TaskKey := []
  mergeMode : Option DynamicFilterMergePolicy := none
  producerSchema : Option S := none
  merged : Option (PhysicalDynamicFilterNode ε) := none
  mergedBytes : Option (EncodedDynamicFilter ε) := none

structure ApplyDynamicFilter (ε S : Type) where
  expressionId : ℕ
  expression : EncodedDynamicFilter ε
  producerSchema : S
  deriving DecidableEq

/-- An expression as a worker reports it. -/
structure ReportedExpr (ε : Type) where
  exprId : Option ℕ
  dynamicFilter : Option (PhysicalDynamicFilterNode ε)

/-- `ProducedDynamicFilter`; encoding the expression may fail. -/
structure ProducedDynamicFilter (ε : Type) where
  expressionId : ℕ
  expression : Result (ReportedExpr ε)

/-- What has happened. -/
inductive RegistryEvent (ε S : Type) where
  /-- `register_task` was called for a task that produces these filters. -/
  | registering (task : TaskKey) (produced : List ℕ)
  | producer (id : ℕ) (task : TaskKey) (mode : DynamicFilterMergePolicy)
  | consumer (id : ℕ) (task : TaskKey)
  | sender (task : TaskKey) (sender : ℕ)
  | sealed (stage : ℕ)
  /-- A registered producer has sent a report, whether it is kept or not. -/
  | reported (id : ℕ) (task : TaskKey) (report : PhysicalDynamicFilterNode ε)
  | merged (id : ℕ) (node : PhysicalDynamicFilterNode ε)
  | sent (sender : ℕ) (task : TaskKey) (update : ApplyDynamicFilter ε S)
  deriving DecidableEq

/-- `DynamicFilterRegistryState`, and the history of the calls. -/
structure DynamicFilterRegistry (ε S : Type) where
  filters : HashMap ℕ (PlannedDynamicFilter ε S)
  sealedStages : List ℕ
  taskSenders : HashMap TaskKey ℕ
  delivered : List (ℕ × TaskKey)
  history : List (RegistryEvent ε S)

/-- What a call finds around it. -/
structure CallEnv where
  /-- The order in which `filters` is iterated. -/
  ids : List ℕ
  /-- The order in which the consumers of a filter are iterated. -/
  consumers : ℕ → List TaskKey
  /-- Whether the query has finished when a filter is dispatched. -/
  finished : ℕ → Bool
  /-- Whether the receiver of a sender is gone when a filter is dispatched. -/
  closed : ℕ → ℕ → Bool
  /-- Whether the query has finished by the time such a send has failed. -/
  finishedAtFailure : ℕ → Bool

def mergePredicates {ε : Type} [PhysicalExprNodes ε] (predicates : List ε)
    (mode : DynamicFilterMergePolicy) : Option ε :=
  match predicates with
  | [] => none
  | [predicate] => some predicate
  | _ => some (PhysicalExprNodes.binaryExpr
      (if mode = .intersectOnUpdate then "And" else "Or") predicates)

namespace PlannedDynamicFilter

variable {ε S : Type}

/-- All producers have reported for the last time, and none can come any more. -/
def allComplete (self : PlannedDynamicFilter ε S) (sealedStages : List ℕ) : Bool :=
  !self.producers.entries.isEmpty && self.producers.entries.all fun entry =>
    decide (entry.1.stageId ∈ sealedStages) && entry.2.any fun report => report.isComplete

/-- The reports, in the order of their tasks. -/
def reports (self : PlannedDynamicFilter ε S) : List (TaskKey × PhysicalDynamicFilterNode ε) :=
  (self.producers.entries.filterMap fun entry =>
    entry.2.map fun report => (entry.1, report)).insertionSort fun a b => a.1.le b.1

def mergedReports (self : PlannedDynamicFilter ε S) (mode : DynamicFilterMergePolicy) :
    List (TaskKey × PhysicalDynamicFilterNode ε) :=
  if mode = .forwardFirstComplete then self.reports.take 1 else self.reports

/-- `merge` of one filter: the new merged filter, if it has changed. -/
def mergeReports [PhysicalExprNodes ε] [DecidableEq ε] (self : PlannedDynamicFilter ε S)
    (sealedStages : List ℕ) : Option (PhysicalDynamicFilterNode ε) :=
  if self.merged.any fun previous => previous.isComplete then none
  else match self.mergeMode with
    | none => none
    | some mode =>
      let allComplete := self.allComplete sealedStages
      if mode = .unionWhenAllComplete ∧ allComplete = false then none
      else
        match self.mergedReports mode with
        | [] => none
        | (_, template) :: _ =>
          let innerExpr := mergePredicates
            ((self.mergedReports mode).filterMap fun entry => entry.2.innerExpr) mode
          let isComplete := decide (mode = .forwardFirstComplete) || allComplete
          if self.merged.any fun previous =>
              decide (previous.innerExpr = innerExpr) && previous.isComplete == isComplete then none
          else
            let generation := self.merged.elim 0 fun previous => previous.generation + 1
            some { template with innerExpr, isComplete, generation }

/-- What `register_task` does with one producer: the schema is kept before the mode is checked. -/
def registerProducer [DecidableEq S] (self : PlannedDynamicFilter ε S) (id : ℕ) (task : TaskKey)
    (mode : DynamicFilterMergePolicy) (schema : S) : Result Unit × PlannedDynamicFilter ε S :=
  if self.producerSchema.any fun existing => decide (existing ≠ schema) then
    (.error (.internal s!"Dynamic filter {id} has conflicting producer schemas"), self)
  else
    let self := { self with producerSchema := some (self.producerSchema.getD schema) }
    match self.mergeMode with
    | none =>
      (.ok (), { self with
        mergeMode := some mode
        producers := self.producers.orInsert task none })
    | some existing =>
      if existing ≠ mode then
        (.error (.internal
          s!"Dynamic filter {id} has conflicting merge modes: {existing.debug} and {mode.debug}"),
          self)
      else (.ok (), { self with producers := self.producers.orInsert task none })

end PlannedDynamicFilter

namespace FilterPlan

variable {S : Type}

/-- How the filters that a node produces are merged. -/
def mergeMode : FilterPlan S → DynamicFilterMergePolicy
  | node info _ =>
    match info.kind with
    | .hashJoin .collectLeft => .forwardFirstComplete
    | .sort | .aggregate => .intersectOnUpdate
    | _ => .unionWhenAllComplete
  | localBoundary _ _ | remoteBoundary _ _ => .unionWhenAllComplete

/-- The producers that `register_task` finds at a node. -/
def registeredAt (plan : FilterPlan S) : Result (List (ℕ × DynamicFilterMergePolicy × S)) := do
  let produced ← (plan.dynamicExpressionsProduced.filter FilterExpr.isDynamicFilter).mapM
    (requireId missingId)
  if produced.isEmpty then return []
  let schema ← plan.dynamicFilterProducerSchema
  return produced.map fun entry => (entry.1, plan.mergeMode, schema)

end FilterPlan

namespace DynamicFilterRegistry

variable {ε S : Type}

def new : DynamicFilterRegistry ε S where
  filters := ∅
  sealedStages := []
  taskSenders := ∅
  delivered := []
  history := []

/-- `filters.entry(id).or_default()`. -/
def filter (self : DynamicFilterRegistry ε S) (id : ℕ) : PlannedDynamicFilter ε S :=
  (self.filters.lookup id).getD {}

def log (self : DynamicFilterRegistry ε S) (event : RegistryEvent ε S) :
    DynamicFilterRegistry ε S :=
  { self with history := event :: self.history }

def setFilter (self : DynamicFilterRegistry ε S) (id : ℕ) (filter : PlannedDynamicFilter ε S) :
    DynamicFilterRegistry ε S :=
  { self with filters := self.filters.insert id filter }

/-- The merged filter is replaced; nobody has been sent the new one. -/
def setMerged (self : DynamicFilterRegistry ε S) (id : ℕ) (filter : PlannedDynamicFilter ε S)
    (merged : PhysicalDynamicFilterNode ε) : DynamicFilterRegistry ε S :=
  { self with
    filters := self.filters.insert id { filter with
      merged := some merged
      mergedBytes := some ⟨id, merged⟩ }
    delivered := self.delivered.filter fun entry => entry.1 ≠ id }

/-- The producers of a task are registered one by one, up to the first conflict. -/
def registerProducers [DecidableEq S] (task : TaskKey) :
    List (ℕ × DynamicFilterMergePolicy × S) → DynamicFilterRegistry ε S →
      Result Unit × DynamicFilterRegistry ε S
  | [], self => (.ok (), self)
  | (id, mode, schema) :: producers, self =>
    match (self.filter id).registerProducer id task mode schema with
    | (.error e, filter) => (.error e, self.setFilter id filter)
    | (.ok (), filter) =>
      registerProducers task producers ((self.setFilter id filter).log (.producer id task mode))

def registerConsumers (task : TaskKey) :
    List ℕ → DynamicFilterRegistry ε S → DynamicFilterRegistry ε S
  | [], self => self
  | id :: consumers, self =>
    let filter := self.filter id
    registerConsumers task consumers
      ((self.setFilter id { filter with consumerTasks := filter.consumerTasks.insert task }).log
        (.consumer id task))

def registerTask [DecidableEq S] (self : DynamicFilterRegistry ε S) (plan : FilterPlan S)
    (task : TaskKey) : Result Unit × DynamicFilterRegistry ε S :=
  match plan.preorder.mapM FilterPlan.registeredAt with
  | .error e => (.error e, self)
  | .ok producers =>
    match plan.discoverDynamicFilterConsumers with
    | .error e => (.error e, self)
    | .ok discovered =>
      let producers := producers.flatten
      match registerProducers task producers
          (self.log (.registering task (producers.map fun entry => entry.1))) with
      | (.error e, self) => (.error e, self)
      | (.ok (), self) =>
        (.ok (), registerConsumers task (discovered.consumers.map fun entry => entry.1) self)

/-- The loop of `dispatch` over the consumers. -/
def dispatchTo (env : CallEnv) (id : ℕ) (filter : PlannedDynamicFilter ε S)
    (update : ApplyDynamicFilter ε S) :
    List TaskKey → DynamicFilterRegistry ε S → Result Unit × DynamicFilterRegistry ε S
  | [], self => (.ok (), self)
  | task :: tasks, self =>
    -- a task-local consumer is already updated directly by its producer
    if task ∈ filter.producers ∨ (id, task) ∈ self.delivered then
      dispatchTo env id filter update tasks self
    else match self.taskSenders.lookup task with
      | none => dispatchTo env id filter update tasks self
      | some sender =>
        if env.closed id sender then
          if env.finishedAtFailure id then (.ok (), self)
          else (.error (.execution
            s!"Failed to send dynamic filter {id} to task {task.debug}: channel closed"), self)
        else dispatchTo env id filter update tasks
          ({ self with delivered := self.delivered.insert (id, task) }.log
            (.sent sender task update))

def dispatch (self : DynamicFilterRegistry ε S) (env : CallEnv) (id : ℕ) :
    Result Unit × DynamicFilterRegistry ε S :=
  if env.finished id then (.ok (), self)
  else match self.filters.lookup id with
    | none => (.ok (), self)
    | some filter =>
      match filter.mergedBytes with
      | none => (.ok (), self)
      | some expression =>
        match filter.producerSchema with
        | none => (.error (.internal
            s!"Dynamic filter {id} has a merged predicate but no producer schema"), self)
        | some producerSchema =>
          dispatchTo env id filter ⟨id, expression, producerSchema⟩ (env.consumers id) self

/-- `register_sender` after the sender was stored. -/
def dispatchAll (env : CallEnv) :
    List ℕ → DynamicFilterRegistry ε S → Result Unit × DynamicFilterRegistry ε S
  | [], self => (.ok (), self)
  | id :: ids, self =>
    match self.dispatch env id with
    | (.error e, self) => (.error e, self)
    | (.ok (), self) => dispatchAll env ids self

def registerSender (self : DynamicFilterRegistry ε S) (env : CallEnv) (task : TaskKey)
    (sender : ℕ) : Result Unit × DynamicFilterRegistry ε S :=
  dispatchAll env env.ids ({ self with
    taskSenders := self.taskSenders.insert task sender
    delivered := self.delivered.filter fun entry => entry.2 ≠ task }.log (.sender task sender))

section Merge

variable [PhysicalExprNodes ε] [DecidableEq ε]

def merge (self : DynamicFilterRegistry ε S) (id : ℕ) : Bool × DynamicFilterRegistry ε S :=
  match self.filters.lookup id with
  | none => (false, self)
  | some filter =>
    match filter.mergeReports self.sealedStages with
    | none => (false, self)
    | some merged =>
      (true, (self.setMerged id filter merged).log (.merged id merged))

/-- Merge, and dispatch if the merged filter has changed. -/
def mergeAndDispatch (self : DynamicFilterRegistry ε S) (env : CallEnv) (id : ℕ) :
    Result Unit × DynamicFilterRegistry ε S :=
  match self.merge id with
  | (true, self) => self.dispatch env id
  | (false, self) => (.ok (), self)

/-- `seal_stage` after the stage was marked. -/
def mergeAndDispatchAll (env : CallEnv) :
    List ℕ → DynamicFilterRegistry ε S → Result Unit × DynamicFilterRegistry ε S
  | [], self => (.ok (), self)
  | id :: ids, self =>
    match self.mergeAndDispatch env id with
    | (.error e, self) => (.error e, self)
    | (.ok (), self) => mergeAndDispatchAll env ids self

def sealStage (self : DynamicFilterRegistry ε S) (env : CallEnv) (stage : ℕ) :
    Result Unit × DynamicFilterRegistry ε S :=
  mergeAndDispatchAll env env.ids
    ({ self with sealedStages := self.sealedStages.insert stage }.log (.sealed stage))

/-- Whether a report is ignored: it is too early for the policy, or the producer is done, or it
says nothing new. -/
def ignores (mode : Option DynamicFilterMergePolicy)
    (previous : Option (PhysicalDynamicFilterNode ε)) (report : PhysicalDynamicFilterNode ε) :
    Bool :=
  (decide (mode ≠ some .intersectOnUpdate) && !report.isComplete) ||
    previous.any fun previous => previous.isComplete || decide (previous = report)

/-- `record_dynamic_filter_update` once the report was found to be valid. -/
def recordReport (self : DynamicFilterRegistry ε S) (env : CallEnv) (task : TaskKey) (id : ℕ)
    (report : PhysicalDynamicFilterNode ε) : Result Unit × DynamicFilterRegistry ε S :=
  match self.filters.lookup id with
  | none => (.error (.execution
      s!"Received update for unregistered dynamic filter {id} from task {task.debug}"), self)
  | some filter =>
    match filter.producers.lookup task with
    | none => (.error (.execution
        s!"Task {task.debug} is not a registered producer of dynamic filter {id}"), self)
    | some previous =>
      let logged := self.log (.reported id task report)
      if ignores filter.mergeMode previous report then (.ok (), logged)
      else (logged.setFilter id { filter with
        producers := filter.producers.insert task (some report) }).mergeAndDispatch env id

def recordDynamicFilterUpdate (self : DynamicFilterRegistry ε S) (env : CallEnv) (task : TaskKey)
    (report : ProducedDynamicFilter ε) : Result Unit × DynamicFilterRegistry ε S :=
  let id := report.expressionId
  match report.expression with
  | .error e => (.error e, self)
  | .ok expression =>
    if expression.exprId ≠ some id then
      let found := expression.exprId.elim "None" fun other => s!"Some({other})"
      (.error (.execution (s!"Dynamic filter {id} from task {task.debug} " ++
          s!"has mismatched expression ID {found}")),
        self)
    else match expression.dynamicFilter with
      | none => (.error (.execution
          s!"Expected dynamic filter expression for filter {id} from task {task.debug}"), self)
      | some dynamicFilter =>
        if dynamicFilter.innerExpr.isNone then
          (.error (.execution
            s!"Missing inner expression for dynamic filter {id} from task {task.debug}"), self)
        else self.recordReport env task id dynamicFilter

end Merge

end DynamicFilterRegistry

inductive RegistryCall (ε S : Type) where
  | registerTask (plan : FilterPlan S) (task : TaskKey)
  | registerSender (task : TaskKey) (sender : ℕ)
  | sealStage (stage : ℕ)
  | recordDynamicFilterUpdate (task : TaskKey) (report : ProducedDynamicFilter ε)

/-- The order of an environment lists the entries of the registry. -/
structure CallEnv.Lists {ε S : Type} (env : CallEnv) (registry : DynamicFilterRegistry ε S) :
    Prop where
  ids : ∀ id, id ∈ env.ids ↔ id ∈ registry.filters
  consumers : ∀ id filter, registry.filters.lookup id = some filter →
    ∀ task, task ∈ env.consumers id ↔ task ∈ filter.consumerTasks

/-- The query goes on and all receivers are alive. -/
structure CallEnv.Open (env : CallEnv) : Prop where
  finished : ∀ id, env.finished id = false
  closed : ∀ id sender, env.closed id sender = false

namespace DynamicFilterRegistry

/-- The environment of a query that goes on with all receivers alive. -/
def quietEnv {ε S : Type} (self : DynamicFilterRegistry ε S) : CallEnv where
  ids := self.filters.keys
  consumers id := (self.filter id).consumerTasks
  finished _ := false
  closed _ _ := false
  finishedAtFailure _ := false

theorem quietEnv_lists {ε S : Type} (self : DynamicFilterRegistry ε S) :
    self.quietEnv.Lists self where
  ids _ := Iff.rfl
  consumers id filter hfilter task := by
    simp [quietEnv, DynamicFilterRegistry.filter, hfilter]

theorem quietEnv_open {ε S : Type} (self : DynamicFilterRegistry ε S) : self.quietEnv.Open :=
  ⟨fun _ => rfl, fun _ _ => rfl⟩

variable {ε S : Type} [PhysicalExprNodes ε] [DecidableEq ε] [DecidableEq S]

def call (self : DynamicFilterRegistry ε S) (env : CallEnv) :
    RegistryCall ε S → Result Unit × DynamicFilterRegistry ε S
  | .registerTask plan task => self.registerTask plan task
  | .registerSender task sender => self.registerSender env task sender
  | .sealStage stage => self.sealStage env stage
  | .recordDynamicFilterUpdate task report => self.recordDynamicFilterUpdate env task report

/-- The calls in any order. Each sender that is registered is one end of a channel of its own. -/
def system (ε S : Type) [PhysicalExprNodes ε] [DecidableEq ε] [DecidableEq S] :
    Transition (DynamicFilterRegistry ε S) (RegistryCall ε S × CallEnv) where
  init s := s = new
  step s a next := a.2.Lists s ∧
    (∀ task sender, a.1 = .registerSender task sender → ∀ other, .sender other sender ∉ s.history) ∧
    next = (s.call a.2 a.1).2

/-- The calls by which the query is not finished and no channel is closed. -/
def openSystem (ε S : Type) [PhysicalExprNodes ε] [DecidableEq ε] [DecidableEq S] :
    Transition (DynamicFilterRegistry ε S) (RegistryCall ε S × CallEnv) :=
  (system ε S).restrict fun a => a.2.Open

theorem reachable_call {s : DynamicFilterRegistry ε S} (h : (openSystem ε S).Reachable s)
    (call : RegistryCall ε S)
    (hfresh : ∀ task sender, call = .registerSender task sender →
      ∀ other, .sender other sender ∉ s.history) :
    (openSystem ε S).Reachable (s.call s.quietEnv call).2 :=
  .step (a := (call, s.quietEnv)) h ⟨⟨s.quietEnv_lists, hfresh, rfl⟩, s.quietEnv_open⟩

end DynamicFilterRegistry

end DatafusionDistributed
