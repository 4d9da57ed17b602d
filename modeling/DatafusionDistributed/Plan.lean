import DatafusionDistributed.ExecutionPlans.ChildrenIsolatorUnion
import DatafusionDistributed.ExecutionPlans.NetworkBroadcast
import DatafusionDistributed.ExecutionPlans.NetworkCoalesce
import DatafusionDistributed.ExecutionPlans.NetworkShuffle

/-!
# Physical plans

A physical plan is a tree of nodes. The kinds of nodes the distributed planner looks at have a
constructor each; all others, leaves included, are `other`. The plan of a local stage is the
child of its boundary node, and a boundary with a remote stage has no child, as in
`ExecutionPlan::children`. The task count that `inject_network_boundaries` records for a node is
kept in the node itself.

What DataFusion's own nodes do is a parameter, `DataFusion`.
-/

namespace DatafusionDistributed

open Library

inductive JoinType where
  | inner
  | left
  | right
  | full
  | leftSemi
  | rightSemi
  | leftAnti
  | rightAnti
  | leftMark
  | rightMark
  deriving DecidableEq, Repr

/-- `is_left_broadcast_safe`: the join types that never emit a build row on their own. -/
def JoinType.isLeftBroadcastSafe : JoinType → Bool
  | inner | right | rightSemi | rightAnti | rightMark => true
  | _ => false

inductive PartitionMode where
  | partitioned
  | collectLeft
  | auto
  deriving DecidableEq, Repr

/-- What the planner reads of a `HashJoinExec`; `leftKeys` and `rightKeys` are the two sides of
its `on`. -/
structure HashJoin where
  mode : PartitionMode
  joinType : JoinType
  nullAware : Bool
  leftKeys : List PhysicalExpr
  rightKeys : List PhysicalExpr
  deriving DecidableEq, Repr

/-- The kinds of plan nodes. -/
inductive NodeKind (κ : Type) where
  | other (op : ℕ)
  | coalescePartitions (fetch : Option ℕ)
  | sortPreservingMerge (ordering : List PhysicalExpr) (fetch : Option ℕ)
  | repartition (partitioning : Partitioning κ) (preserveOrder : Bool)
  | broadcast (consumerTaskCount : ℕ)
  | hashJoin (join : HashJoin)
  | nestedLoopJoin (joinType : JoinType)
  | crossJoin
  | union
  | childrenIsolatorUnion (tasks : UnionTasks)
  | sampler
  | empty (partitions : ℕ)
  | networkShuffle (exec : NetworkShuffleExec κ)
  | networkCoalesce (exec : NetworkCoalesceExec κ)
  | networkBroadcast (exec : NetworkBroadcastExec κ)
  deriving DecidableEq, Repr

namespace NodeKind

variable {κ : Type}

/-- The input stage of a network boundary. -/
def inputStage : NodeKind κ → Option Stage
  | networkShuffle exec => some exec.inputStage
  | networkCoalesce exec => some exec.inputStage
  | networkBroadcast exec => some exec.inputStage
  | _ => none

def isNetworkBoundary (kind : NodeKind κ) : Bool :=
  kind.inputStage.isSome

variable {kind : NodeKind κ}

theorem isNetworkBoundary_of_inputStage {stage : Stage}
    (h : kind.inputStage = some stage) : kind.isNetworkBoundary = true := by
  rw [isNetworkBoundary, h]
  rfl

/-- Whether a node passes its own task count on to its children. -/
def isTransparent : NodeKind κ → Bool
  | childrenIsolatorUnion _ => false
  | kind => !kind.isNetworkBoundary

theorem isTransparent_iff :
    kind.isTransparent = true ↔
      kind.isNetworkBoundary = false ∧ ∀ tasks, kind ≠ childrenIsolatorUnion tasks := by
  cases kind <;> simp [isTransparent]

theorem union_or_transparent (h : kind.isNetworkBoundary = false) :
    (∃ union, kind = childrenIsolatorUnion union) ∨ kind.isTransparent = true := by
  by_cases hunion : ∃ union, kind = childrenIsolatorUnion union
  · exact .inl hunion
  · exact .inr (isTransparent_iff.mpr ⟨h, fun union hkind => hunion ⟨union, hkind⟩⟩)

theorem inputStage_of_transparent (h : kind.isTransparent = true) :
    kind.inputStage = none := by
  have hboundary := (isTransparent_iff.mp h).1
  rwa [isNetworkBoundary, Option.isSome_eq_false_iff, Option.isNone_iff_eq_none] at hboundary

/-- `name`. The nodes without a constructor of their own are told apart by their number. -/
def name : NodeKind κ → String
  | other op => s!"other {op}"
  | coalescePartitions _ => "CoalescePartitionsExec"
  | sortPreservingMerge _ _ => "SortPreservingMergeExec"
  | repartition _ _ => "RepartitionExec"
  | broadcast _ => "BroadcastExec"
  | hashJoin _ => "HashJoinExec"
  | nestedLoopJoin _ => "NestedLoopJoinExec"
  | crossJoin => "CrossJoinExec"
  | union => "UnionExec"
  | childrenIsolatorUnion _ => "ChildrenIsolatorUnionExec"
  | sampler => "SamplerExec"
  | empty _ => "EmptyExec"
  | networkShuffle _ => "NetworkShuffleExec"
  | networkCoalesce _ => "NetworkCoalesceExec"
  | networkBroadcast _ => "NetworkBroadcastExec"

/-- The kind of a boundary after its children were replaced by children with these
properties. -/
def withNewChildren (kind : NodeKind κ) (children : List (PlanProperties κ)) : NodeKind κ :=
  match kind with
  | networkCoalesce exec => networkCoalesce (exec.withNewChildren children)
  | kind => kind

@[simp] theorem inputStage_withNewChildren (kind : NodeKind κ)
    (children : List (PlanProperties κ)) :
    (kind.withNewChildren children).inputStage = kind.inputStage := by
  cases kind with
  | networkCoalesce exec => cases children <;> rfl
  | _ => rfl

/-- The nodes that fold all their input partitions into one. -/
def isFold : NodeKind κ → Bool
  | coalescePartitions _ | sortPreservingMerge _ _ => true
  | _ => false

end NodeKind

/-- A plan: the kind of its root, the task count recorded for it, and its children. -/
inductive Plan (κ : Type) where
  | node (kind : NodeKind κ) (taskCount : Option TaskCountAnnotation) (children : List (Plan κ))

inductive CardinalityEffect where
  | unknown
  | equal
  | lowerEqual
  | greaterEqual
  deriving DecidableEq, Repr

/-- The behaviour of DataFusion that the planner relies on. -/
structure DataFusion (κ : Type) where
  /-- The properties a node computes from those of its children. -/
  properties : NodeKind κ → List (PlanProperties κ) → PlanProperties κ
  /-- What constructors and `with_new_children` check. -/
  check : NodeKind κ → List (PlanProperties κ) → Result Unit
  /-- `RangePartitioning::scale`. -/
  rangeScale : RangeScale κ
  /-- `cardinality_effect`. -/
  cardinalityEffect : NodeKind κ → CardinalityEffect
  /-- The projection that restores the column order after `swap_inputs`, if one is needed. -/
  reorderAfterSwap : JoinType → Option ℕ

/-- What the planner may rely on: the partitions of a node follow from the partitions of its
inputs, and a range partitioning is scaled to the partitions asked for if it has as many. -/
structure DataFusion.Lawful {κ : Type} (df : DataFusion κ) : Prop where
  partitionCount : ∀ (kind : NodeKind κ) (inputs others : List (PlanProperties κ)),
    inputs.map PlanProperties.partitionCount = others.map PlanProperties.partitionCount →
    (df.properties kind inputs).partitionCount = (df.properties kind others).partitionCount
  rangeScale_ok : ∀ (range : RangePartitioning κ) (n : ℕ), 0 < n → n ≤ range.partitionCount →
    ∃ scaled, df.rangeScale range n = .ok scaled
  rangeScale_count : ∀ (range scaled : RangePartitioning κ) (n : ℕ),
    df.rangeScale range n = .ok scaled → scaled.partitionCount = n

/-- The simplest such behaviour: a node keeps the properties of its last input, the leaves have
the given numbers of partitions, and no check fails. -/
def DataFusion.ofLeaves {κ : Type} (partitions : ℕ → ℕ) : DataFusion κ where
  properties kind children :=
    match children.getLast?, kind with
    | some input, _ => input
    | none, .other op => ⟨{}, .unknownPartitioning (partitions op)⟩
    | none, _ => ⟨{}, .unknownPartitioning 1⟩
  check _ _ := .ok ()
  rangeScale range n :=
    if n = 0 ∨ range.partitionCount < n then
      .error (.plan
        s!"Range partitioning partition count {n} exceeds maximum {range.partitionCount}")
    else .ok ⟨range.splitPoints.take (n - 1)⟩
  cardinalityEffect _ := .equal
  reorderAfterSwap _ := none

namespace Plan

variable {κ : Type}

def kind : Plan κ → NodeKind κ
  | node kind _ _ => kind

def taskCount : Plan κ → Option TaskCountAnnotation
  | node _ taskCount _ => taskCount

def children : Plan κ → List (Plan κ)
  | node _ _ children => children

@[simp] theorem kind_node (k : NodeKind κ) (tc : Option TaskCountAnnotation)
    (cs : List (Plan κ)) : (node k tc cs).kind = k := rfl

@[simp] theorem children_node (k : NodeKind κ) (tc : Option TaskCountAnnotation)
    (cs : List (Plan κ)) : (node k tc cs).children = cs := rfl

/-- `plan_with_task_count`. -/
def withTaskCount : Plan κ → TaskCountAnnotation → Plan κ
  | node kind _ children, taskCount => node kind (some taskCount) children

@[simp] theorem kind_withTaskCount (plan : Plan κ) (tc : TaskCountAnnotation) :
    (plan.withTaskCount tc).kind = plan.kind := by
  cases plan
  rfl

@[simp] theorem taskCount_withTaskCount (plan : Plan κ) (tc : TaskCountAnnotation) :
    (plan.withTaskCount tc).taskCount = some tc := by
  cases plan
  rfl

/-- Induction on a plan: a property that passes from the children of a node to the node. -/
theorem induction {motive : Plan κ → Prop}
    (node : ∀ kind taskCount children, (∀ child ∈ children, motive child) →
      motive (node kind taskCount children)) (plan : Plan κ) : motive plan :=
  Plan.rec (motive_2 := fun children => ∀ child ∈ children, motive child) node
    (by simp) (fun _ _ hhead htail => by simpa using ⟨hhead, htail⟩) plan

/-! ## Properties -/

/-- The properties of a node. Boundaries store theirs, a `BroadcastExec` repeats its input for
every consumer task, a fold has one partition and a `RepartitionExec` the one it was given. -/
def nodeProperties (df : DataFusion κ) (kind : NodeKind κ) (children : List (PlanProperties κ)) :
    PlanProperties κ :=
  match kind with
  | .networkShuffle exec => exec.properties
  | .networkCoalesce exec => exec.properties
  | .networkBroadcast exec => exec.properties
  | .repartition partitioning _ => (df.properties kind children).withPartitioning partitioning
  | .coalescePartitions _ | .sortPreservingMerge _ _ =>
    (df.properties kind children).withPartitioning (.unknownPartitioning 1)
  | .broadcast consumerTaskCount =>
    match children with
    | input :: _ => input.withPartitioning
        (.unknownPartitioning (input.partitionCount * consumerTaskCount))
    | [] => df.properties kind []
  | .childrenIsolatorUnion tasks =>
    (df.properties .union children).withPartitioning (.unknownPartitioning tasks.partitionCount)
  | .sampler => children.headD (df.properties kind [])
  | .empty partitions =>
    (df.properties kind children).withPartitioning (.unknownPartitioning partitions)
  | _ => df.properties kind children

mutual

def properties (df : DataFusion κ) : Plan κ → PlanProperties κ
  | node kind _ children => nodeProperties df kind (propertiesAll df children)

def propertiesAll (df : DataFusion κ) : List (Plan κ) → List (PlanProperties κ)
  | [] => []
  | child :: children => child.properties df :: propertiesAll df children

end

/-- `output_partitioning().partition_count()`. -/
def partitionCount (df : DataFusion κ) (plan : Plan κ) : ℕ :=
  (plan.properties df).partitionCount

/-- The plans as children of a `ChildrenIsolatorUnionExec`. A placeholder has the partition count
of the plan it replaces. -/
def childOps (df : DataFusion κ) : ChildOps (Plan κ) where
  partitionCount := partitionCount df
  unionTryNew := fun children => df.check .union (children.map (properties df))
  emptyExec := fun plan => node (.empty (plan.partitionCount df)) none []

/-! ## New children -/

def requireOneChild (children : List (Plan κ)) : Result (Plan κ) :=
  match children with
  | [child] => .ok child
  | _ => .error (.plan s!"Expected exactly 1 children, got {children.length}")

/-- The check of the boundaries: one child for a local stage and none for a remote stage. -/
def requireStageChildren (stage : Stage) (children : List (Plan κ)) : Result Unit :=
  if stage.isLocal then do
    let _ ← requireOneChild children
    return ()
  else if children.isEmpty then .ok ()
  else .error (.notImplemented "NetworkBoundary cannot accept children")

/-- `replace_children`, which recomputes the properties. -/
def replaceChildren (df : DataFusion κ) (plan : Plan κ) (children : List (Plan κ)) :
    Result (Plan κ) :=
  match plan.kind with
  | .childrenIsolatorUnion tasks => do
    let union ← ChildrenIsolatorUnionExec.withNewChildren (childOps df) ⟨tasks, plan.children⟩
      children
    return node (.childrenIsolatorUnion union.toUnionTasks) none union.children
  | .networkShuffle exec => do
    requireStageChildren exec.inputStage children
    return node (.networkShuffle exec) none children
  | .networkBroadcast exec => do
    requireStageChildren exec.inputStage children
    return node (.networkBroadcast exec) none children
  | .networkCoalesce exec => do
    requireStageChildren exec.inputStage children
    return node (.networkCoalesce (exec.withNewChildren (children.map (properties df)))) none
      children
  | .broadcast consumerTaskCount => do
    let child ← requireOneChild children
    return node (.broadcast consumerTaskCount) none [child]
  | kind => do
    df.check kind (children.map (properties df))
    return node kind none children

variable {children : List (Plan κ)} {df : DataFusion κ} {plan out : Plan κ} {P : Plan κ → Prop}

theorem requireOneChild_ok {child : Plan κ} (h : requireOneChild children = .ok child) :
    children = [child] := by
  unfold requireOneChild at h
  split at h
  · cases h
    rfl
  · cases h

/-- A node that is neither a union nor a boundary is rebuilt as it is. -/
theorem replaceChildren_transparent (hkind : plan.kind.isTransparent = true)
    (h : plan.replaceChildren df children = .ok out) : out = node plan.kind none children := by
  obtain ⟨kind, taskCount, old⟩ := plan
  rw [kind_node] at hkind ⊢
  cases kind with
  | childrenIsolatorUnion tasks | networkShuffle exec | networkCoalesce exec
  | networkBroadcast exec => cases hkind
  | broadcast n =>
    obtain ⟨child, hchild, h⟩ := bind_ok_iff.mp h
    cases h
    rw [requireOneChild_ok hchild]
  | _ =>
    obtain ⟨-, -, h⟩ := bind_ok_iff.mp h
    cases h
    rfl

/-- A union is rebuilt for the same annotations and the same number of tasks. -/
theorem replaceChildren_union {tasks : UnionTasks}
    (hkind : plan.kind = .childrenIsolatorUnion tasks)
    (h : plan.replaceChildren df children = .ok out) :
    ∃ union, ChildrenIsolatorUnionExec.withNewChildren (childOps df) ⟨tasks, plan.children⟩
        children = .ok union ∧
        out = node (.childrenIsolatorUnion union.toUnionTasks) none children := by
  obtain ⟨kind, taskCount, old⟩ := plan
  subst hkind
  obtain ⟨union, hunion, h⟩ := bind_ok_iff.mp h
  cases h
  refine ⟨union, hunion, ?_⟩
  rw [ChildrenIsolatorUnionExec.children_withNewChildren hunion]

/-- A boundary keeps its stage. Only a coalesce recomputes its properties. -/
theorem replaceChildren_boundary {stage : Stage} (hkind : plan.kind.inputStage = some stage)
    (h : plan.replaceChildren df children = .ok out) :
    out = node (plan.kind.withNewChildren (children.map (properties df))) none children := by
  obtain ⟨kind, taskCount, old⟩ := plan
  cases kind with
  | networkShuffle exec | networkCoalesce exec | networkBroadcast exec =>
    obtain ⟨-, -, h⟩ := bind_ok_iff.mp h
    cases h
    rfl
  | _ => cases hkind

/-- A boundary whose stage was sent takes no children. -/
theorem replaceChildren_remote {stage : Stage} (hkind : plan.kind.inputStage = some stage)
    (hremote : stage.isLocal = false) (hne : children ≠ []) :
    plan.replaceChildren df children ≠ .ok out := by
  intro h
  have hcheck : requireStageChildren stage children =
      .error (.notImplemented "NetworkBoundary cannot accept children") := by
    unfold requireStageChildren
    rw [hremote, if_neg (by simp), if_neg (by simpa using hne)]
  obtain ⟨kind, taskCount, old⟩ := plan
  cases kind with
  | networkShuffle exec | networkCoalesce exec | networkBroadcast exec =>
    cases hkind
    obtain ⟨_, hok, -⟩ := bind_ok_iff.mp h
    rw [hcheck] at hok
    cases hok
  | _ => cases hkind

/-! ## Well-formed plans -/

/-- `P` holds of every node of a plan. -/
inductive Everywhere (P : Plan κ → Prop) : Plan κ → Prop
  | node {kind : NodeKind κ} {taskCount : Option TaskCountAnnotation} {children : List (Plan κ)} :
    P (node kind taskCount children) → (∀ child ∈ children, Everywhere P child) →
    Everywhere P (node kind taskCount children)

theorem everywhere_iff :
    Everywhere P plan ↔ P plan ∧ ∀ child ∈ plan.children, Everywhere P child := by
  constructor
  · intro h
    cases h with
    | node hnode hchildren => exact ⟨hnode, hchildren⟩
  · intro h
    cases plan with
    | node kind taskCount children => exact .node h.1 h.2

theorem everywhere_unary {kind : NodeKind κ} {recorded : Option TaskCountAnnotation}
    {child : Plan κ} (hnode : P (node kind recorded [child])) (hchild : Everywhere P child) :
    Everywhere P (node kind recorded [child]) :=
  .node hnode (List.forall_mem_singleton.mpr hchild)

theorem everywhere_binary {kind : NodeKind κ} {recorded : Option TaskCountAnnotation}
    {left right : Plan κ} (hnode : P (node kind recorded [left, right]))
    (hleft : Everywhere P left) (hright : Everywhere P right) :
    Everywhere P (node kind recorded [left, right]) :=
  .node hnode (List.forall_mem_cons.mpr ⟨hleft, List.forall_mem_singleton.mpr hright⟩)

theorem Everywhere.everywhere (h : Everywhere P plan) :
    Everywhere (Everywhere P) plan := by
  induction h with
  | node hnode hchildren ih => exact .node (.node hnode hchildren) ih

theorem Everywhere.imp {Q : Plan κ → Prop} (himp : ∀ plan, P plan → Q plan)
    (h : Everywhere P plan) :
    Everywhere Q plan := by
  induction h with
  | node hnode _ ih => exact .node (himp _ hnode) ih

/-- The invariant of a union, for the number of tasks its map was built for. -/
def UnionPlaced (df : DataFusion κ) (plan : Plan κ) : Prop :=
  ∀ union, plan.kind = .childrenIsolatorUnion union →
    ChildrenIsolatorUnionExec.Placed (childOps df) ⟨union, plan.children⟩ union.taskIdxMap.length

end Plan

end DatafusionDistributed
