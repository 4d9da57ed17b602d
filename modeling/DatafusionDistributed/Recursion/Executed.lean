import DatafusionDistributed.Recursion.WithContext

/-!
# Context traversals and execution

Executing a stage for one of its tasks executes all partitions of its plan. A
`ChildrenIsolatorUnionExec` executes its children as its `execute` says, a network boundary reads
from other stages, and any other node executes its inputs with its own context. Which partitions of
its inputs a DataFusion node executes is a parameter; over all its partitions these are all
partitions of all inputs (`ReadsInputs`).

`context_traversals_agree` says that the traversals with contexts visit what is executed.
-/

namespace DatafusionDistributed

open Library

namespace Plan

variable {κ σ : Type}

/-- The partitions of the inputs, each input with its number, that a node with inputs of the given
partition counts executes for one of its own partitions. -/
abbrev Reads (κ : Type) := NodeKind κ → List ℕ → ℕ → List (ℕ × ℕ)

/-- A call of `execute` on a node of a stage. -/
structure Execution where
  position : List ℕ
  ctx : DistributedTaskContext
  partition : ℕ
  deriving DecidableEq, Repr

def Execution.below (i : ℕ) (execution : Execution) : Execution :=
  { execution with position := i :: execution.position }

/-- The partitions of the inputs that a node executes: the number of the input, the context and
the partition. -/
def executedInputs (df : DataFusion κ) (reads : Reads κ) (plan : Plan κ)
    (ctx : DistributedTaskContext) (partition : ℕ) :
    Result (List (ℕ × DistributedTaskContext × ℕ)) :=
  match plan.kind with
  | .childrenIsolatorUnion union => do
    let stream ← ChildrenIsolatorUnionExec.execute (childOps df) ⟨union, plan.children⟩
      partition ctx
    match stream with
    | .empty => return []
    | .child childIdx _ childCtx childPartition => return [(childIdx, childCtx, childPartition)]
  | kind =>
    if kind.isNetworkBoundary then .ok []
    else .ok ((reads kind (plan.children.map (partitionCount df)) partition).map fun input =>
      (input.1, ctx, input.2))

mutual

/-- `execute`: all calls of `execute` that executing one partition of the plan leads to. -/
def execute (df : DataFusion κ) (reads : Reads κ) :
    Plan κ → DistributedTaskContext → ℕ → Result (List Execution)
  | node kind taskCount children, ctx, partition => do
    let inputs ← executedInputs df reads (node kind taskCount children) ctx partition
    let below ← inputs.mapM fun input =>
      match (executeAll df reads children)[input.1]? with
      | none => .error (.panic "index out of bounds")
      | some execute => do
        let executions ← execute input.2.1 input.2.2
        return executions.map (Execution.below input.1)
    return ⟨[], ctx, partition⟩ :: below.flatten

def executeAll (df : DataFusion κ) (reads : Reads κ) :
    List (Plan κ) → List (DistributedTaskContext → ℕ → Result (List Execution))
  | [] => []
  | child :: children => execute df reads child :: executeAll df reads children

end

/-- A node of DataFusion executes all partitions of all its inputs, and nothing else. -/
def ReadsInputs (df : DataFusion κ) (reads : Reads κ) (plan : Plan κ) : Prop :=
  plan.kind.isTransparent = true →
    (∀ (i : ℕ) (child : Plan κ), plan.children[i]? = some child →
      ∀ q < child.partitionCount df, ∃ p < plan.partitionCount df,
        (i, q) ∈ reads plan.kind (plan.children.map (partitionCount df)) p) ∧
    ∀ p < plan.partitionCount df, ∀ input ∈
        reads plan.kind (plan.children.map (partitionCount df)) p,
      ∃ child, plan.children[input.1]? = some child ∧ input.2 < child.partitionCount df

/-- The plans of the stages: the plan itself, and the children of its boundaries, each with the
number of its tasks. -/
def stages (plan : Plan κ) (tasks : ℕ) : List (Plan κ × ℕ) :=
  (plan, tasks) :: (plan.runs tasks).flatMap fun run =>
    match run.1.kind.inputStage with
    | none => []
    | some stage => run.1.children.map fun child => (child, stage.taskCount)

variable {df : DataFusion κ} {reads : Reads κ} {plan : Plan κ} {ctx : DistributedTaskContext}

/-! ## What is executed -/

theorem executeAll_eq_map (children : List (Plan κ)) :
    executeAll df reads children = children.map (execute df reads) := by
  induction children with
  | nil => rfl
  | cons child children ih => rw [executeAll, ih, List.map_cons]

theorem partitionCount_union {union : UnionTasks}
    (hkind : plan.kind = .childrenIsolatorUnion union) :
    plan.partitionCount df = union.partitionCount := by
  obtain ⟨kind, taskCount, children⟩ := plan
  subst hkind
  rfl

theorem executedInputs_transparent (h : plan.kind.isTransparent = true) (partition : ℕ) :
    executedInputs df reads plan ctx partition =
      .ok ((reads plan.kind (plan.children.map (partitionCount df)) partition).map fun input =>
        (input.1, ctx, input.2)) := by
  obtain ⟨kind, taskCount, children⟩ := plan
  cases kind <;> first
    | rfl
    | cases h

theorem executedInputs_boundary (h : plan.kind.isNetworkBoundary = true) (partition : ℕ) :
    executedInputs df reads plan ctx partition = .ok [] := by
  obtain ⟨kind, taskCount, children⟩ := plan
  cases kind <;> first
    | rfl
    | cases h

variable {p tasks : ℕ} {stage : Plan κ × ℕ}

/-- A node executes only children that it runs, with their contexts. -/
theorem RunsIn.executedInputs_ok (h : RunsIn df plan ctx) (hreads : ReadsInputs df reads plan)
    (hp : p < plan.partitionCount df) :
    ∃ inputs, executedInputs df reads plan ctx p = .ok inputs ∧
      ∀ input ∈ inputs, (input.1, input.2.1) ∈ plan.executedChildren ctx ∧
        ∃ child, plan.children[input.1]? = some child ∧ input.2.2 < child.partitionCount df := by
  rcases plan.kind_cases with ⟨union, hkind⟩ | hboundary | htransparent
  · obtain ⟨row, hrow, hplaced⟩ := h.exists_row hkind
    rw [executedChildren_union hkind hrow]
    rcases hplaced.execute_cases ctx hrow p with hempty | ⟨c, child, d, q, hin, hchild, hq, hexec⟩
    · refine ⟨[], ?_, by simp⟩
      simp only [executedInputs, hkind, hempty]
      rfl
    · refine ⟨[(c, d, q)], ?_, ?_⟩
      · simp only [executedInputs, hkind, hexec]
        rfl
      · intro input hinput
        obtain rfl := List.mem_singleton.mp hinput
        exact ⟨hin, child, hchild, hq⟩
  · exact ⟨[], executedInputs_boundary hboundary p, by simp⟩
  · refine ⟨_, executedInputs_transparent htransparent p, ?_⟩
    intro input hinput
    obtain ⟨read, hread, rfl⟩ := List.mem_map.mp hinput
    obtain ⟨child, hchild, hq⟩ := (hreads htransparent).2 p hp read hread
    obtain ⟨hlt, -⟩ := List.getElem?_eq_some_iff.mp hchild
    refine ⟨?_, child, hchild, hq⟩
    rw [executedChildren_transparent htransparent]
    exact List.mem_map.mpr ⟨read.1, List.mem_range.mpr hlt, rfl⟩

/-- Every partition of a child that a node runs is executed by one of its partitions. -/
theorem RunsIn.exists_partition (h : RunsIn df plan ctx) (hreads : ReadsInputs df reads plan)
    {task : ChildTask} {child : Plan κ} {q : ℕ} (htask : task ∈ plan.executedChildren ctx)
    (hchild : plan.children[task.1]? = some child) (hq : q < child.partitionCount df) :
    ∃ p < plan.partitionCount df, ∃ inputs, executedInputs df reads plan ctx p = .ok inputs ∧
      (task.1, task.2, q) ∈ inputs := by
  rcases plan.kind_cases with ⟨union, hkind⟩ | hboundary | htransparent
  · obtain ⟨row, hrow, hplaced⟩ := h.exists_row hkind
    rw [executedChildren_union hkind hrow] at htask
    obtain ⟨p, hp, hexec⟩ := hplaced.exists_execute ctx hrow htask hchild hq
    refine ⟨p, (partitionCount_union hkind).symm ▸ hp, [(task.1, task.2, q)], ?_,
      List.mem_singleton_self _⟩
    simp only [executedInputs, hkind, hexec]
    rfl
  · rw [executedChildren_boundary hboundary] at htask
    cases htask
  · rw [executedChildren_transparent htransparent] at htask
    obtain ⟨i, -, rfl⟩ := List.mem_map.mp htask
    obtain ⟨p, hp, hread⟩ := (hreads htransparent).1 i child hchild q hq
    exact ⟨p, hp, _, executedInputs_transparent htransparent p,
      List.mem_map.mpr ⟨(i, q), hread, rfl⟩⟩

/-- What executing one input leads to. -/
def executeInput (df : DataFusion κ) (reads : Reads κ) (plan : Plan κ)
    (input : ℕ × DistributedTaskContext × ℕ) : Result (List Execution) :=
  match plan.children[input.1]? with
  | none => .error (.panic "index out of bounds")
  | some child => do
    let executions ← execute df reads child input.2.1 input.2.2
    return executions.map (Execution.below input.1)

theorem execute_eq (plan : Plan κ) (ctx : DistributedTaskContext) (p : ℕ) :
    execute df reads plan ctx p = (do
      let inputs ← executedInputs df reads plan ctx p
      let below ← inputs.mapM (executeInput df reads plan)
      return ⟨[], ctx, p⟩ :: below.flatten) := by
  obtain ⟨kind, taskCount, children⟩ := plan
  rw [execute, executeAll_eq_map]
  congr 1
  funext inputs
  congr 2
  funext input
  rw [executeInput, children_node, List.getElem?_map]
  cases children[input.1]? <;> rfl

variable {executions : List Execution} {calls : List (Call (Plan κ) DistributedTaskContext)}
  {f : RewriteDown κ σ}

theorem mem_executeInput {input : ℕ × DistributedTaskContext × ℕ}
    (h : executeInput df reads plan input = .ok executions) {execution : Execution} :
    execution ∈ executions ↔
      ∃ child inner deeper, plan.children[input.1]? = some child ∧
        execute df reads child input.2.1 input.2.2 = .ok inner ∧ deeper ∈ inner ∧
        execution = deeper.below input.1 := by
  unfold executeInput at h
  split at h
  · cases h
  · rename_i child hchild
    obtain ⟨inner, hinner, h⟩ := bind_ok_iff.mp h
    cases h
    simp [hchild, hinner, @eq_comm _ execution]

theorem mem_execute {inputs : List (ℕ × DistributedTaskContext × ℕ)}
    (hinputs : executedInputs df reads plan ctx p = .ok inputs)
    (h : execute df reads plan ctx p = .ok executions) {execution : Execution} :
    execution ∈ executions ↔ execution = ⟨[], ctx, p⟩ ∨
      ∃ input ∈ inputs, ∃ child inner deeper, plan.children[input.1]? = some child ∧
        execute df reads child input.2.1 input.2.2 = .ok inner ∧ deeper ∈ inner ∧
        execution = deeper.below input.1 := by
  rw [execute_eq, hinputs, ok_bind] at h
  obtain ⟨below, hbelow, h⟩ := bind_ok_iff.mp h
  cases h
  rw [List.mem_cons, List.mem_flatten]
  exact or_congr_right (exists_mem_mapM_iff hbelow fun _ _ _ hrun => mem_executeInput hrun)

/-- Executing all partitions of a plan with a context succeeds, and executes what the traversal
visits: every partition of every visited node, with the context of the visit, and nothing else. -/
structure ExecutesVisits (df : DataFusion κ) (reads : Reads κ) (plan : Plan κ)
    (ctx : DistributedTaskContext) : Prop where
  succeeds : ∀ p < plan.partitionCount df, ∃ executions,
    execute df reads plan ctx p = .ok executions
  exact : ∀ execution, (∃ p < plan.partitionCount df, ∃ executions,
      execute df reads plan ctx p = .ok executions ∧ execution ∈ executions) ↔
    ∃ visit ∈ plan.visits ctx, visit.position = execution.position ∧
      visit.ctx = execution.ctx ∧ execution.partition < visit.node.partitionCount df

theorem RunsIn.execute_ok (h : RunsIn df plan ctx) (hreads : ReadsInputs df reads plan)
    (hbelow : ∀ task ∈ plan.executedChildren ctx, ∀ child, plan.children[task.1]? = some child →
      ExecutesVisits df reads child task.2) (hp : p < plan.partitionCount df) :
    ∃ executions, execute df reads plan ctx p = .ok executions := by
  obtain ⟨inputs, hinputs, hmem⟩ := h.executedInputs_ok hreads hp
  obtain ⟨below, hrun⟩ : ∃ below, inputs.mapM (executeInput df reads plan) = .ok below := by
    apply exists_mapM_ok
    intro input hinput
    obtain ⟨htask, child, hchild, hq⟩ := hmem input hinput
    obtain ⟨inner, hinner⟩ := (hbelow _ htask child hchild).succeeds input.2.2 hq
    refine ⟨inner.map (Execution.below input.1), ?_⟩
    simp only [executeInput, hchild, hinner]
    rfl
  refine ⟨⟨[], ctx, p⟩ :: below.flatten, ?_⟩
  rw [execute_eq, hinputs, ok_bind, hrun]
  rfl

theorem RunsIn.executesVisits (h : RunsIn df plan ctx)
    (hreads : plan.Everywhere (ReadsInputs df reads)) : ExecutesVisits df reads plan ctx := by
  induction plan using Plan.induction generalizing ctx with
  | node kind taskCount children ih =>
    obtain ⟨hnode, hchildren⟩ := everywhere_iff.mp hreads
    have hbelow : ∀ task ∈ executedChildren (node kind taskCount children) ctx, ∀ child,
        children[task.1]? = some child → ExecutesVisits df reads child task.2 := by
      intro task htask child hchild
      have hmem := List.mem_of_getElem? hchild
      exact ih child hmem (h.child htask hchild) (hchildren child hmem)
    refine ⟨fun p hp => h.execute_ok hnode hbelow hp, ?_⟩
    intro execution
    rw [visits_eq]
    constructor
    · rintro ⟨p, hp, executions, hrun, hmem⟩
      obtain ⟨inputs, hinputs, hvalid⟩ := h.executedInputs_ok hnode hp
      rcases (mem_execute hinputs hrun).mp hmem with
        rfl | ⟨input, hinput, child, inner, deeper, hchild, hinner, hdeeper, rfl⟩
      · exact ⟨_, List.mem_cons_self, rfl, rfl, hp⟩
      · obtain ⟨htask, other, hother, hq⟩ := hvalid input hinput
        have hsame : other = child := Option.some.inj (hother.symm.trans hchild)
        subst hsame
        obtain ⟨visit, hvisit, hposition, hctx, hlt⟩ :=
          ((hbelow _ htask other hchild).exact deeper).mp
            ⟨input.2.2, hq, inner, hinner, hdeeper⟩
        refine ⟨visit.below input.1, List.mem_cons_of_mem _ (List.mem_flatMap.mpr
          ⟨_, htask, mem_visitsBelow.mpr ⟨other, visit, hchild, hvisit, rfl⟩⟩), ?_, hctx, hlt⟩
        exact congrArg (input.1 :: ·) hposition
    · rintro ⟨visit, hvisit, hposition, hctx, hlt⟩
      obtain ⟨position, c, q⟩ := execution
      rcases List.mem_cons.mp hvisit with rfl | hvisit
      · cases hposition
        cases hctx
        obtain ⟨inputs, hinputs, -⟩ := h.executedInputs_ok hnode hlt
        obtain ⟨executions, hrun⟩ := h.execute_ok hnode hbelow hlt
        exact ⟨q, hlt, executions, hrun, (mem_execute hinputs hrun).mpr (.inl rfl)⟩
      · obtain ⟨task, htask, hvisit⟩ := List.mem_flatMap.mp hvisit
        obtain ⟨child, inner, hchild, hinner, rfl⟩ := mem_visitsBelow.mp hvisit
        cases hposition
        cases hctx
        obtain ⟨r, hr, deeper, hdeeper, hmem⟩ :=
          ((hbelow task htask child hchild).exact ⟨inner.position, inner.ctx, q⟩).mpr
            ⟨inner, hinner, rfl, rfl, hlt⟩
        obtain ⟨p, hp, inputs, hinputs, hinput⟩ := h.exists_partition hnode htask hchild hr
        obtain ⟨executions, hrun⟩ := h.execute_ok hnode hbelow hp
        exact ⟨p, hp, executions, hrun, (mem_execute hinputs hrun).mpr (.inr
          ⟨_, hinput, child, deeper, _, hchild, hdeeper, hmem, rfl⟩)⟩

/-! ## What the rewrite is called on -/

/-- The calls of a rewrite on a plan for the task of `ctx`, in pre-order: they are visits of the
plan, and a visit without a call lies below a call that skips its children or behind one that
stops. -/
structure CallsVisits (plan : Plan κ) (ctx : DistributedTaskContext)
    (calls : List (Call (Plan κ) DistributedTaskContext)) : Prop where
  sound : ∀ call ∈ calls, ∃ visit ∈ plan.visits ctx, visit.position = call.position ∧
    visit.ctx = call.ctx
  complete : ∀ visit ∈ plan.visits ctx, ContextTree.Met calls visit.position visit.ctx
  sorted : (calls.map Call.position).Pairwise (· < ·)

theorem callsVisits_of_covers {Rel : Plan κ → Plan κ → DistributedTaskContext → Prop}
    (h : RunsIn df plan ctx) (hcovers : (contextTree df).Covers Rel plan ctx calls) :
    CallsVisits plan ctx calls where
  sound := by
    intro call hcall
    obtain ⟨found, hreached, -⟩ := hcovers.sound call hcall
    exact ⟨_, h.mem_visits_iff.mpr hreached, rfl, rfl⟩
  complete := fun visit hvisit =>
    hcovers.complete visit.position visit.node visit.ctx (h.mem_visits_iff.mp hvisit)
  sorted := hcovers.sorted

/-- What the two traversals of a plan do for the task of `ctx`. -/
structure TraversalsAgree (df : DataFusion κ) (reads : Reads κ) (plan : Plan κ)
    (ctx : DistributedTaskContext) : Prop where
  /-- Executing the plan executes the visited nodes. -/
  executed : ExecutesVisits df reads plan ctx
  once : ((plan.visits ctx).map Visit.position).Nodup
  /-- The input of a boundary is not entered. -/
  outside : ∀ visit ∈ plan.visits ctx, visit.node.kind.isNetworkBoundary = true →
    ∀ other ∈ plan.visits ctx, visit.position <+: other.position → other.position = visit.position
  /-- `apply_with_dt_ctx` calls its callback on the visited nodes, one after the other. -/
  applied : ∀ (σ : Type) (f : Plan κ → DistributedTaskContext → σ → Result σ) (state : σ),
    plan.applyWithDtCtx (always f) ctx state =
      ((plan.visits ctx).foldlM (fun state visit => f visit.node visit.ctx state) state).map
        fun state => (.continues, state)
  /-- Whatever its callback does, `transform_down_with_dt_ctx` does what handing the contexts down
  does, where there is no stack. -/
  stack : ∀ (σ : Type) (f : RewriteDown κ σ) (depth : ℕ) (state : σ),
    ((plan.transformDownWithDtCtx df f depth ctx state).map fun r => (r.1, r.2.2)) =
      ((contextTree df).descend f depth plan (some ctx) state).map fun r => (r.1, r.2.1)
  /-- The stack is empty at the end, unless the callback stopped the traversal. -/
  emptied : ∀ (σ : Type) (f : RewriteDown κ σ) (depth : ℕ) (state next : σ)
      (result : Transformed (Plan κ)) (stack : List (Option DistributedTaskContext)),
    plan.transformDownWithDtCtx df f depth ctx state = .ok (result, stack, next) →
      result.tnr ≠ .stop → stack = []
  /-- A callback that replaces no node is called on the visited nodes of the plan. -/
  same : ∀ (σ : Type) (f : RewriteDown κ σ),
    (∀ node c state result next, f node c state = .ok (result, next) → result.data = node) →
    ∀ (depth : ℕ) (state next : σ) (result : Transformed (Plan κ))
      (stack : List (Option DistributedTaskContext)) (log : List (Plan κ × DistributedTaskContext)),
    plan.transformDownWithDtCtx df (logged f) depth ctx (state, []) =
        .ok (result, stack, next, log) →
      ∃ calls, log = calls.map Call.pair ∧ CallsVisits plan ctx calls ∧
        (∀ call ∈ calls, ⟨call.position, call.node, call.ctx⟩ ∈ plan.visits ctx) ∧
        ((∀ node c state result next, f node c state = .ok (result, next) →
          result.tnr = .continues) →
          log.Perm ((plan.visits ctx).map fun visit => (visit.node, visit.ctx)))
  /-- A callback that replaces nodes is called on the visited nodes of the plan it leads to. -/
  replaced : ∀ (σ : Type) (f : RewriteDown κ σ), ContextTree.Keeps f (RunsIn df) →
    ∀ (depth : ℕ) (state next : σ) (result : Transformed (Plan κ))
      (stack : List (Option DistributedTaskContext)) (log : List (Plan κ × DistributedTaskContext)),
    plan.transformDownWithDtCtx df (logged f) depth ctx (state, []) =
        .ok (result, stack, next, log) →
      RunsIn df result.data ctx ∧
        ∃ calls, log = calls.map Call.pair ∧ CallsVisits result.data ctx calls
  /-- If the callback leads to lighter children, the depth does not matter. -/
  stable : ∀ (σ : Type) (f : RewriteDown κ σ) (weight : Plan κ → ℕ),
    (∀ node c state result next, f node c state = .ok (result, next) →
      ∀ child ∈ result.data.children, weight child < weight node) →
    ∀ depth > weight plan, ∀ state,
      plan.transformDownWithDtCtx df f depth ctx state =
        plan.transformDownWithDtCtx df f (weight plan + 1) ctx state

theorem RunsIn.outside (h : RunsIn df plan ctx) {visit other : Visit κ}
    (hvisit : visit ∈ plan.visits ctx) (hboundary : visit.node.kind.isNetworkBoundary = true)
    (hother : other ∈ plan.visits ctx) (hle : visit.position <+: other.position) :
    other.position = visit.position := by
  induction plan using Plan.induction generalizing ctx visit other with
  | node kind taskCount children ih =>
    rw [visits_eq] at hvisit hother
    rcases List.mem_cons.mp hvisit with rfl | hvisit
    · rw [executedChildren_boundary hboundary] at hother
      obtain rfl := List.mem_singleton.mp hother
      rfl
    · obtain ⟨task, htask, hvisit⟩ := List.mem_flatMap.mp hvisit
      obtain ⟨child, inner, hchild, hinner, rfl⟩ := mem_visitsBelow.mp hvisit
      rcases List.mem_cons.mp hother with rfl | hother
      · exact absurd hle (by simp [Visit.below])
      · obtain ⟨second, hsecond, hother⟩ := List.mem_flatMap.mp hother
        obtain ⟨sibling, deeper, hsibling, hdeeper, rfl⟩ := mem_visitsBelow.mp hother
        obtain ⟨hindex, hprefix⟩ := List.cons_prefix_cons.mp hle
        have htasks : task = second :=
          List.inj_on_of_nodup_map h.nodup_executed htask hsecond hindex
        subst htasks
        rw [hchild] at hsibling
        cases hsibling
        exact congrArg (task.1 :: ·) (ih child (List.mem_of_getElem? hchild)
          (h.child htask hchild) hinner hboundary hdeeper hprefix)

theorem follows_of_same
    (hf : ∀ node c state result next, f node c state = .ok (result, next) → result.data = node) :
    (contextTree df).Follows f fun found node _ => found = node := by
  rintro ref node c state result next rfl hresult -
  rw [hf _ _ _ _ _ hresult]
  refine ⟨rfl, ?_⟩
  intro ctxs _ hctxs
  refine ⟨hctxs, ?_⟩
  intro i child other _ _ hchild hother
  exact Option.some.inj (hother.symm.trans hchild)

theorem RunsIn.perm_visits (h : RunsIn df plan ctx) (hcalls : CallsVisits plan ctx calls)
    (hsound : ∀ call ∈ calls, (⟨call.position, call.node, call.ctx⟩ : Visit κ) ∈ plan.visits ctx)
    (hgoes : ∀ call ∈ calls, call.answer = .continues) :
    (calls.map Call.pair).Perm ((plan.visits ctx).map fun visit => (visit.node, visit.ctx)) := by
  let toVisit : Call (Plan κ) DistributedTaskContext → Visit κ :=
    fun call => ⟨call.position, call.node, call.ctx⟩
  have hpositions : ((calls.map toVisit).map Visit.position).Nodup := by
    rw [List.map_map]
    exact hcalls.sorted.imp fun hlt => ne_of_lt hlt
  have hperm : (calls.map toVisit).Perm (plan.visits ctx) := by
    rw [List.perm_ext_iff_of_nodup hpositions.of_map h.nodup_positions.of_map]
    intro visit
    constructor
    · intro hvisit
      obtain ⟨call, hcall, rfl⟩ := List.mem_map.mp hvisit
      exact hsound call hcall
    · intro hvisit
      rcases hcalls.complete visit hvisit with ⟨call, hcall, hposition, -⟩ |
        ⟨call, hcall, hanswer, -⟩ | ⟨call, hcall, hanswer, -⟩
      · have hsame : toVisit call = visit :=
          List.inj_on_of_nodup_map h.nodup_positions (hsound call hcall) hvisit hposition
        exact hsame ▸ List.mem_map_of_mem hcall
      all_goals simp [hgoes call hcall] at hanswer
  have hpairs := hperm.map fun visit => (visit.node, visit.ctx)
  rwa [List.map_map] at hpairs

theorem RunsIn.traversalsAgree (h : RunsIn df plan ctx)
    (hreads : plan.Everywhere (ReadsInputs df reads)) : TraversalsAgree df reads plan ctx where
  executed := h.executesVisits hreads
  once := h.nodup_positions
  outside := fun _ hvisit hboundary _ hother hle => h.outside hvisit hboundary hother hle
  applied := fun _ f state => h.applyWithDtCtx_eq f state
  stack := fun _ f depth => ContextTree.popContext_eq_descend _ f depth plan (some ctx)
  emptied := fun _ _ _ _ _ _ _ => ContextTree.popContext_emptied
  same := by
    intro σ f hf depth state next result stack log hrun
    obtain ⟨calls, rfl, hran⟩ := ContextTree.ran_of_logged hrun
    have hcovers := hran.follows (follows_of_same hf) rfl
    have hcalls := callsVisits_of_covers h hcovers
    have hsound :
        ∀ call ∈ calls, (⟨call.position, call.node, call.ctx⟩ : Visit κ) ∈ plan.visits ctx := by
      intro call hcall
      obtain ⟨found, hreached, rfl⟩ := hcovers.sound call hcall
      exact h.mem_visits_iff.mpr hreached
    refine ⟨calls, rfl, hcalls, hsound, fun hgoes => h.perm_visits hcalls hsound ?_⟩
    intro call hcall
    obtain ⟨before, after, first, hfirst, hanswer⟩ := hran.answer call hcall
    rw [← hanswer]
    exact hgoes _ _ _ _ _ hfirst
  replaced := by
    intro σ f hf depth state next result stack log hrun
    obtain ⟨calls, rfl, hran⟩ := ContextTree.ran_of_logged hrun
    have hruns := hran.inv (contextTree_lawful df) hf h
    exact ⟨hruns, calls, rfl,
      callsVisits_of_covers hruns (hran.covers (contextTree_lawful df) hf h)⟩
  stable := by
    intro σ f weight hlighter depth hdepth state
    exact congrFun (ContextTree.popContext_stable (contextTree df) hlighter hdepth)
      ([some ctx], state)

/-! ## The stages of a plan -/

theorem mem_stages (h : stage ∈ plan.stages tasks) :
    stage = (plan, tasks) ∨ ∃ run ∈ plan.runs tasks, ∃ input, run.1.kind.inputStage = some input ∧
      stage.1 ∈ run.1.children ∧ stage.2 = input.taskCount := by
  rcases List.mem_cons.mp h with rfl | h
  · exact .inl rfl
  · obtain ⟨run, hrun, h⟩ := List.mem_flatMap.mp h
    cases hinput : run.1.kind.inputStage with
    | none => simp [hinput] at h
    | some input =>
      rw [hinput] at h
      obtain ⟨child, hchild, rfl⟩ := List.mem_map.mp h
      exact .inr ⟨run, hrun, input, hinput, hchild, rfl⟩

/-- What holds of all nodes of a plan holds of all nodes of its stages. -/
theorem forallRuns_stage {P : Plan κ → ℕ → Prop} (h : plan.ForallRuns P tasks)
    (hstage : stage ∈ plan.stages tasks) : stage.1.ForallRuns P stage.2 := by
  rcases mem_stages hstage with rfl | ⟨run, hrun, input, hinput, hchild, hcount⟩
  · exact h
  · have hnode := h.of_mem (by exact hrun)
    rw [forallRuns_of_replicate (childTaskCounts_boundary run.2 hinput)] at hnode
    rw [hcount]
    exact hnode.2 stage.1 hchild

theorem everywhere_stage {P : Plan κ → Prop} (h : plan.Everywhere P)
    (hstage : stage ∈ plan.stages tasks) : stage.1.Everywhere P := by
  have hruns := forallRuns_stage (forallRuns_of_everywhere h.everywhere tasks) hstage
  exact (forallRuns_iff.mp hruns).1

end Plan

open Plan in
/-- The context traversals agree with execution, for every task of every stage of a plan whose
unions were built for the tasks they run in: `apply_with_dt_ctx` visits exactly what the task
executes, and `transform_down_with_dt_ctx` calls its callback on the same nodes with the same
contexts, whatever the callback answers and whatever it puts in the place of a node. -/
theorem context_traversals_agree {κ : Type} (df : DataFusion κ) (reads : Reads κ) {plan : Plan κ}
    {tasks : ℕ} (hunions : plan.ForallRuns (UnionRuns df) tasks)
    (hreads : plan.Everywhere (ReadsInputs df reads)) :
    ∀ stage ∈ plan.stages tasks, ∀ t < stage.2, TraversalsAgree df reads stage.1 ⟨t, stage.2⟩ := by
  intro stage hstage t ht
  have hruns : RunsIn df stage.1 ⟨t, stage.2⟩ := ⟨forallRuns_stage hunions hstage, ht⟩
  exact hruns.traversalsAgree (everywhere_stage hreads hstage)

section nested

open Plan

/-- Three leaves with two, one and three partitions. -/
def threeLeaves : DataFusion Unit := .ofLeaves fun op => [2, 1, 3].getD op 1

/-- Every partition of a node executes that partition of each input that has it. -/
def readSamePartition : Reads Unit := fun _ counts p =>
  (counts.zipIdx.filter fun input => p < input.1).map fun input => (input.2, p)

def leaf (op : ℕ) : Plan Unit := node (.other op) none []

/-- A union over two tasks, pinned by the union in front of it. -/
def innerUnion : UnionTasks where
  partitionCount := 3
  childAnnotations := [.ofSoft 1, .ofSoft 1]
  taskIdxMap := [[(0, ⟨0, 1⟩)], [(1, ⟨0, 1⟩)]]

def outerUnion : UnionTasks where
  partitionCount := 6
  childAnnotations := [.ofSoft 1, .ofExact ⟨2, Nat.two_pos⟩ 1, .ofSoft (1 / 2)]
  taskIdxMap := [[(0, ⟨0, 1⟩), (1, ⟨1, 2⟩), (2, ⟨0, 1⟩)], [(1, ⟨0, 2⟩)]]

/-- A union whose second child is a union. -/
def nestedUnions : Plan Unit :=
  node (.childrenIsolatorUnion outerUnion) none
    [node (.other 7) none [leaf 0],
      node (.childrenIsolatorUnion innerUnion) none [leaf 1, leaf 2], leaf 1]

theorem leaf_runs (op tasks : ℕ) : (leaf op).ForallRuns (UnionRuns threeLeaves) tasks := by
  refine forallRuns_iff.mpr ⟨unionRuns_of_not_union (fun _ h => by cases h), ?_⟩
  simp [leaf]

theorem innerUnion_runs :
    (node (.childrenIsolatorUnion innerUnion) none [leaf 1, leaf 2]).ForallRuns
      (UnionRuns threeLeaves) 2 := by
  have hplaced : ChildrenIsolatorUnionExec.Placed (childOps threeLeaves)
      ⟨innerUnion, [leaf 1, leaf 2]⟩ 2 := ⟨by decide +kernel, rfl, rfl⟩
  refine forallRuns_iff.mpr ⟨unionRuns_of_placed hplaced le_rfl, ?_⟩
  intro i child hchild
  rcases List.mem_pair.mp (List.mem_of_getElem? hchild) with rfl | rfl
  · exact leaf_runs 1 _
  · exact leaf_runs 2 _

theorem nestedUnions_runs : nestedUnions.ForallRuns (UnionRuns threeLeaves) 2 := by
  have hplaced : ChildrenIsolatorUnionExec.Placed (childOps threeLeaves)
      ⟨outerUnion, nestedUnions.children⟩ 2 := ⟨by decide +kernel, rfl, rfl⟩
  refine forallRuns_iff.mpr ⟨unionRuns_of_placed hplaced le_rfl, ?_⟩
  intro i child hchild
  rcases i with _ | _ | _ | i
  · cases hchild
    refine forallRuns_iff.mpr ⟨unionRuns_of_not_union (fun _ h => by cases h), ?_⟩
    intro j inner hinner
    rw [List.mem_singleton.mp (List.mem_of_getElem? hinner)]
    exact leaf_runs 0 _
  · cases hchild
    exact innerUnion_runs
  · cases hchild
    exact leaf_runs 1 _
  · cases hchild

/-- A node with at least the partitions of its inputs reads them all this way. -/
theorem readsInputs_samePartition {df : DataFusion Unit} {plan : Plan Unit}
    (h : ∀ child ∈ plan.children, child.partitionCount df ≤ plan.partitionCount df) :
    ReadsInputs df readSamePartition plan := by
  intro _
  constructor
  · intro i child hchild q hq
    have hle := h child (List.mem_of_getElem? hchild)
    refine ⟨q, by omega, List.mem_map.mpr ⟨(child.partitionCount df, i), ?_, rfl⟩⟩
    rw [List.mem_filter, List.mem_zipIdx_iff_getElem?, List.getElem?_map, hchild]
    exact ⟨rfl, decide_eq_true hq⟩
  · intro p _ input hinput
    obtain ⟨⟨count, i⟩, hread, rfl⟩ := List.mem_map.mp hinput
    obtain ⟨hmem, hlt⟩ := List.mem_filter.mp hread
    rw [List.mem_zipIdx_iff_getElem?, List.getElem?_map, Option.map_eq_some_iff] at hmem
    obtain ⟨child, hchild, rfl⟩ := hmem
    exact ⟨child, hchild, of_decide_eq_true hlt⟩

theorem readsInputs_of_union {union : UnionTasks} {children : List (Plan Unit)} :
    ReadsInputs threeLeaves readSamePartition
      (node (.childrenIsolatorUnion union) none children) := by
  intro h
  cases h

theorem leaf_reads (op : ℕ) :
    (leaf op).Everywhere (ReadsInputs threeLeaves readSamePartition) :=
  .node (readsInputs_samePartition (by simp)) (by simp)

theorem nestedUnions_reads :
    nestedUnions.Everywhere (ReadsInputs threeLeaves readSamePartition) := by
  refine .node readsInputs_of_union ?_
  simp only [List.forall_mem_cons, List.not_mem_nil, false_imp_iff, implies_true, and_true]
  exact ⟨.node (readsInputs_samePartition (by decide)) (by simp [leaf_reads]),
    .node readsInputs_of_union (by simp [leaf_reads]), leaf_reads 1⟩

/-- The first task of two nested unions runs all three children of the outer one, and of the inner
one only the second, with a context of its own. -/
theorem nestedUnions_traversals_agree :
    TraversalsAgree threeLeaves readSamePartition nestedUnions ⟨0, 2⟩ ∧
      (nestedUnions.visits ⟨0, 2⟩).map (fun visit => (visit.position, visit.ctx)) =
        [([], ⟨0, 2⟩), ([0], ⟨0, 1⟩), ([0, 0], ⟨0, 1⟩), ([1], ⟨1, 2⟩), ([1, 1], ⟨0, 1⟩),
          ([2], ⟨0, 1⟩)] :=
  ⟨context_traversals_agree threeLeaves readSamePartition nestedUnions_runs nestedUnions_reads
    (nestedUnions, 2) List.mem_cons_self 0 (by decide), rfl⟩

end nested

end DatafusionDistributed
