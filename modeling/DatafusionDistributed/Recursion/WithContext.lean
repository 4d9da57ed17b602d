import DatafusionDistributed.Library.TreeCalls
import DatafusionDistributed.Recursion

/-!
# Traversals with task contexts

`apply_with_dt_ctx` and `transform_down_with_dt_ctx` of `recursion.rs`. A node of a stage runs with
the context of the task, except below a `ChildrenIsolatorUnionExec`, which runs some of its
children and hands each of them a context of its own. `apply_with_dt_ctx` looks the contexts up on
its way down; `transform_down_with_dt_ctx` is a callback of DataFusion's `transform_down` that
keeps them on a stack.

`Plan.visits` lists the nodes of a plan that a task runs, with their contexts, in the order in
which `apply_with_dt_ctx` visits them.
-/

namespace DatafusionDistributed

open Library

namespace Plan

variable {κ σ : Type}

/-! ## The model -/

/-- A callback of `apply_with_dt_ctx`. -/
abbrev Visitor (κ σ : Type) :=
  Plan κ → DistributedTaskContext → σ → Result (TreeNodeRecursion × σ)

/-- The visits of the children of a node, where `recurse` holds the visit of each child. -/
def visitInputs (kind : NodeKind κ)
    (recurse : List (DistributedTaskContext → σ → Result (TreeNodeRecursion × σ)))
    (ctx : DistributedTaskContext) (state : σ) : Result (TreeNodeRecursion × σ) :=
  match kind with
  | .childrenIsolatorUnion union =>
    match union.taskIdxMap[ctx.taskIndex]? with
    | none => .error (.panic "index out of bounds")
    | some row =>
      applyUntilStop
        (fun (childI, childCtx) state =>
          match recurse[childI]? with
          | none => .error (.panic "index out of bounds")
          | some visit => visit childCtx state)
        row .continues state
  | kind =>
    if kind.isNetworkBoundary then .ok (.continues, state)
    else applyUntilStop (fun visit state => visit ctx state) recurse .continues state

mutual

def applyWithDtCtx (f : Visitor κ σ) :
    Plan κ → DistributedTaskContext → σ → Result (TreeNodeRecursion × σ)
  | node kind taskCount children, ctx, state => do
    let (tnr, state) ← f (node kind taskCount children) ctx state
    tnr.visitChildren (visitInputs kind (applyAll f children) ctx) state

def applyAll (f : Visitor κ σ) :
    List (Plan κ) → List (DistributedTaskContext → σ → Result (TreeNodeRecursion × σ))
  | [] => []
  | child :: children => applyWithDtCtx f child :: applyAll f children

end

/-- `child_ctxs[child_idx] = Some(child_ctx)`. -/
def setContext (childCtxs : List (Option DistributedTaskContext)) (task : ChildTask) :
    Result (List (Option DistributedTaskContext)) :=
  if task.1 < childCtxs.length then .ok (childCtxs.set task.1 (some task.2))
  else .error (.panic "index out of bounds")

/-- The contexts that a node hands to its children. A union has none for the children that its
task does not run. -/
def childContexts (plan : Plan κ) (ctx : DistributedTaskContext) :
    Result (List (Option DistributedTaskContext)) :=
  match plan.kind with
  | .childrenIsolatorUnion union =>
    match union.taskIdxMap[ctx.taskIndex]? with
    | none => .error (.panic "index out of bounds")
    | some row => row.foldlM setContext (List.replicate plan.children.length none)
  | _ => .ok (plan.children.map fun _ => some ctx)

theorem length_childContexts (plan : Plan κ) (ctx : DistributedTaskContext)
    (ctxs : List (Option DistributedTaskContext)) (h : plan.childContexts ctx = .ok ctxs) :
    ctxs.length = plan.children.length := by
  unfold childContexts at h
  split at h
  · split at h
    · cases h
    · refine foldlM_invariant ?_ List.length_replicate h
      intro ctxs task _ next hlength hnext
      rw [setContext] at hnext
      split at hnext
      · cases hnext
        rw [List.length_set, hlength]
      · cases hnext
  · cases h
    exact List.length_map _

/-- The plans of a stage as trees that hand down task contexts. -/
def contextTree (df : DataFusion κ) :
    ContextTree DataFusionError (Plan κ) DistributedTaskContext where
  children := children
  withNewChildren := replaceChildren df
  stackOverflow := .panic "stack overflow"
  enters := fun plan => !plan.kind.isNetworkBoundary
  childContexts := childContexts
  length_childContexts := length_childContexts
  emptyStack := .panic "called Option::unwrap() on a None value"

/-- A callback of `transform_down_with_dt_ctx`. -/
abbrev RewriteDown (κ σ : Type) :=
  Plan κ → DistributedTaskContext → σ → Result (Transformed (Plan κ) × σ)

/-- `transform_down_with_dt_ctx`, to a given depth, with what is left on its stack. -/
def transformDownWithDtCtx (df : DataFusion κ) (f : RewriteDown κ σ) (depth : ℕ) (plan : Plan κ)
    (ctx : DistributedTaskContext) (state : σ) :
    Result (Transformed (Plan κ) × List (Option DistributedTaskContext) × σ) :=
  (contextTree df).transformDown ((contextTree df).popContext f) depth plan ([some ctx], state)

/-! ## What a task runs -/

structure Visit (κ : Type) where
  position : List ℕ
  node : Plan κ
  ctx : DistributedTaskContext

def Visit.below (i : ℕ) (visit : Visit κ) : Visit κ :=
  { visit with position := i :: visit.position }

/-- The children that a node runs with a context, each with its own context. -/
def executedChildren (plan : Plan κ) (ctx : DistributedTaskContext) : List ChildTask :=
  match plan.kind with
  | .childrenIsolatorUnion union => union.taskIdxMap[ctx.taskIndex]?.getD []
  | kind =>
    if kind.isNetworkBoundary then [] else (List.range plan.children.length).map fun i => (i, ctx)

mutual

def visits : Plan κ → DistributedTaskContext → List (Visit κ)
  | node kind taskCount children, ctx =>
    ⟨[], node kind taskCount children, ctx⟩ ::
      (executedChildren (node kind taskCount children) ctx).flatMap fun task =>
        match (visitsAll children)[task.1]? with
        | none => []
        | some visits => (visits task.2).map (Visit.below task.1)

def visitsAll : List (Plan κ) → List (DistributedTaskContext → List (Visit κ))
  | [] => []
  | child :: children => visits child :: visitsAll children

end

theorem visitsAll_eq_map (children : List (Plan κ)) : visitsAll children = children.map visits := by
  induction children with
  | nil => rfl
  | cons child children ih => rw [visitsAll, ih, List.map_cons]

theorem applyAll_eq_map (f : Visitor κ σ) (children : List (Plan κ)) :
    applyAll f children = children.map (applyWithDtCtx f) := by
  induction children with
  | nil => rfl
  | cons child children ih => rw [applyAll, ih, List.map_cons]

/-- What the child with number `i` runs. -/
def visitsBelow (plan : Plan κ) (task : ChildTask) : List (Visit κ) :=
  match plan.children[task.1]? with
  | none => []
  | some child => (child.visits task.2).map (Visit.below task.1)

theorem visits_eq (plan : Plan κ) (ctx : DistributedTaskContext) :
    plan.visits ctx = ⟨[], plan, ctx⟩ :: (plan.executedChildren ctx).flatMap plan.visitsBelow := by
  obtain ⟨kind, taskCount, children⟩ := plan
  rw [visits]
  congr 2
  funext task
  rw [visitsAll_eq_map, List.getElem?_map, visitsBelow, children_node]
  cases children[task.1]? <;> rfl

variable {task : ChildTask} {union : UnionTasks} {children : List (Plan κ)}

theorem mem_visitsBelow {plan : Plan κ} {visit : Visit κ} :
    visit ∈ plan.visitsBelow task ↔ ∃ child inner, plan.children[task.1]? = some child ∧
      inner ∈ child.visits task.2 ∧ visit = inner.below task.1 := by
  unfold visitsBelow
  cases plan.children[task.1]? with
  | none => simp
  | some child => simp [@eq_comm _ visit]

/-! ## Plans that can run with a context -/

/-- A union was built for at least as many tasks as it runs in. -/
structure UnionRuns (df : DataFusion κ) (plan : Plan κ) (tasks : ℕ) : Prop where
  placed : plan.UnionPlaced df
  covers : ∀ union, plan.kind = .childrenIsolatorUnion union → tasks ≤ union.taskIdxMap.length

/-- The plan runs with the context. -/
structure RunsIn (df : DataFusion κ) (plan : Plan κ) (ctx : DistributedTaskContext) : Prop where
  unions : plan.ForallRuns (UnionRuns df) ctx.taskCount
  index_lt : ctx.taskIndex < ctx.taskCount

variable {df : DataFusion κ} {plan : Plan κ} {ctx : DistributedTaskContext}

variable {tasks : ℕ} {row : List ChildTask} {ctxs : List (Option DistributedTaskContext)}
  {c : DistributedTaskContext} {out : Plan κ}

theorem unionRuns_of_not_union (h : ∀ union, plan.kind ≠ .childrenIsolatorUnion union) :
    UnionRuns df plan tasks :=
  ⟨fun union hkind => absurd hkind (h union), fun union hkind => absurd hkind (h union)⟩

theorem unionRuns_of_placed {recorded : Option TaskCountAnnotation} {outer : ℕ}
    (h : ChildrenIsolatorUnionExec.Placed (childOps df) ⟨union, children⟩ outer)
    (hle : tasks ≤ outer) :
    UnionRuns df (node (.childrenIsolatorUnion union) recorded children) tasks := by
  have hlength : union.taskIdxMap.length = outer := h.split.length_map
  constructor
  · intro other hother
    cases hother
    rw [hlength]
    exact h
  · intro other hother
    cases hother
    rw [hlength]
    exact hle

/-- The row of the task map for the task of the context. -/
theorem RunsIn.exists_row (h : RunsIn df plan ctx)
    (hkind : plan.kind = .childrenIsolatorUnion union) :
    ∃ row, union.taskIdxMap[ctx.taskIndex]? = some row ∧
      ChildrenIsolatorUnionExec.Placed (childOps df) ⟨union, plan.children⟩
        union.taskIdxMap.length := by
  have hnode := (forallRuns_iff.mp h.unions).1
  have hle := hnode.covers union hkind
  have hlt := h.index_lt
  exact ⟨_, List.getElem?_eq_getElem (by omega), hnode.placed union hkind⟩

/-- The contexts of a row are all set if the row names each child once. -/
theorem foldlM_setContext (hlt : ∀ task ∈ row, task.1 < ctxs.length)
    (hnodup : (row.map Prod.fst).Nodup) :
    ∃ filled, row.foldlM setContext ctxs = .ok filled ∧
      ∀ (i : ℕ) (c : DistributedTaskContext), filled[i]? = some (some c) ↔
        (i, c) ∈ row ∨ i ∉ row.map Prod.fst ∧ ctxs[i]? = some (some c) := by
  induction row generalizing ctxs with
  | nil => exact ⟨ctxs, rfl, by simp⟩
  | cons task row ih =>
    rw [List.map_cons, List.nodup_cons] at hnodup
    have hhead := hlt task List.mem_cons_self
    have hrest : ∀ other ∈ row, other.1 < (ctxs.set task.1 (some task.2)).length := by
      intro other hother
      rw [List.length_set]
      exact hlt other (List.mem_cons_of_mem _ hother)
    obtain ⟨filled, hfilled, hmem⟩ := ih hrest hnodup.2
    refine ⟨filled, ?_, ?_⟩
    · rw [List.foldlM_cons, setContext, if_pos hhead]
      exact hfilled
    · intro i c
      rw [hmem]
      by_cases hi : task.1 = i
      · subst hi
        have hnew : (task.1, c) ∉ row := fun hin =>
          hnodup.1 (List.mem_map.mpr ⟨(task.1, c), hin, rfl⟩)
        simp [hnew, hnodup.1, hhead, Prod.ext_iff, @eq_comm _ c]
      · simp [hi, Ne.symm hi, Prod.ext_iff]

theorem executedChildren_union (hkind : plan.kind = .childrenIsolatorUnion union)
    (hrow : union.taskIdxMap[ctx.taskIndex]? = some row) : plan.executedChildren ctx = row := by
  simp only [executedChildren, hkind, hrow, Option.getD_some]

theorem executedChildren_boundary (h : plan.kind.isNetworkBoundary = true) :
    plan.executedChildren ctx = [] := by
  obtain ⟨kind, taskCount, children⟩ := plan
  cases kind <;> first
    | rfl
    | cases h

theorem enters_of_mem_executedChildren (h : task ∈ plan.executedChildren ctx) :
    plan.kind.isNetworkBoundary = false := by
  by_contra hboundary
  rw [executedChildren_boundary (Bool.eq_true_of_not_eq_false hboundary)] at h
  cases h

theorem executedChildren_transparent (h : plan.kind.isTransparent = true) :
    plan.executedChildren ctx = (List.range plan.children.length).map fun i => (i, ctx) := by
  obtain ⟨kind, taskCount, children⟩ := plan
  cases kind <;> first
    | rfl
    | cases h

theorem childContexts_transparent (h : plan.kind.isTransparent = true) :
    plan.childContexts ctx = .ok (plan.children.map fun _ => some ctx) := by
  obtain ⟨kind, taskCount, children⟩ := plan
  cases kind <;> first
    | rfl
    | cases h

theorem kind_cases (plan : Plan κ) : (∃ union, plan.kind = .childrenIsolatorUnion union) ∨
    plan.kind.isNetworkBoundary = true ∨ plan.kind.isTransparent = true := by
  cases hboundary : plan.kind.isNetworkBoundary with
  | true => exact .inr (.inl rfl)
  | false => exact (NodeKind.union_or_transparent hboundary).imp_right .inr

/-- The contexts on the stack are those of the children that the node runs. -/
theorem RunsIn.exists_contexts (h : RunsIn df plan ctx)
    (henters : plan.kind.isNetworkBoundary = false) :
    ∃ ctxs, plan.childContexts ctx = .ok ctxs ∧ ∀ (i : ℕ) (c : DistributedTaskContext),
      ctxs[i]? = some (some c) ↔ (i, c) ∈ plan.executedChildren ctx := by
  rcases NodeKind.union_or_transparent henters with ⟨union, hkind⟩ | htransparent
  · obtain ⟨row, hrow, hplaced⟩ := h.exists_row hkind
    have hlt : ∀ task ∈ row,
        task.1 < (List.replicate plan.children.length
          (none : Option DistributedTaskContext)).length := by
      rw [List.length_replicate]
      exact hplaced.row_lt hrow
    obtain ⟨ctxs, hctxs, hmem⟩ := foldlM_setContext hlt (hplaced.row_nodup hrow)
    refine ⟨ctxs, ?_, ?_⟩
    · simp only [childContexts, hkind, hrow]
      exact hctxs
    · intro i c
      rw [hmem, executedChildren_union hkind hrow, or_iff_left]
      rintro ⟨-, hnone⟩
      rw [List.getElem?_replicate] at hnone
      split at hnone <;> cases hnone
  · refine ⟨_, childContexts_transparent htransparent, ?_⟩
    simp [executedChildren_transparent htransparent, List.getElem?_replicate]

theorem RunsIn.getElem?_contexts (h : RunsIn df plan ctx)
    (henters : plan.kind.isNetworkBoundary = false) (hctxs : plan.childContexts ctx = .ok ctxs)
    {i : ℕ} :
    ctxs[i]? = some (some c) ↔ (i, c) ∈ plan.executedChildren ctx := by
  obtain ⟨others, hothers, hmem⟩ := h.exists_contexts henters
  rw [hctxs] at hothers
  cases hothers
  exact hmem i c

theorem RunsIn.nodup_executed (h : RunsIn df plan ctx) :
    ((plan.executedChildren ctx).map Prod.fst).Nodup := by
  rcases plan.kind_cases with ⟨union, hkind⟩ | hboundary | htransparent
  · obtain ⟨row, hrow, hplaced⟩ := h.exists_row hkind
    rw [executedChildren_union hkind hrow]
    exact hplaced.row_nodup hrow
  · rw [executedChildren_boundary hboundary]
    exact .nil
  · simp [executedChildren_transparent htransparent, Function.comp_def, List.nodup_range]

section Child

variable (h : RunsIn df plan ctx) (htask : task ∈ plan.executedChildren ctx)
include h htask

/-- The context that a node hands to a child names the number of tasks that the child runs in. -/
theorem RunsIn.taskCount_child :
    task.1 < plan.children.length ∧
      (plan.childTaskCounts ctx.taskCount).getD task.1 0 = task.2.taskCount ∧
      task.2.taskIndex < task.2.taskCount := by
  rcases plan.kind_cases with ⟨union, hkind⟩ | hboundary | htransparent
  · obtain ⟨row, hrow, hplaced⟩ := h.exists_row hkind
    rw [executedChildren_union hkind hrow] at htask
    have hmem : (task.1, task.2) ∈ union.taskIdxMap.flatten :=
      List.mem_flatten.mpr ⟨row, List.mem_of_getElem? hrow, htask⟩
    obtain ⟨hcount, hlt⟩ := hplaced.mem_flatten_iff.mp hmem
    refine ⟨hplaced.row_lt hrow task htask, ?_, hlt⟩
    simp only [childTaskCounts, hkind]
    exact congrArg (fun count : Option ℕ => count.getD 0) hcount
  · rw [executedChildren_boundary hboundary] at htask
    cases htask
  · rw [executedChildren_transparent htransparent] at htask
    obtain ⟨i, hi, rfl⟩ := List.mem_map.mp htask
    have hlt := List.mem_range.mp hi
    refine ⟨hlt, ?_, h.index_lt⟩
    rw [childTaskCounts_transparent _ htransparent]
    exact List.getD_replicate _ hlt

/-- The children that a node runs exist, and run with the context they get. -/
theorem RunsIn.exists_child :
    ∃ child, plan.children[task.1]? = some child ∧ RunsIn df child task.2 := by
  obtain ⟨hlt, hcount, hindex⟩ := h.taskCount_child htask
  have hchild := List.getElem?_eq_getElem hlt
  refine ⟨_, hchild, ?_, hindex⟩
  rw [← hcount]
  exact (forallRuns_iff.mp h.unions).2 task.1 _ hchild

theorem RunsIn.child {child : Plan κ} (hchild : plan.children[task.1]? = some child) :
    RunsIn df child task.2 := by
  obtain ⟨other, hother, hruns⟩ := h.exists_child htask
  rw [hchild] at hother
  cases hother
  exact hruns

end Child

theorem enters_contextTree_iff :
    (contextTree df).enters plan = true ↔ plan.kind.isNetworkBoundary = false := by
  show (!plan.kind.isNetworkBoundary) = true ↔ _
  rw [Bool.not_eq_true_eq_eq_false]

section Rebuilt

variable (h : RunsIn df plan ctx) (henters : plan.kind.isNetworkBoundary = false)
  (hlength : children.length = plan.children.length)
  (hout : plan.replaceChildren df children = .ok out)
include h henters hlength hout

/-- Rebuilding a node keeps the children that it runs and their contexts. -/
theorem RunsIn.rebuild :
    out.children = children ∧ out.kind.isNetworkBoundary = false ∧
      out.childContexts ctx = plan.childContexts ctx := by
  rcases NodeKind.union_or_transparent henters with ⟨union, hkind⟩ | htransparent
  · obtain ⟨next, hnext, rfl⟩ := replaceChildren_union hkind hout
    obtain ⟨row, hrow, hplaced⟩ := h.exists_row hkind
    have hmap : next.taskIdxMap = union.taskIdxMap :=
      hplaced.taskIdxMap_congr (hplaced.withNewChildren hnext)
        (ChildrenIsolatorUnionExec.annotations_withNewChildren hnext)
    refine ⟨rfl, rfl, ?_⟩
    simp only [childContexts, hkind, kind_node, children_node, hmap, hlength]
  · rw [replaceChildren_transparent htransparent hout]
    have hsame : (node plan.kind none children).kind.isTransparent = true := htransparent
    refine ⟨rfl, henters, ?_⟩
    rw [childContexts_transparent hsame, childContexts_transparent htransparent, List.map_const',
      List.map_const', children_node, hlength]

/-- Rebuilding a node with children that run with their contexts gives one that runs. -/
theorem RunsIn.of_children (hchildren : ∀ (i : ℕ) (old new : Plan κ), plan.children[i]? = some old →
      children[i]? = some new →
      new = old ∨ ∃ c, (i, c) ∈ plan.executedChildren ctx ∧ RunsIn df new c) :
      RunsIn df out ctx := by
  obtain ⟨hnode, hold⟩ := forallRuns_iff.mp h.unions
  have hbelow : ∀ (i : ℕ) (child : Plan κ), children[i]? = some child →
      child.ForallRuns (UnionRuns df) ((plan.childTaskCounts ctx.taskCount).getD i 0) := by
    intro i child hchild
    obtain ⟨old, hget⟩ := exists_getElem? hlength hchild
    rcases hchildren i old child hget hchild with rfl | ⟨c, htask, hruns⟩
    · exact hold i _ hget
    · rw [(h.taskCount_child htask).2.1]
      exact hruns.unions
  refine ⟨forallRuns_iff.mpr ?_, h.index_lt⟩
  rcases NodeKind.union_or_transparent henters with ⟨union, hkind⟩ | htransparent
  · obtain ⟨next, hnext, rfl⟩ := replaceChildren_union hkind hout
    have hplaced := hnode.placed union hkind
    have hmap : next.taskIdxMap = union.taskIdxMap :=
      hplaced.taskIdxMap_congr (hplaced.withNewChildren hnext)
        (ChildrenIsolatorUnionExec.annotations_withNewChildren hnext)
    have hnextPlaced := hplaced.withNewChildren hnext
    rw [← ChildrenIsolatorUnionExec.children_withNewChildren hnext] at hbelow hlength ⊢
    refine ⟨unionRuns_of_placed hnextPlaced (hnode.covers union hkind), ?_⟩
    intro i child hchild
    have hruns := hbelow i child hchild
    simp only [childTaskCounts, hkind, UnionTasks.childTaskCounts, kind_node, children_node, hmap,
      hlength] at hruns ⊢
    exact hruns
  · rw [replaceChildren_transparent htransparent hout]
    have hkind : (node plan.kind none children).kind.isTransparent = true := htransparent
    refine ⟨unionRuns_of_not_union (NodeKind.isTransparent_iff.mp htransparent).2, ?_⟩
    intro i child hchild
    have hruns := hbelow i child hchild
    rw [childTaskCounts_transparent _ htransparent] at hruns
    rw [childTaskCounts_transparent _ hkind, children_node, hlength]
    exact hruns

end Rebuilt

theorem contextTree_lawful (df : DataFusion κ) : (contextTree df).Lawful (RunsIn df) where
  child := by
    intro plan ctx ctxs h henters hctxs i child c hc hchild
    have htask := (h.getElem?_contexts (enters_contextTree_iff.mp henters) hctxs).mp hc
    exact h.child htask hchild
  rebuild := by
    intro plan ctx children out h henters hlength hout
    obtain ⟨hchildren, hopen, hctxs⟩ :=
      h.rebuild (enters_contextTree_iff.mp henters) hlength hout
    exact ⟨hchildren, enters_contextTree_iff.mpr hopen, hctxs⟩
  keeps := by
    intro plan ctx ctxs children out h henters hctxs hlength hout hchildren
    have hopen := enters_contextTree_iff.mp henters
    refine h.of_children hopen hlength hout ?_
    intro i old new hold hnew
    refine (hchildren i old new hold hnew).imp_right ?_
    rintro ⟨c, hc, hruns⟩
    exact ⟨c, (h.getElem?_contexts hopen hctxs).mp hc, hruns⟩

/-! ## Visits -/

/-- A task visits the nodes that get a context. -/
theorem RunsIn.mem_visits_iff (h : RunsIn df plan ctx) {position : List ℕ} {found : Plan κ} :
    ⟨position, found, c⟩ ∈ plan.visits ctx ↔
      (contextTree df).Reached plan ctx position found c := by
  induction plan using Plan.induction generalizing ctx position with
  | node kind taskCount children ih =>
    rw [visits_eq, List.mem_cons, List.mem_flatMap]
    constructor
    · rintro (heq | ⟨task, htask, hvisit⟩)
      · cases heq
        exact .here
      · obtain ⟨child, inner, hchild, hinner, heq⟩ := mem_visitsBelow.mp hvisit
        cases heq
        have henters := enters_of_mem_executedChildren htask
        obtain ⟨ctxs, hctxs, hmem⟩ := h.exists_contexts henters
        exact .inside (enters_contextTree_iff.mpr henters) hctxs
          ((hmem task.1 task.2).mpr htask) hchild
          ((ih child (List.mem_of_getElem? hchild) (h.child htask hchild)).mp hinner)
    · intro hreached
      cases hreached with
      | here => exact .inl rfl
      | @inside _ child _ _ d _ ctxs i rest henters hctxs hc hchild hreached =>
        have htask := (h.getElem?_contexts (enters_contextTree_iff.mp henters) hctxs).mp hc
        refine .inr ⟨(i, d), htask, mem_visitsBelow.mpr ⟨child, ⟨rest, found, c⟩, hchild, ?_, rfl⟩⟩
        exact (ih child (List.mem_of_getElem? hchild) (h.child htask hchild)).mpr hreached

theorem RunsIn.nodup_positions (h : RunsIn df plan ctx) :
    ((plan.visits ctx).map Visit.position).Nodup := by
  induction plan using Plan.induction generalizing ctx with
  | node kind taskCount children ih =>
    rw [visits_eq, List.map_cons, List.nodup_cons, List.map_flatMap]
    constructor
    · intro hmem
      obtain ⟨task, -, hmem⟩ := List.mem_flatMap.mp hmem
      obtain ⟨visit, hvisit, heq⟩ := List.mem_map.mp hmem
      obtain ⟨child, inner, -, -, rfl⟩ := mem_visitsBelow.mp hvisit
      cases heq
    · rw [List.nodup_flatMap]
      constructor
      · intro task htask
        obtain ⟨child, hchild, hruns⟩ := h.exists_child htask
        have hbelow : (visitsBelow (node kind taskCount children) task).map Visit.position =
            ((child.visits task.2).map Visit.position).map (task.1 :: ·) := by
          rw [visitsBelow, hchild]
          simp only [List.map_map]
          rfl
        rw [hbelow]
        refine (ih child (List.mem_of_getElem? hchild) hruns).map ?_
        intro first second heq
        exact (List.cons.inj heq).2
      · have hfst := h.nodup_executed
        rw [List.Nodup, List.pairwise_map] at hfst
        refine hfst.imp ?_
        intro first second hne position hfirst hsecond
        obtain ⟨visit, hvisit, rfl⟩ := List.mem_map.mp hfirst
        obtain ⟨other, hother, heq⟩ := List.mem_map.mp hsecond
        obtain ⟨-, inner, -, -, rfl⟩ := mem_visitsBelow.mp hvisit
        obtain ⟨-, outer, -, -, rfl⟩ := mem_visitsBelow.mp hother
        exact hne (List.cons.inj heq).1.symm

/-! ## `apply_with_dt_ctx` -/

def always (f : Plan κ → DistributedTaskContext → σ → Result σ) : Visitor κ σ :=
  fun plan ctx state => do
    let state ← f plan ctx state
    return (.continues, state)

/-- The visits of the inputs are those of the children that the node runs. -/
theorem RunsIn.visitInputs_eq (h : RunsIn df plan ctx)
    (recurse : Plan κ → DistributedTaskContext → σ → Result (TreeNodeRecursion × σ)) (state : σ) :
    visitInputs plan.kind (plan.children.map recurse) ctx state =
      applyUntilStop
        (fun task state => (plan.children[task.1]?.elim
          (.error (.panic "index out of bounds")) fun child => recurse child task.2 state))
        (plan.executedChildren ctx) .continues state := by
  rcases plan.kind_cases with ⟨union, hkind⟩ | hboundary | htransparent
  · obtain ⟨row, hrow, -⟩ := h.exists_row hkind
    rw [executedChildren_union hkind hrow, hkind]
    simp only [visitInputs, hrow, List.getElem?_map]
    congr 1
    funext task state
    cases plan.children[task.1]? <;> rfl
  · obtain ⟨kind, taskCount, children⟩ := plan
    cases kind <;> first
      | rfl
      | cases hboundary
  · rw [executedChildren_transparent htransparent]
    obtain ⟨hopen, hunion⟩ := NodeKind.isTransparent_iff.mp htransparent
    unfold visitInputs
    split
    · rename_i union hkind
      exact absurd hkind (hunion union)
    · rw [hopen]
      apply applyUntilStop_congr
      rw [List.forall₂_iff_get]
      refine ⟨by simp, ?_⟩
      intro i hleft hright
      have hlt : i < plan.children.length := by simpa using hleft
      simp [List.getElem?_eq_getElem hlt]

/-- `apply_with_dt_ctx` with a callback that always goes on calls it on every node that the task
runs, one after the other. -/
theorem RunsIn.applyWithDtCtx_eq (h : RunsIn df plan ctx)
    (f : Plan κ → DistributedTaskContext → σ → Result σ) (state : σ) :
    plan.applyWithDtCtx (always f) ctx state =
      ((plan.visits ctx).foldlM (fun state visit => f visit.node visit.ctx state) state).map
        fun state => (.continues, state) := by
  induction plan using Plan.induction generalizing ctx state with
  | node kind taskCount children ih =>
    rw [applyWithDtCtx, visits_eq, List.foldlM_cons, applyAll_eq_map, always]
    cases f (node kind taskCount children) ctx state with
    | error e => rfl
    | ok next =>
      refine (h.visitInputs_eq (applyWithDtCtx (always f)) next).trans ?_
      apply applyUntilStop_flatMap
      intro task htask state
      obtain ⟨child, hchild, hruns⟩ := h.exists_child htask
      rw [visitsBelow, hchild]
      rw [List.foldlM_map]
      exact ih child (List.mem_of_getElem? hchild) hruns state

end Plan

end DatafusionDistributed
