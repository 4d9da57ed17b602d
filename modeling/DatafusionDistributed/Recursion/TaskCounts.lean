import DatafusionDistributed.Library.TreeCalls
import DatafusionDistributed.Recursion

/-!
# What the traversals with task counts report

`transform_up_with_task_count` and `transform_down_with_task_count` of `recursion.rs` tell their
callback in how many tasks each node runs. From the leaves to the root these are the counts of
`Plan.runs`, whatever the callback has put in the place of the nodes below. From the root to the
leaves, where the callback may also give a node other children, the count of a child is the one
that the returned node has for it.
-/

namespace DatafusionDistributed

open Library

namespace Plan

variable {κ σ : Type} {df : DataFusion κ} {plan : Plan κ} {tasks : ℕ}

/-! ## From the root -/

/-- The plans of a query as trees that hand down task counts. -/
def taskCountTree (df : DataFusion κ) : ContextTree DataFusionError (Plan κ) ℕ where
  children := children
  withNewChildren := replaceChildren df
  stackOverflow := .panic "stack overflow"
  enters := fun _ => true
  childContexts := fun plan tasks => .ok ((plan.childTaskCounts tasks).map some)
  length_childContexts := by
    intro plan tasks counts h
    cases h
    rw [List.length_map, length_childTaskCounts]
  emptyStack := .panic "called Option::unwrap() on a None value"

/-- A callback of `transform_down_with_task_count`. -/
abbrev RewriteCounted (κ σ : Type) := Plan κ → ℕ → σ → Result (Transformed (Plan κ) × σ)

/-- `transform_down_with_task_count`, to a given depth, with what is left on its stack. -/
def transformDownWithTaskCount (df : DataFusion κ) (f : RewriteCounted κ σ) (depth : ℕ)
    (plan : Plan κ) (tasks : ℕ) (state : σ) :
    Result (Transformed (Plan κ) × List (Option ℕ) × σ) :=
  (taskCountTree df).transformDown ((taskCountTree df).popContext f) depth plan
    ([some tasks], state)

/-- The callback is called on the node in its tasks, and then below every child of the node that
it returned, in the tasks that this node has for the child. -/
inductive CalledBelow (f : RewriteCounted κ σ) : Plan κ → ℕ → List (Plan κ × ℕ) → Prop
  | node {plan : Plan κ} {tasks : ℕ} {before after : σ} {result : Transformed (Plan κ)}
      {calls : List (List (Plan κ × ℕ))} :
    f plan tasks before = .ok (result, after) →
    calls.length = result.data.children.length →
    (∀ (i : ℕ) (child : Plan κ) (below : List (Plan κ × ℕ)),
      result.data.children[i]? = some child → calls[i]? = some below →
      CalledBelow f child ((result.data.childTaskCounts tasks).getD i 0) below) →
    CalledBelow f plan tasks ((plan, tasks) :: calls.flatten)

def Continues (f : RewriteCounted κ σ) : Prop :=
  ∀ plan tasks state result next, f plan tasks state = .ok (result, next) → result.tnr = .continues

variable {f : RewriteCounted κ σ}

theorem Continues.tnr_ne_stop (hf : Continues f) {depth : ℕ} {c : Option ℕ}
    {result : Transformed (Plan κ)} {calls : List (Call (Plan κ) ℕ)}
    (h : (taskCountTree df).Ran f depth plan c result calls) : result.tnr ≠ .stop := by
  intro hstop
  obtain ⟨call, hcall, hanswer⟩ := h.exists_stop hstop
  obtain ⟨state, next, first, hfirst, htnr⟩ := h.answer call hcall
  rw [hf _ _ _ _ _ hfirst, hanswer] at htnr
  cases htnr

theorem Continues.calledBelow (hf : Continues f) {depth : ℕ} {result : Transformed (Plan κ)}
    {calls : List (Call (Plan κ) ℕ)}
    (h : (taskCountTree df).Ran f depth plan (some tasks) result calls) :
    CalledBelow f plan tasks (calls.map Call.pair) := by
  induction depth generalizing plan tasks result calls with
  | zero => exact absurd h ContextTree.not_ran_zero
  | succ depth ih =>
    cases h.outcome with
    | stopped hfirst hstop =>
      rw [hf _ _ _ _ _ hfirst] at hstop
      cases hstop
    | jumped hfirst _ hskip =>
      rcases hskip with hskip | hskip
      · exact absurd (hf _ _ _ _ _ hfirst) hskip
      · cases hskip
    | @entered _ _ _ _ first _ _ _ hfirst _ _ hctxs hall _ =>
      obtain ⟨below, hcalls, hlength, hbelow⟩ := hall.flatten_pairs
        (P := fun child c calls => ∀ count, c = some count → CalledBelow f child count calls)
        (fun child c first calls hran => hf.tnr_ne_stop hran)
        (fun child c first calls hran count hc => ih (hc ▸ hran))
      rw [List.map_cons, hcalls]
      refine .node hfirst hlength fun i child calls hchild hget => ?_
      refine hbelow i child calls hchild hget _ ?_
      obtain ⟨hlt, -⟩ := List.getElem?_eq_some_iff.mp hchild
      cases hctxs
      rw [← length_childTaskCounts first.data tasks] at hlt
      rw [List.getD_eq_getElem?_getD, List.getElem?_map, List.getElem?_eq_getElem hlt,
        List.getD_eq_getElem _ _ hlt]
      rfl

/-- A callback that returns its node is called on the runs of the plan. -/
theorem CalledBelow.eq_runs (hf : ∀ plan tasks state result next,
      f plan tasks state = .ok (result, next) → result.data = plan)
    {calls : List (Plan κ × ℕ)} (h : CalledBelow f plan tasks calls) : calls = plan.runs tasks := by
  induction h with
  | @node plan tasks before after result calls hresult hlength _ ih =>
    obtain rfl := hf _ _ _ _ _ hresult
    rw [← runsAll_eq_flatten hlength ih]
    generalize result.data = plan
    obtain ⟨kind, recorded, children⟩ := plan
    rfl

/-! ## From the leaves -/

/-- A callback that writes down what it was called on. -/
def reporting (f : Rewrite κ σ) : Rewrite κ (σ × List (Plan κ × ℕ)) := fun plan tasks state => do
  let (result, next) ← f plan tasks state.1
  return (result, next, state.2 ++ [(plan, tasks)])

/-- The callback is called on the node, or on the node over other children, in the tasks of the
node. -/
structure Reported (df : DataFusion κ) (run call : Plan κ × ℕ) : Prop where
  tasks : call.2 = run.2
  node : call.1 = run.1 ∨ ∃ children, run.1.replaceChildren df children = .ok call.1

section Up

variable {f : Rewrite κ σ}

theorem rewriteUpAll_reporting {children : List (Plan κ)} {counts : List ℕ}
    {state next : σ × List (Plan κ × ℕ)} {results : List (Plan κ × Bool)}
    (hchildren : ∀ child ∈ children, ∀ tasks state result next,
      rewriteUp df (reporting f) child tasks state = .ok (result, next) →
      ∃ runs calls, next.2 = state.2 ++ calls ∧ runs.Perm (child.runs tasks) ∧
        List.Forall₂ (Reported df) runs calls)
    (h : rewriteUpAll df (reporting f) children counts state = .ok (results, next)) :
    ∃ runs calls, next.2 = state.2 ++ calls ∧ runs.Perm (runsAll counts children) ∧
      List.Forall₂ (Reported df) runs calls := by
  induction children generalizing counts state results with
  | nil =>
    cases h
    exact ⟨[], [], (List.append_nil _).symm, .nil, .nil⟩
  | cons child children ih =>
    rw [List.forall_mem_cons] at hchildren
    obtain ⟨⟨result, middle⟩, hresult, h⟩ := bind_ok_iff.mp h
    obtain ⟨⟨rest, last⟩, hrest, h⟩ := bind_ok_iff.mp h
    cases h
    obtain ⟨first, calls, hmiddle, hfirst, hcalls⟩ := hchildren.1 _ _ _ _ hresult
    obtain ⟨runs, more, hlast, hruns, hmore⟩ := ih hchildren.2 hrest
    refine ⟨first ++ runs, calls ++ more, ?_, hfirst.append hruns, List.rel_append hcalls hmore⟩
    rw [hlast, hmiddle, List.append_assoc]

theorem rewriteUp_reporting {state next : σ × List (Plan κ × ℕ)} {result : Plan κ × Bool}
    (h : rewriteUp df (reporting f) plan tasks state = .ok (result, next)) :
    ∃ runs calls, next.2 = state.2 ++ calls ∧ runs.Perm (plan.runs tasks) ∧
      List.Forall₂ (Reported df) runs calls := by
  induction plan using Plan.induction generalizing tasks state result next with
  | node kind recorded children ih =>
    obtain ⟨⟨results, middle⟩, hresults, h⟩ := bind_ok_iff.mp h
    obtain ⟨⟨mapped, changed⟩, hmapped, h⟩ := bind_ok_iff.mp h
    obtain ⟨⟨⟨last, lastChanged⟩, final⟩, hlast, h⟩ := bind_ok_iff.mp h
    cases h
    obtain ⟨⟨answer, after⟩, -, hlast⟩ := bind_ok_iff.mp hlast
    cases hlast
    obtain ⟨runs, calls, hmiddle, hruns, hcalls⟩ :=
      rewriteUpAll_reporting (fun child hchild _ _ _ _ h => ih child hchild h) hresults
    have hnode : mapped = .node kind recorded children ∨
        ∃ others, (Plan.node kind recorded children).replaceChildren df others = .ok mapped := by
      unfold mapChildren at hmapped
      split at hmapped
      · obtain ⟨rebuilt, hrebuilt, hmapped⟩ := bind_ok_iff.mp hmapped
        cases hmapped
        exact .inr ⟨_, hrebuilt⟩
      · cases hmapped
        exact .inl rfl
    refine ⟨runs ++ [(.node kind recorded children, tasks)], calls ++ [(mapped, tasks)], ?_, ?_,
      List.rel_append hcalls (.cons ⟨rfl, hnode⟩ .nil)⟩
    · rw [hmiddle, List.append_assoc]
    · exact (List.perm_append_singleton _ _).trans (hruns.cons _)

end Up

/-! ## The two traversals -/

/-- What the traversals of a plan that runs in `tasks` tasks tell their callbacks. -/
structure CountsReported (df : DataFusion κ) (plan : Plan κ) (tasks : ℕ) : Prop where
  /-- From the leaves, handing the counts down does the same, where there is no stack. -/
  upStack : ∀ (σ : Type) (f : Rewrite κ σ) (state : σ),
    transformUpWithTaskCount df f plan tasks state = rewriteUp df f plan tasks state
  /-- The callback is called once for every node of the plan. -/
  up : ∀ (σ : Type) (f : Rewrite κ σ) (state next : σ) (result : Plan κ × Bool)
      (log : List (Plan κ × ℕ)),
    transformUpWithTaskCount df (reporting f) plan tasks (state, []) = .ok (result, next, log) →
      ∃ runs : List (Plan κ × ℕ), runs.Perm (plan.runs tasks) ∧
        List.Forall₂ (Reported df) runs log
  /-- From the root, too, there is a count on the stack whenever one is needed. -/
  downStack : ∀ (σ : Type) (f : RewriteCounted κ σ) (depth : ℕ) (state : σ),
    ((plan.transformDownWithTaskCount df f depth tasks state).map fun r => (r.1, r.2.2)) =
      ((taskCountTree df).descend f depth plan (some tasks) state).map fun r => (r.1, r.2.1)
  /-- The callback is called once for every node that it leads to, and nothing is left on the
  stack. -/
  down : ∀ (σ : Type) (f : RewriteCounted κ σ), Continues f → ∀ (depth : ℕ) (state next : σ)
      (result : Transformed (Plan κ)) (stack : List (Option ℕ)) (log : List (Plan κ × ℕ)),
    plan.transformDownWithTaskCount df (logged f) depth tasks (state, []) =
        .ok (result, stack, next, log) →
      CalledBelow f plan tasks log ∧ stack = []
  /-- If it returns its nodes, these are the nodes of the plan. -/
  runs : ∀ (σ : Type) (f : RewriteCounted κ σ),
    (∀ node count state result next, f node count state = .ok (result, next) →
      result.data = node) →
    ∀ calls, CalledBelow f plan tasks calls → calls = plan.runs tasks
  /-- If it leads to lighter children, the depth does not matter. -/
  stable : ∀ (σ : Type) (f : RewriteCounted κ σ) (weight : Plan κ → ℕ),
    (∀ node count state result next, f node count state = .ok (result, next) →
      ∀ child ∈ result.data.children, weight child < weight node) →
    ∀ depth > weight plan, ∀ state,
      plan.transformDownWithTaskCount df f depth tasks state =
        plan.transformDownWithTaskCount df f (weight plan + 1) tasks state

/-- The traversals call their callbacks once for each node, with the number of tasks that the node
runs in, and find its count on their stacks. -/
theorem counts_reported (df : DataFusion κ) (plan : Plan κ) (tasks : ℕ) :
    CountsReported df plan tasks where
  upStack := fun _ f => transformUp_stack df f plan tasks
  up := by
    intro σ f state next result log h
    rw [transformUp_stack] at h
    obtain ⟨runs, calls, rfl, hruns, hcalls⟩ := rewriteUp_reporting h
    exact ⟨runs, hruns, hcalls⟩
  downStack := fun _ f depth => ContextTree.popContext_eq_descend _ f depth plan (some tasks)
  down := by
    intro σ f hf depth state next result stack log h
    obtain ⟨calls, rfl, hran⟩ := ContextTree.ran_of_logged h
    exact ⟨hf.calledBelow hran, ContextTree.popContext_emptied h (hf.tnr_ne_stop hran)⟩
  runs := fun _ _ hf _ h => h.eq_runs hf
  stable := by
    intro σ f weight hlighter depth hdepth state
    exact congrFun (ContextTree.popContext_stable (taskCountTree df) hlighter hdepth)
      ([some tasks], state)

end Plan

end DatafusionDistributed
