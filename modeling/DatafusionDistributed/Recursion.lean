import DatafusionDistributed.Plan

/-!
# Traversals with task counts

A node does not know in how many tasks it runs: that follows from the stage it belongs to and
from the unions above it. `Plan.runs` lists all nodes of a plan with the number of tasks each
one runs in. `transformUpWithTaskCount` is the bottom-up rewrite of `recursion.rs`, which finds
these numbers with a stack; `transformUp_stack` shows that the stack computes them.
-/

namespace DatafusionDistributed

open Library

namespace Plan

variable {κ σ : Type}

/-- The number of tasks each child runs in, if the node runs in `tasks` tasks: a union decides
for each child, the plan of a stage runs in the tasks of the stage, and any other child runs
with its parent. -/
def childTaskCounts (plan : Plan κ) (tasks : ℕ) : List ℕ :=
  match plan.kind with
  | .childrenIsolatorUnion union => union.childTaskCounts plan.children.length
  | kind =>
    match kind.inputStage with
    | some stage => List.replicate plan.children.length stage.taskCount
    | none => List.replicate plan.children.length tasks

mutual

/-- All nodes of a plan that runs in `tasks` tasks, each with the number of tasks it runs in. -/
def runs (tasks : ℕ) : Plan κ → List (Plan κ × ℕ)
  | node kind taskCount children =>
    (node kind taskCount children, tasks) ::
      runsAll (childTaskCounts (node kind taskCount children) tasks) children

def runsAll : List ℕ → List (Plan κ) → List (Plan κ × ℕ)
  | _, [] => []
  | counts, child :: children => runs (counts.headD 0) child ++ runsAll counts.tail children

end

def ForallRuns (P : Plan κ → ℕ → Prop) (tasks : ℕ) (plan : Plan κ) : Prop :=
  ∀ run ∈ plan.runs tasks, P run.1 run.2

variable {counts : List ℕ} {children : List (Plan κ)} {P : Plan κ → ℕ → Prop}
  {tasks count depth : ℕ} {plan inner mapped : Plan κ} {stage : Stage} {kind : NodeKind κ}
  {recorded : Option TaskCountAnnotation} {results : List (Plan κ × Bool)} {df : DataFusion κ}
  {changed : Bool} {state : σ} {result : (Plan κ × Bool) × σ}

theorem getD_tail (counts : List ℕ) (i : ℕ) : counts.tail.getD i 0 = counts.getD (i + 1) 0 := by
  cases counts <;> simp

theorem mem_runsAll {run : Plan κ × ℕ} :
    run ∈ runsAll counts children ↔
      ∃ (i : ℕ) (child : Plan κ), children[i]? = some child ∧
        run ∈ child.runs (counts.getD i 0) := by
  induction children generalizing counts with
  | nil => simp [runsAll]
  | cons child children ih =>
    rw [runsAll, List.mem_append, ih, List.headD_eq_getD]
    refine Iff.trans ?_ Nat.or_exists_add_one
    simp

theorem runsAll_eq_flatten {below : List (List (Plan κ × ℕ))}
    (hlength : below.length = children.length)
    (h : ∀ (i : ℕ) (child : Plan κ) (runs : List (Plan κ × ℕ)), children[i]? = some child →
      below[i]? = some runs → runs = child.runs (counts.getD i 0)) :
    runsAll counts children = below.flatten := by
  induction children generalizing counts below with
  | nil =>
    rw [List.length_eq_zero_iff.mp hlength]
    rfl
  | cons child children ih =>
    obtain ⟨first, below, rfl⟩ := List.exists_cons_of_length_eq_add_one hlength
    rw [runsAll, h 0 child first rfl rfl, List.headD_eq_getD]
    congr 1
    refine ih (by simpa using hlength) fun i other runs hi hruns => ?_
    rw [h (i + 1) other runs hi hruns, getD_tail]

theorem forallRuns_iff :
    ForallRuns P tasks plan ↔
      P plan tasks ∧ ∀ (i : ℕ) (child : Plan κ), plan.children[i]? = some child →
        ForallRuns P ((plan.childTaskCounts tasks).getD i 0) child := by
  obtain ⟨kind, taskCount, children⟩ := plan
  unfold ForallRuns
  rw [runs, List.forall_mem_cons]
  refine and_congr_right fun _ => ⟨fun h i child hi run hrun => ?_, fun h run hrun => ?_⟩
  · exact h run (mem_runsAll.mpr ⟨i, child, hi, hrun⟩)
  · obtain ⟨i, child, hi, hrun⟩ := mem_runsAll.mp hrun
    exact h i child hi run hrun

/-- The runs of a node of the plan are runs of the plan. -/
theorem runs_trans (h : (inner, count) ∈ plan.runs tasks) :
    ∀ run ∈ inner.runs count, run ∈ plan.runs tasks := by
  induction plan using Plan.induction generalizing tasks with
  | node kind taskCount children ih =>
    intro run hrun
    rcases List.mem_cons.mp h with hroot | hbelow
    · cases hroot
      rwa [runs] at hrun
    · obtain ⟨i, child, hi, hchild⟩ := mem_runsAll.mp hbelow
      exact List.mem_cons_of_mem _ (mem_runsAll.mpr
        ⟨i, child, hi, ih child (List.mem_of_getElem? hi) hchild run hrun⟩)

theorem ForallRuns.of_mem (h : ForallRuns P tasks plan) (hmem : (inner, count) ∈ plan.runs tasks) :
    ForallRuns P count inner :=
  fun run hrun => h run (runs_trans hmem run hrun)

/-- A property that every node of the plan gives to its children. -/
theorem forallRuns_of_parent (hroot : P plan tasks)
    (hstep : ∀ run ∈ plan.runs tasks, ∀ (i : ℕ) (child : Plan κ), run.1.children[i]? = some child →
      P child ((run.1.childTaskCounts run.2).getD i 0)) : ForallRuns P tasks plan := by
  induction plan using Plan.induction generalizing tasks with
  | node kind taskCount children ih =>
    refine forallRuns_iff.mpr ⟨hroot, ?_⟩
    intro i child hi
    refine ih child (List.mem_of_getElem? hi) (hstep _ List.mem_cons_self i child hi) ?_
    intro run hrun
    exact hstep run (List.mem_cons_of_mem _ (mem_runsAll.mpr ⟨i, child, hi, hrun⟩))

theorem forallRuns_of_everywhere {P : Plan κ → Prop} (h : plan.Everywhere P) (tasks : ℕ) :
    ForallRuns (fun plan _ => P plan) tasks plan := by
  induction h generalizing tasks with
  | node hnode _ ih =>
    exact forallRuns_iff.mpr ⟨hnode, fun i child hi => ih child (List.mem_of_getElem? hi) _⟩

theorem length_foldl_of_step {α β : Type} {step : List β → α → List β}
    (hstep : ∀ counts x, (step counts x).length = counts.length) (xs : List α)
    (counts : List β) : (xs.foldl step counts).length = counts.length := by
  induction xs generalizing counts with
  | nil => rfl
  | cons x xs ih => rw [List.foldl_cons, ih, hstep]

theorem length_unionTaskCounts (union : UnionTasks) (n : ℕ) :
    (union.childTaskCounts n).length = n := by
  unfold UnionTasks.childTaskCounts
  rw [length_foldl_of_step, List.length_replicate]
  intro counts childrenInTask
  apply length_foldl_of_step
  intro counts task
  exact List.length_modify ..

theorem length_childTaskCounts (plan : Plan κ) (tasks : ℕ) :
    (plan.childTaskCounts tasks).length = plan.children.length := by
  unfold childTaskCounts
  split
  · exact length_unionTaskCounts _ _
  · split <;> exact List.length_replicate

theorem childTaskCounts_boundary (tasks : ℕ) (h : plan.kind.inputStage = some stage) :
    plan.childTaskCounts tasks = List.replicate plan.children.length stage.taskCount := by
  obtain ⟨kind, recorded, children⟩ := plan
  cases kind <;> cases h <;> rfl

theorem childTaskCounts_transparent (tasks : ℕ) (h : plan.kind.isTransparent = true) :
    plan.childTaskCounts tasks = List.replicate plan.children.length tasks := by
  obtain ⟨kind, recorded, children⟩ := plan
  cases kind <;> first
    | rfl
    | cases h

theorem forallRuns_of_replicate
    (hcounts : plan.childTaskCounts tasks = List.replicate plan.children.length count) :
    ForallRuns P tasks plan ↔
      P plan tasks ∧ ∀ child ∈ plan.children, ForallRuns P count child := by
  rw [forallRuns_iff, hcounts]
  have hcount : ∀ {i : ℕ} {child : Plan κ}, plan.children[i]? = some child →
      (List.replicate plan.children.length count).getD i 0 = count :=
    fun hi => List.getD_replicate _ (List.getElem?_eq_some_iff.mp hi).1
  refine and_congr_right fun _ => ⟨fun h child hchild => ?_, fun h i child hi => ?_⟩
  · obtain ⟨i, hi⟩ := List.mem_iff_getElem?.mp hchild
    exact hcount hi ▸ h i child hi
  · rw [hcount hi]
    exact h child (List.mem_of_getElem? hi)

theorem forallRuns_boundary (h : kind.inputStage = some stage) :
    ForallRuns P tasks (node kind recorded children) ↔
      P (node kind recorded children) tasks ∧
        ∀ child ∈ children, ForallRuns P stage.taskCount child :=
  forallRuns_of_replicate (childTaskCounts_boundary tasks h)

theorem forallRuns_transparent (h : kind.isTransparent = true) :
    ForallRuns P tasks (node kind recorded children) ↔
      P (node kind recorded children) tasks ∧ ∀ child ∈ children, ForallRuns P tasks child :=
  forallRuns_of_replicate (childTaskCounts_transparent tasks h)

/-- A property that passes from any number of tasks to a single one survives running the plan
in one. -/
theorem forallRuns_one (hone : ∀ plan tasks, P plan tasks → P plan 1)
    (h : ForallRuns P tasks plan) :
    ForallRuns P 1 plan := by
  induction plan using Plan.induction generalizing tasks with
  | node kind taskCount children ih =>
    by_cases htransparent : kind.isTransparent = true
    · rw [forallRuns_transparent htransparent] at h ⊢
      exact ⟨hone _ _ h.1, fun child hchild => ih child hchild (h.2 child hchild)⟩
    · -- The tasks of the children of a union or a boundary do not depend on those of the node.
      have hcounts : childTaskCounts (node kind taskCount children) 1 =
          childTaskCounts (node kind taskCount children) tasks := by
        cases kind <;> first
          | rfl
          | exact absurd rfl htransparent
      rw [forallRuns_iff] at h ⊢
      rw [hcounts]
      exact ⟨hone _ _ h.1, h.2⟩

/-! ## The rewrite -/

/-- A rewrite of one node, given the number of tasks it runs in: the new node, whether it was
changed, and the state it carries along. -/
abbrev Rewrite (κ σ : Type) := Plan κ → ℕ → σ → Result ((Plan κ × Bool) × σ)

/-- `map_children`: the node is rebuilt if some child was changed. -/
def mapChildren (df : DataFusion κ) (plan : Plan κ) (results : List (Plan κ × Bool)) :
    Result (Plan κ × Bool) :=
  if results.any Prod.snd then do
    let plan ← plan.replaceChildren df (results.map Prod.fst)
    return (plan, true)
  else .ok (plan, false)

theorem map_fst_of_unchanged
    (h : List.Forall₂ (fun child result => result.2 = false → result.1 = child) children results)
    (hany : results.any Prod.snd = false) : results.map Prod.fst = children := by
  induction h with
  | nil => rfl
  | cons hfirst _ ih =>
    rw [List.any_cons, Bool.or_eq_false_iff] at hany
    rw [List.map_cons, hfirst hany.1, ih hany.2]

/-- What is left of a node after its children were rewritten: it is rebuilt if one changed, and
otherwise it is what it was. -/
theorem mapChildren_ok (hsame : results.any Prod.snd = false → results.map Prod.fst = plan.children)
    (h : mapChildren df plan results = .ok (mapped, changed)) :
    (plan.replaceChildren df (results.map Prod.fst) = .ok mapped ∧ changed = true ∧
        results ≠ []) ∨
      mapped = plan ∧ results.map Prod.fst = plan.children ∧ changed = false := by
  unfold mapChildren at h
  split at h
  · rename_i hany
    obtain ⟨rebuilt, hrebuilt, h⟩ := bind_ok_iff.mp h
    cases h
    refine .inl ⟨hrebuilt, rfl, ?_⟩
    intro hnil
    rw [hnil] at hany
    cases hany
  · rename_i hany
    cases h
    exact .inr ⟨rfl, hsame (Bool.eq_false_iff.mpr hany), rfl⟩

mutual

/-- The walk of `transform_up_with_task_count`. The last element of the stack of the source is
the first one here. -/
def walkUp (df : DataFusion κ) (f : Rewrite κ σ) :
    Plan κ → List ℕ → σ → Result ((Plan κ × Bool) × List ℕ × σ)
  | node _ _ _, [], _ => .error (.panic "called Option::unwrap() on a None value")
  | node kind taskCount children, cur :: rest, state => do
    let childTcs := childTaskCounts (node kind taskCount children) cur
    let (results, stack, state) ← walkUpAll df f children (childTcs ++ cur :: rest) state
    let (plan, childrenChanged) ← mapChildren df (node kind taskCount children) results
    match stack with
    | [] => .error (.panic "called Option::unwrap() on a None value")
    | tc :: stack => do
      let ((plan, changed), state) ← f plan tc state
      return ((plan, childrenChanged || changed), stack, state)

def walkUpAll (df : DataFusion κ) (f : Rewrite κ σ) :
    List (Plan κ) → List ℕ → σ → Result (List (Plan κ × Bool) × List ℕ × σ)
  | [], stack, state => .ok ([], stack, state)
  | child :: children, stack, state => do
    let (result, stack, state) ← walkUp df f child stack state
    let (results, stack, state) ← walkUpAll df f children stack state
    return (result :: results, stack, state)

end

def transformUpWithTaskCount (df : DataFusion κ) (f : Rewrite κ σ) (plan : Plan κ) (tasks : ℕ)
    (state : σ) : Result ((Plan κ × Bool) × σ) := do
  let (result, _, state) ← walkUp df f plan [tasks] state
  return (result, state)

mutual

/-- The same rewrite, with the task count of each node passed down to it. -/
def rewriteUp (df : DataFusion κ) (f : Rewrite κ σ) :
    Plan κ → ℕ → σ → Result ((Plan κ × Bool) × σ)
  | node kind taskCount children, tasks, state => do
    let (results, state) ← rewriteUpAll df f children
      (childTaskCounts (node kind taskCount children) tasks) state
    let (plan, childrenChanged) ← mapChildren df (node kind taskCount children) results
    let ((plan, changed), state) ← f plan tasks state
    return ((plan, childrenChanged || changed), state)

def rewriteUpAll (df : DataFusion κ) (f : Rewrite κ σ) :
    List (Plan κ) → List ℕ → σ → Result (List (Plan κ × Bool) × σ)
  | [], _, state => .ok ([], state)
  | child :: children, counts, state => do
    let (result, state) ← rewriteUp df f child (counts.headD 0) state
    let (results, state) ← rewriteUpAll df f children counts.tail state
    return (result :: results, state)

end

/-- Walking a node takes its count from the stack and leaves the rest. -/
theorem walkUp_eq (df : DataFusion κ) (f : Rewrite κ σ) (plan : Plan κ) (tasks : ℕ)
    (stack : List ℕ) (state : σ) :
    walkUp df f plan (tasks :: stack) state =
      (rewriteUp df f plan tasks state).map fun (result, state) => (result, stack, state) := by
  induction plan using Plan.induction generalizing tasks stack state with
  | node kind taskCount children ih =>
    have hall : ∀ (cs : List (Plan κ)), (∀ c ∈ cs, c ∈ children) → ∀ (counts : List ℕ),
        counts.length = cs.length → ∀ (stack : List ℕ) (state : σ),
        walkUpAll df f cs (counts ++ stack) state =
          (rewriteUpAll df f cs counts state).map
            fun (results, state) => (results, stack, state) := by
      intro cs hsub
      induction cs with
      | nil =>
        intro counts hlen stack state
        rw [List.length_eq_zero_iff.mp hlen]
        rfl
      | cons child cs ihcs =>
        intro counts hlen stack state
        obtain ⟨count, counts, rfl⟩ := List.exists_cons_of_length_eq_add_one hlen
        rw [walkUpAll, rewriteUpAll, List.cons_append, ih child (hsub child List.mem_cons_self),
          List.headD_cons, List.tail_cons]
        cases hchild : rewriteUp df f child count state with
        | error e => rfl
        | ok r =>
          obtain ⟨result, state⟩ := r
          have hrest := ihcs (fun c hc => hsub c (List.mem_cons_of_mem _ hc)) counts
            (by simpa using hlen) stack state
          simp only [Except.map, bind, Except.bind, hrest]
          cases rewriteUpAll df f cs counts state <;> rfl
    have hchildren := hall children (fun _ h => h)
      (childTaskCounts (node kind taskCount children) tasks) (length_childTaskCounts _ _)
      (tasks :: stack) state
    rw [walkUp, rewriteUp]
    rw [hchildren]
    cases hresults : rewriteUpAll df f children
      (childTaskCounts (node kind taskCount children) tasks) state with
    | error e => rfl
    | ok r =>
      obtain ⟨results, state⟩ := r
      simp only [Except.map, bind, Except.bind]
      cases mapChildren df (node kind taskCount children) results with
      | error e => rfl
      | ok mapped =>
        obtain ⟨plan, changed⟩ := mapped
        dsimp only
        cases f plan tasks state <;> rfl

/-- The stack of `transform_up_with_task_count` computes the task count of every node. -/
theorem transformUp_stack (df : DataFusion κ) (f : Rewrite κ σ) (plan : Plan κ) (tasks : ℕ)
    (state : σ) :
    transformUpWithTaskCount df f plan tasks state = rewriteUp df f plan tasks state := by
  rw [transformUpWithTaskCount, walkUp_eq]
  cases rewriteUp df f plan tasks state <;> rfl

variable {f : Rewrite κ σ}

theorem rewriteUpAll_ok {state' : σ}
    (h : rewriteUpAll df f children counts state = .ok (results, state')) :
    results.length = children.length ∧
      ∀ (i : ℕ) (child : Plan κ) (result : Plan κ × Bool), children[i]? = some child →
        results[i]? = some result → ∃ before after,
          rewriteUp df f child (counts.getD i 0) before = .ok (result, after) := by
  induction children generalizing counts state results with
  | nil =>
    cases h
    simp
  | cons child children ih =>
    obtain ⟨⟨result, next⟩, hresult, h⟩ := bind_ok_iff.mp h
    obtain ⟨⟨rest, last⟩, hrest, h⟩ := bind_ok_iff.mp h
    cases h
    obtain ⟨hlength, hall⟩ := ih hrest
    refine ⟨by rw [List.length_cons, List.length_cons, hlength], ?_⟩
    intro i other found hi hfound
    cases i with
    | zero =>
      cases hi
      cases hfound
      exact ⟨state, next, List.headD_eq_getD ▸ hresult⟩
    | succ i => exact getD_tail counts i ▸ hall i other found hi hfound

/-- A rewrite that leaves all nodes but network boundaries alone and reports every change. -/
structure OnBoundaries (f : Rewrite κ σ) : Prop where
  keeps : ∀ {plan out : Plan κ} {tasks : ℕ} {state next : σ} {changed : Bool},
    plan.kind.inputStage = none → f plan tasks state = .ok ((out, changed), next) →
    out = plan ∧ changed = false
  honest : ∀ {plan out : Plan κ} {tasks : ℕ} {state next : σ},
    f plan tasks state = .ok ((out, false), next) → out = plan

variable {out child : Plan κ} {next : σ} {newChildren : List (Plan κ)} {I : σ → Prop}
  {measure : Plan κ → ℕ}

/-- A rewrite reports every change. -/
theorem rewriteUp_honest (hf : OnBoundaries f)
    (h : rewriteUp df f plan tasks state = .ok ((out, false), next)) : out = plan := by
  obtain ⟨kind, recorded, children⟩ := plan
  obtain ⟨⟨results, mid⟩, hresults, h⟩ := bind_ok_iff.mp h
  obtain ⟨⟨mapped, childrenChanged⟩, hmapped, h⟩ := bind_ok_iff.mp h
  obtain ⟨⟨⟨last, lastChanged⟩, final⟩, hlast, h⟩ := bind_ok_iff.mp h
  have hflags : last = out ∧ (childrenChanged || lastChanged) = false := by
    simpa using And.intro (congrArg (fun result => result.1.1) (Except.ok.inj h))
      (congrArg (fun result => result.1.2) (Except.ok.inj h))
  obtain ⟨rfl, hflags⟩ := hflags
  obtain ⟨rfl, rfl⟩ := Bool.or_eq_false_iff.mp hflags
  rw [hf.honest hlast]
  unfold mapChildren at hmapped
  split at hmapped
  · obtain ⟨rebuilt, -, hmapped⟩ := bind_ok_iff.mp hmapped
    cases hmapped
  · cases hmapped
    rfl

/-- What a rewrite has made of a node when it comes to the node itself: the children are
rewritten, and the node is rebuilt if one of them was changed. -/
structure Mapped (df : DataFusion κ) (f : Rewrite κ σ) (plan : Plan κ) (tasks : ℕ)
    (newChildren : List (Plan κ)) (mapped : Plan κ) : Prop where
  length_eq : newChildren.length = plan.children.length
  rewritten : ∀ (i : ℕ) (child newChild : Plan κ), plan.children[i]? = some child →
    newChildren[i]? = some newChild → ∃ before flag after,
      rewriteUp df f child ((plan.childTaskCounts tasks).getD i 0) before
        = .ok ((newChild, flag), after)
  rebuilt : mapped = plan ∧ newChildren = plan.children ∨
    plan.replaceChildren df newChildren = .ok mapped ∧ newChildren ≠ []

/-- A rewrite first rewrites the children, one after the other, and then the node. -/
theorem rewriteUp_ok (hf : OnBoundaries f)
    (h : rewriteUp df f (node kind recorded children) tasks state = .ok result) :
    ∃ results mid mapped flag,
      rewriteUpAll df f children (childTaskCounts (node kind recorded children) tasks) state
        = .ok (results, mid) ∧
      Mapped df f (node kind recorded children) tasks (results.map Prod.fst) mapped ∧
      f mapped tasks mid = .ok ((result.1.1, flag), result.2) := by
  obtain ⟨⟨results, mid⟩, hresults, h⟩ := bind_ok_iff.mp h
  obtain ⟨⟨mapped, childrenChanged⟩, hmapped, h⟩ := bind_ok_iff.mp h
  obtain ⟨⟨⟨last, lastChanged⟩, final⟩, hlast, h⟩ := bind_ok_iff.mp h
  cases h
  obtain ⟨hlength, hall⟩ := rewriteUpAll_ok hresults
  have hsame : results.any Prod.snd = false → results.map Prod.fst = children := by
    apply map_fst_of_unchanged
    rw [List.forall₂_iff_get]
    refine ⟨hlength.symm, ?_⟩
    intro i hlt hlt' hfalse
    obtain ⟨before, after, hrun⟩ := hall i _ _ (List.getElem?_eq_getElem hlt)
      (List.getElem?_eq_getElem hlt')
    have hfound : (results.get ⟨i, hlt'⟩) = ((results.get ⟨i, hlt'⟩).1, false) := by
      rw [← hfalse]
    exact rewriteUp_honest hf (hrun.trans (congrArg (fun found => Except.ok (found, after)) hfound))
  refine ⟨results, mid, mapped, lastChanged, hresults, ⟨?_, ?_, ?_⟩, hlast⟩
  · rw [List.length_map, hlength]
    rfl
  · intro i child newChild hi hnew
    rw [List.getElem?_map, Option.map_eq_some_iff] at hnew
    obtain ⟨⟨plan, flag⟩, hfound, rfl⟩ := hnew
    obtain ⟨before, after, hrun⟩ := hall i child _ hi hfound
    exact ⟨before, flag, after, hrun⟩
  · rcases mapChildren_ok hsame hmapped with ⟨hrebuilt, -, hne⟩ | ⟨rfl, hkeep, -⟩
    · exact .inr ⟨hrebuilt, by simpa using hne⟩
    · exact .inl ⟨rfl, hkeep⟩

/-- A boundary over the rewritten plan of its stage. -/
theorem Mapped.boundary {staged : Plan κ} (hstage : kind.inputStage = some stage)
    (h : Mapped df f (node kind recorded [staged]) tasks newChildren mapped) :
    ∃ newStaged newKind newRecorded before flag after,
      newChildren = [newStaged] ∧ mapped = node newKind newRecorded [newStaged] ∧
        (newKind = kind ∧ newStaged = staged ∨
          newKind = kind.withNewChildren [newStaged.properties df]) ∧
        rewriteUp df f staged stage.taskCount before = .ok ((newStaged, flag), after) := by
  obtain ⟨newStaged, rfl⟩ := List.length_eq_one_iff.mp h.length_eq
  obtain ⟨before, flag, after, hrun⟩ := h.rewritten 0 staged newStaged rfl rfl
  rw [childTaskCounts_boundary tasks (by exact hstage)] at hrun
  rcases h.rebuilt with ⟨rfl, hsame⟩ | ⟨hrebuilt, -⟩
  · cases hsame
    exact ⟨_, kind, recorded, before, flag, after, rfl, rfl, .inl ⟨rfl, rfl⟩, hrun⟩
  · exact ⟨_, _, none, before, flag, after, rfl,
      replaceChildren_boundary (by exact hstage) hrebuilt, .inr rfl, hrun⟩

/-- A node that is no boundary, after such a rewrite: a union is rebuilt if a child was changed,
and any other node is what it was. -/
theorem rewriteUp_inner (hf : OnBoundaries f) (hkind : kind.inputStage = none)
    (h : rewriteUp df f (node kind recorded children) tasks state = .ok result) :
    ∃ newChildren newRecorded, newChildren.length = children.length ∧
      (∀ (i : ℕ) (child newChild : Plan κ), children[i]? = some child →
        newChildren[i]? = some newChild → ∃ before flag after,
          rewriteUp df f child ((childTaskCounts (node kind recorded children) tasks).getD i 0)
            before = .ok ((newChild, flag), after)) ∧
      ((∃ union newUnion, kind = .childrenIsolatorUnion union ∧
          result.1.1 = node (.childrenIsolatorUnion newUnion) newRecorded newChildren ∧
          (newUnion = union ∧ newChildren = children ∨
            ∃ rebuilt, ChildrenIsolatorUnionExec.withNewChildren (childOps df) ⟨union, children⟩
              newChildren = .ok rebuilt ∧ newUnion = rebuilt.toUnionTasks)) ∨
        kind.isTransparent = true ∧ result.1.1 = node kind newRecorded newChildren) := by
  obtain ⟨results, before, mapped, flag, -, hmapped, hlast⟩ := rewriteUp_ok hf h
  generalize results.map Prod.fst = newChildren at hmapped
  obtain ⟨hlength, hall, hmapped⟩ := hmapped
  rcases NodeKind.union_or_transparent (congrArg Option.isSome hkind) with
    ⟨union, rfl⟩ | htransparent
  · rcases hmapped with ⟨rfl, hkeep⟩ | ⟨hrebuilt, -⟩
    · obtain ⟨hout, -⟩ := hf.keeps (by exact hkind) hlast
      refine ⟨newChildren, recorded, hlength, hall, .inl ⟨union, union, rfl, ?_, ?_⟩⟩
      · rw [hout, hkeep, children_node]
      · exact .inl ⟨rfl, hkeep⟩
    · obtain ⟨rebuilt, hnew, rfl⟩ := replaceChildren_union rfl hrebuilt
      obtain ⟨hout, -⟩ := hf.keeps (by exact hkind) hlast
      exact ⟨newChildren, none, hlength, hall,
        .inl ⟨union, _, rfl, hout, .inr ⟨rebuilt, hnew, rfl⟩⟩⟩
  · rcases hmapped with ⟨rfl, hkeep⟩ | ⟨hrebuilt, -⟩
    · obtain ⟨hout, -⟩ := hf.keeps (by exact hkind) hlast
      refine ⟨newChildren, recorded, hlength, hall, .inr ⟨htransparent, ?_⟩⟩
      rw [hout, hkeep, children_node]
    · have hshape := replaceChildren_transparent (by exact htransparent) hrebuilt
      subst hshape
      obtain ⟨hout, -⟩ := hf.keeps (by exact hkind) hlast
      exact ⟨newChildren, none, hlength, hall, .inr ⟨htransparent, hout⟩⟩

/-- A node with one child that is neither a boundary nor a union. -/
theorem rewriteUp_unary (hf : OnBoundaries f) (hkind : kind.isTransparent = true)
    (h : rewriteUp df f (node kind recorded [child]) tasks state = .ok result) :
    ∃ newRecorded newChild before flag after, result.1.1 = node kind newRecorded [newChild] ∧
      rewriteUp df f child tasks before = .ok ((newChild, flag), after) := by
  obtain ⟨newChildren, newRecorded, hlength, hall, hout⟩ :=
    rewriteUp_inner hf (NodeKind.inputStage_of_transparent hkind) h
  obtain ⟨newChild, rfl⟩ := List.length_eq_one_iff.mp hlength
  obtain ⟨before, flag, after, hrun⟩ := hall 0 child newChild rfl rfl
  rw [childTaskCounts_transparent tasks (by exact hkind)] at hrun
  rcases hout with ⟨union, newUnion, rfl, -, -⟩ | ⟨-, hout⟩
  · cases hkind
  · exact ⟨newRecorded, newChild, before, flag, after, hout, hrun⟩

mutual

/-- The weight of the heaviest path from the root to a leaf. -/
def height (weight : NodeKind κ → ℕ) : Plan κ → ℕ
  | node kind _ children => weight kind + heightAll weight children

def heightAll (weight : NodeKind κ → ℕ) : List (Plan κ) → ℕ
  | [] => 0
  | child :: children => max (height weight child) (heightAll weight children)

end

theorem height_le_heightAll (weight : NodeKind κ → ℕ) (h : child ∈ children) :
    child.height weight ≤ heightAll weight children := by
  induction children with
  | nil => cases h
  | cons first children ih =>
    rcases List.mem_cons.mp h with rfl | hmem
    · exact le_max_left _ _
    · exact le_trans (ih hmem) (le_max_right _ _)

theorem height_child_lt {weight : NodeKind κ → ℕ} (hweight : ∀ kind, 0 < weight kind)
    (h : child ∈ plan.children) : child.height weight < plan.height weight := by
  obtain ⟨kind, recorded, children⟩ := plan
  have hle := height_le_heightAll weight h
  have hpos := hweight kind
  rw [height]
  rw [children_node] at hle
  omega

/-- `transform_down`, up to a given depth: the node is rewritten first, then the children of the
new node. -/
def transformDownWithin (df : DataFusion κ) (f : Plan κ → Result (Plan κ × Bool)) :
    ℕ → Plan κ → Result (Plan κ × Bool)
  | 0, _ => .error (.panic "stack overflow")
  | depth + 1, plan => do
    let (plan, changed) ← f plan
    let results ← plan.children.mapM (transformDownWithin df f depth)
    let (plan, childrenChanged) ← mapChildren df plan results
    return (plan, changed || childrenChanged)

/-- `transform_down`. The recursion follows the rewritten plan, so `weight` says how deep it
goes below a node of each kind. -/
def transformDown (df : DataFusion κ) (f : Plan κ → Result (Plan κ × Bool))
    (weight : NodeKind κ → ℕ) (plan : Plan κ) : Result (Plan κ) := do
  let (plan, _) ← transformDownWithin df f (plan.height weight + 1) plan
  return plan

/-- `transformDownWithin` with any result at depth zero. -/
def transformDownOr (bottom : Plan κ → Result (Plan κ × Bool)) (df : DataFusion κ)
    (f : Plan κ → Result (Plan κ × Bool)) : ℕ → Plan κ → Result (Plan κ × Bool)
  | 0, plan => bottom plan
  | depth + 1, plan => do
    let (plan, changed) ← f plan
    let results ← plan.children.mapM (transformDownOr bottom df f depth)
    let (plan, childrenChanged) ← mapChildren df plan results
    return (plan, changed || childrenChanged)

section TransformDown

variable {f : Plan κ → Result (Plan κ × Bool)}

/-- If every rewrite leads to lighter children, a depth above the weight of a plan is enough: the
recursion does not come to depth zero, whatever its result would be there. -/
theorem transformDownOr_eq (bottom : Plan κ → Result (Plan κ × Bool))
    (hf : ∀ plan next changed, f plan = .ok (next, changed) →
      ∀ child ∈ next.children, measure child < measure plan) {other : ℕ}
    (hdepth : measure plan < depth) (hother : measure plan < other) :
    transformDownOr bottom df f depth plan = transformDownWithin df f other plan := by
  induction depth generalizing plan other with
  | zero => exact absurd hdepth (Nat.not_lt_zero _)
  | succ depth ih =>
    obtain ⟨other, rfl⟩ := Nat.exists_eq_succ_of_ne_zero (Nat.ne_zero_of_lt hother)
    rw [transformDownOr, transformDownWithin]
    cases hrun : f plan with
    | error e => rfl
    | ok result =>
      obtain ⟨next, changed⟩ := result
      have hmap : next.children.mapM (transformDownOr bottom df f depth) =
          next.children.mapM (transformDownWithin df f other) := by
        apply mapM_congr
        intro child hchild
        have hlt := hf plan next changed hrun child hchild
        exact ih (by omega) (by omega)
      simp only [bind, Except.bind, hmap]

/-- Nothing is left to do below a rewritten node whose children stay as they are. -/
theorem transformDownWithin_of_step {next : Plan κ} (hstep : f plan = .ok (next, changed))
    (hchildren : ∀ child ∈ next.children,
      transformDownWithin df f depth child = .ok (child, false)) :
    transformDownWithin df f (depth + 1) plan = .ok (next, changed) := by
  have hresults : next.children.mapM (transformDownWithin df f depth) =
      .ok (next.children.map fun child => (child, false)) := by
    rw [mapM_ok_iff, List.forall₂_map_right_iff, List.forall₂_same]
    exact hchildren
  have hany : (next.children.map fun child => (child, false)).any Prod.snd = false := by
    simp
  rw [transformDownWithin, hstep]
  simp only [bind, Except.bind, hresults, mapChildren, hany, Bool.false_eq_true, if_false, pure,
    Except.pure, Bool.or_false]

theorem transformDownWithin_of_everywhere (hf : ∀ plan next changed, f plan = .ok (next, changed) →
      ∀ child ∈ next.children, measure child < measure plan)
    (h : plan.Everywhere fun plan => f plan = .ok (plan, false)) (hdepth : measure plan < depth) :
    transformDownWithin df f depth plan = .ok (plan, false) := by
  induction h generalizing depth with
  | node hnode _ ih =>
    obtain ⟨depth, rfl⟩ := Nat.exists_eq_succ_of_ne_zero (Nat.ne_of_gt (Nat.zero_lt_of_lt hdepth))
    apply transformDownWithin_of_step hnode
    intro child hchild
    have hlt := hf _ _ _ hnode child hchild
    exact ih child hchild (by omega)

/-- The rewrite of the root is all there is to do if no node below it is rewritten. -/
theorem transformDown_of_step {weight : NodeKind κ → ℕ}
    (hf : ∀ plan next changed, f plan = .ok (next, changed) →
      ∀ child ∈ next.children, child.height weight < plan.height weight) {next : Plan κ}
    (hstep : f plan = .ok (next, changed)) (hchildren : ∀ child ∈ next.children,
      child.Everywhere fun plan => f plan = .ok (plan, false)) :
    transformDown df f weight plan = .ok next := by
  unfold transformDown
  rw [transformDownWithin_of_step hstep]
  · rfl
  · intro child hchild
    exact transformDownWithin_of_everywhere hf (hchildren child hchild)
      (hf plan next changed hstep child hchild)

/-- What one step of `transform_down` consists of, for a rewrite that only reports no change
when there is none. -/
theorem transformDownWithin_ok (hf : ∀ plan next, f plan = .ok (next, false) → next = plan)
    (h : transformDownWithin df f depth plan = .ok (out, changed)) :
    (changed = false → out = plan) ∧ ∃ rest next flag newChildren, depth = rest + 1 ∧
      f plan = .ok (next, flag) ∧
      List.Forall₂ (fun child newChild => ∃ flag,
        transformDownWithin df f rest child = .ok (newChild, flag)) next.children newChildren ∧
      (next.replaceChildren df newChildren = .ok out ∨
        out = next ∧ newChildren = next.children) := by
  induction depth generalizing plan out changed with
  | zero => cases h
  | succ depth ih =>
    obtain ⟨⟨next, flag⟩, hnext, h⟩ := bind_ok_iff.mp h
    obtain ⟨results, hresults, h⟩ := bind_ok_iff.mp h
    obtain ⟨⟨mapped, childrenChanged⟩, hmapped, h⟩ := bind_ok_iff.mp h
    cases h
    have hpairs := mapM_ok_iff.mp hresults
    have hsame : results.any Prod.snd = false → results.map Prod.fst = next.children := by
      apply map_fst_of_unchanged
      refine hpairs.imp ?_
      intro child result hresult hflag
      exact (ih hresult).1 hflag
    have hcases := mapChildren_ok hsame hmapped
    refine ⟨?_, depth, next, flag, results.map Prod.fst, rfl, hnext, ?_, ?_⟩
    · intro hunchanged
      rw [Bool.or_eq_false_iff] at hunchanged
      obtain ⟨rfl, rfl⟩ := hunchanged
      rcases hcases with ⟨-, htrue, -⟩ | ⟨rfl, -, -⟩
      · cases htrue
      · exact hf plan _ hnext
    · rw [List.forall₂_map_right_iff]
      exact hpairs.imp fun child result hresult => ⟨result.2, hresult⟩
    · rcases hcases with ⟨hrebuilt, -, -⟩ | ⟨hkept, hchildren, -⟩
      · exact .inl hrebuilt
      · exact .inr ⟨hkept, hchildren⟩

end TransformDown

end Plan

end DatafusionDistributed
