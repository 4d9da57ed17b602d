import DatafusionDistributed.DistributedPlanner.CoalesceTasks

/-!
# Task-count restrictions are honoured

Event handlers may restrict the number of tasks that a node runs in. The planner merges the
restrictions of a stage on the way up, weakens them at unions, and pushes the resolved task count
down again. `Honours` says that a planned tree runs every node of the plan it was made from in a
number of tasks that the handlers allow for the node. The nodes of a stage share their number of
tasks, apart from the children of a union, so every node also meets the restrictions of the nodes
below it in its stage.
-/

namespace DatafusionDistributed

open Library Plan

variable {κ : Type} {session : Session κ} {df : DataFusion κ} {M : ℕ}

/-! ## Declared restrictions -/

/-- The nodes whose event handlers are asked. Unions and the joins that collect their build side
are managed by the planner. -/
def Session.asksHandlers (session : Session κ) (plan : Plan κ) : Bool :=
  plan.children.isEmpty ||
    (plan.kind.isTransparent && !collectsInOneTask session.config.broadcastJoins plan.kind)

/-- The handlers of a node allow it to run in `tasks` tasks. -/
def Declared (session : Session κ) (plan : Plan κ) (tasks : ℕ) : Prop :=
  session.asksHandlers plan = true → ∀ taskCount, session.desiredTaskCount plan =
    some (.ok taskCount) → taskCount.restriction.Allows tasks

variable {plan out : Plan κ} {processed : List (Plan κ)} {taskCount : TaskCountAnnotation}
  {tasks : ℕ}

/-- The task count that a node asks for by itself. A union asks for none. -/
def ownTaskCount (session : Session κ) (plan : Plan κ) : Result TaskCountAnnotation :=
  if plan.children.isEmpty then desiredOr session plan (.ofExact 1 0)
  else if plan.kind.isTransparent then
    if collectsInOneTask session.config.broadcastJoins plan.kind then .ok (.ofExact 1 0)
    else desiredOr session plan (.ofSoft 0)
  else .ok (.ofSoft 0)

theorem reconcile_own (hlocal : plan.IsLocal)
    (h : reconcile session plan processed = .ok taskCount)
    (hallows : taskCount.restriction.Allows tasks) :
    ∃ own, ownTaskCount session plan = .ok own ∧ own.restriction.Allows tasks := by
  unfold reconcile at h
  unfold ownTaskCount
  by_cases hleaf : plan.children.isEmpty = true
  · rw [if_pos hleaf] at h ⊢
    exact ⟨taskCount, h, hallows⟩
  · rw [if_neg hleaf] at h ⊢
    rcases hlocal.union_or_transparent with ⟨union, hunion⟩ | htransparent
    · rw [hunion]
      exact ⟨_, rfl, hallows.pos⟩
    · rw [if_pos htransparent]
      split at h
      · rename_i union hunion
        rw [hunion] at htransparent
        cases htransparent
      · by_cases hcollects : collectsInOneTask session.config.broadcastJoins plan.kind = true
        · rw [if_pos hcollects] at h ⊢
          exact ⟨_, rfl, (mergeChildren_allows h hallows).1⟩
        · rw [if_neg hcollects] at h ⊢
          obtain ⟨own, hown, h⟩ := bind_ok_iff.mp h
          exact ⟨own, hown, (mergeChildren_allows h hallows).1⟩

theorem reconcile_declared (hlocal : plan.IsLocal)
    (h : reconcile session plan processed = .ok taskCount)
    (hallows : taskCount.restriction.Allows tasks) : Declared session plan tasks := by
  intro hasks declared hdeclared
  obtain ⟨own, hown, hownAllows⟩ := reconcile_own hlocal h hallows
  have hdesired : ∀ fallback, desiredOr session plan fallback = .ok declared := by
    intro fallback
    rw [desiredOr, hdeclared]
  rw [Session.asksHandlers, Bool.or_eq_true, Bool.and_eq_true, Bool.not_eq_true'] at hasks
  rcases hasks with hleaf | ⟨htransparent, hcollects⟩
  · rw [ownTaskCount, if_pos hleaf, hdesired] at hown
    cases hown
    exact hownAllows
  · rw [ownTaskCount, if_pos htransparent, hcollects, hdesired, if_neg Bool.false_ne_true,
      hdesired, ite_self] at hown
    cases hown
    exact hownAllows

/-! ## Stages of one task -/

/-- The stage of a node of the input plan is restricted to one task: by the node or by one below it
in the stage, outside the children of unions, or because a fold of it gets a
`NetworkCoalesceExec`. -/
inductive Plan.KeptToOne (session : Session κ) : Plan κ → Prop
  | own {plan : Plan κ} :
    (∀ taskCount, ownTaskCount session plan = .ok taskCount →
      ∀ tasks, taskCount.restriction.Allows tasks → tasks = 1) →
    KeptToOne session plan
  | fold {kind : NodeKind κ} {recorded : Option TaskCountAnnotation} {child : Plan κ} :
    kind.isFold = true → child.kind.topsStage = false →
    KeptToOne session (node kind recorded [child])
  | child {kind : NodeKind κ} {recorded : Option TaskCountAnnotation} {children : List (Plan κ)}
      {child : Plan κ} :
    kind.isTransparent = true → child ∈ children → endsStage (some kind) child.kind = false →
    KeptToOne session child → KeptToOne session (node kind recorded children)

/-- A stage that is kept to one task is closed with one task. -/
theorem Plan.KeptToOne.allows {builder : Builder κ} {kind : NodeKind κ}
    {recorded : Option TaskCountAnnotation} {children : List (Plan κ)} {rebuilt : Plan κ}
    (h : (node kind recorded children).KeptToOne session)
    (hplan : (node kind recorded children).SingleNode)
    (hprocessed : injectAll session df builder kind children = .ok processed)
    (hopen : openNode session df (node kind recorded children) processed
      = .ok (rebuilt, taskCount))
    (hallows : taskCount.restriction.Allows tasks) : tasks = 1 := by
  generalize hsource : node kind recorded children = plan at h
  induction h generalizing kind recorded children processed rebuilt taskCount with
  | own hone =>
    subst hsource
    obtain ⟨reconciled, hreconciled, hrestriction, -⟩ := openNode_ok hopen
    obtain ⟨own, hown, hownAllows⟩ :=
      reconcile_own (everywhere_iff.mp hplan).1 hreconciled (hrestriction ▸ hallows)
    exact hone own hown tasks hownAllows
  | @fold kind _ _ hfold htops =>
    cases hsource
    obtain ⟨reconciled, hreconciled, hrestriction, -⟩ := openNode_ok hopen
    have hkind : kind.isTransparent = true := by
      cases kind <;> first | rfl | cases hfold
    obtain ⟨out, rfl, hout⟩ := forall₂_singleton_left.mp (injectAll_ok hprocessed)
    exact injectFrom_coalesced hfold htops hout (reconcile_allows (by exact hkind)
      (by simp) hreconciled (hrestriction ▸ hallows) out List.mem_cons_self)
  | @child _ _ _ child hkind hmem hends _ ih =>
    cases hsource
    obtain ⟨reconciled, hreconciled, hrestriction, -⟩ := openNode_ok hopen
    obtain ⟨out, houtMem, hout⟩ := exists_of_forall₂ (injectAll_ok hprocessed).flip hmem
    have houtAllows := reconcile_allows (by exact hkind) (List.ne_nil_of_mem hmem) hreconciled
      (hrestriction ▸ hallows) out houtMem
    obtain ⟨childKind, childRecorded, childChildren⟩ := child
    obtain ⟨childProcessed, childRebuilt, childCount, hchildProcessed, hchildOpen, hplaced⟩ :=
      injectFrom_ok hout
    rcases hplaced.ends_or_kept with ⟨_, _, _, _, -, -, hchildEnds, -⟩ | ⟨hparent, -, -⟩ |
      ⟨-, -, rfl⟩
    · rw [openNode_endsStage hchildOpen, hends] at hchildEnds
      cases hchildEnds
    · cases hparent
    · exact ih ((everywhere_iff.mp hplan).2 _ hmem) hchildProcessed hchildOpen
        (allowsTasks_withTaskCount_iff.mp houtAllows) rfl

/-! ## Planned trees -/

/-- `Honours session M below plan out tasks`: the planned tree `out`, which runs in `tasks` tasks,
was made from `plan`, and every node of `plan` runs in a number of tasks that its handlers allow.
If `below` is false, the root is in the head stage, which runs in a single task whatever its
nodes ask for. Every stage runs in one to `M` tasks. -/
inductive Honours (session : Session κ) (M : ℕ) : Bool → Plan κ → Plan κ → ℕ → Prop
  | leaf {below : Bool} {kind newKind : NodeKind κ}
      {recorded newRecorded : Option TaskCountAnnotation}
      {tasks : ℕ} :
    (below = true → Declared session (node kind recorded []) tasks) →
    Honours session M below (node kind recorded []) (node newKind newRecorded []) tasks
  /-- The children of a union run in the tasks that the union gives them. -/
  | union {below : Bool} {union newUnion : UnionTasks}
      {recorded newRecorded : Option TaskCountAnnotation} {children newChildren : List (Plan κ)}
      {tasks : ℕ} :
    newChildren.length = children.length →
    (∀ (i : ℕ) (child newChild : Plan κ), children[i]? = some child →
      newChildren[i]? = some newChild →
      Honours session M below child newChild
        ((newUnion.childTaskCounts newChildren.length).getD i 0)) →
    Honours session M below (node (.childrenIsolatorUnion union) recorded children)
      (node (.childrenIsolatorUnion newUnion) newRecorded newChildren) tasks
  | transparent {below : Bool} {kind : NodeKind κ}
      {recorded newRecorded : Option TaskCountAnnotation} {children newChildren : List (Plan κ)}
      {tasks : ℕ} :
    kind.isTransparent = true →
    (below = true → Declared session (node kind recorded children) tasks) →
    newChildren.length = children.length →
    (∀ (i : ℕ) (child newChild : Plan κ), children[i]? = some child →
      newChildren[i]? = some newChild → Honours session M below child newChild tasks) →
    Honours session M below (node kind recorded children) (node kind newRecorded newChildren) tasks
  /-- The stage below a boundary. -/
  | boundary {below : Bool} {kind : NodeKind κ} {recorded : Option TaskCountAnnotation}
      {plan staged : Plan κ} {stage : Stage} {tasks : ℕ} :
    kind.inputStage = some stage → 1 ≤ stage.taskCount → stage.taskCount ≤ M →
    Honours session M true plan staged stage.taskCount →
    Honours session M below plan (node kind recorded [staged]) tasks
  /-- The `RepartitionExec` that is put above a two-phase shuffle. -/
  | twoPhase {below : Bool} {partitioning : Partitioning κ} {preserveOrder : Bool}
      {recorded newRecorded : Option TaskCountAnnotation} {exec : NetworkShuffleExec κ}
      {plan : Plan κ} {children : List (Plan κ)} {tasks : ℕ} :
    Honours session M below plan (node (.networkShuffle exec) recorded children) tasks →
    Honours session M below plan
      (node (.repartition partitioning preserveOrder) newRecorded
        [node (.networkShuffle exec) recorded children]) tasks

namespace Honours

/-- A tree below a boundary may as well be the head stage, in any number of tasks. -/
theorem head {below : Bool} {plan out : Plan κ} {tasks : ℕ}
    (h : Honours session M below plan out tasks) (other : ℕ) :
    Honours session M false plan out other := by
  induction h generalizing other with
  | leaf => exact .leaf fun hbelow => by cases hbelow
  | union hlength _ ih =>
    exact .union hlength fun i child newChild hi hnew => ih i child newChild hi hnew _
  | transparent hkind _ hlength _ ih =>
    refine .transparent hkind (fun hbelow => by cases hbelow) hlength ?_
    intro i child newChild hi hnew
    exact ih i child newChild hi hnew other
  | boundary hstage hpos hle hstaged => exact .boundary hstage hpos hle hstaged
  | twoPhase _ ih => exact .twoPhase (ih other)

end Honours

/-! ## Closing a stage -/

/-- For every task count the visited node `plan` allows, closing its stage honours the
restrictions of `source`. -/
def HonoursReady (session : Session κ) (df : DataFusion κ) (M : ℕ) (source plan : Plan κ) : Prop :=
  ∀ taskCount out, plan.AllowsTasks taskCount.asUsize → Propagated session df taskCount plan out →
    Honours session M true source out taskCount.asUsize

/-- The visited node, before its stage ends. -/
theorem honoursReady_open {kind : NodeKind κ} {recorded : Option TaskCountAnnotation}
    {children : List (Plan κ)} {rebuilt : Plan κ} (hlocal : (node kind recorded children).IsLocal)
    (hready : List.Forall₂ (HonoursReady session df M) children processed)
    (hopen : openNode session df (node kind recorded children) processed
      = .ok (rebuilt, taskCount)) :
    HonoursReady session df M (node kind recorded children) (rebuilt.withTaskCount taskCount) := by
  obtain ⟨reconciled, hreconciled, hrestriction, -⟩ := openNode_ok hopen
  have hlength := hready.length_eq
  intro final out hfinal hpropagated
  rw [allowsTasks_withTaskCount_iff] at hfinal
  have hdeclared := reconcile_declared hlocal hreconciled (hrestriction ▸ hfinal)
  have hchild : ∀ {i : ℕ} {child middle newChild : Plan κ} {closed : TaskCountAnnotation},
      children[i]? = some child → processed[i]? = some middle →
      middle.AllowsTasks closed.asUsize → Propagated session df closed middle newChild →
      Honours session M true child newChild closed.asUsize := by
    intro i child middle newChild closed hi hmiddle hmiddleAllows hclosed
    obtain ⟨hlt, rfl⟩ := List.getElem?_eq_some_iff.mp hi
    obtain ⟨hlt', rfl⟩ := List.getElem?_eq_some_iff.mp hmiddle
    exact hready.get hlt hlt' closed newChild hmiddleAllows hclosed
  rcases openNode_local hlocal hlength.symm hopen with ⟨union, rebuiltUnion, rfl, hne, rfl⟩ |
    ⟨htransparent, rfl, hallows⟩
  · obtain ⟨newUnion, newChildren, rfl, -, -, hnew, hclosed⟩ := hpropagated.union_cases hne
    refine .union (hnew.trans hlength.symm) ?_
    intro i child newChild hi hi'
    obtain ⟨middle, hmiddle⟩ := exists_getElem? hlength hi
    obtain ⟨closed, hclosedAllows, hclosed, hcount⟩ := hclosed i _ newChild hmiddle hi'
    rw [hcount]
    exact hchild hi hmiddle hclosedAllows hclosed
  · rcases hpropagated.transparent_cases htransparent with ⟨rfl, newKind, -, rfl⟩ |
      ⟨hne, newChildren, rfl, hnew, hall⟩
    · obtain rfl : children = [] := List.length_eq_zero_iff.mp hlength
      exact .leaf fun _ => hdeclared
    · refine .transparent htransparent (fun _ => hdeclared) (hnew.trans hlength.symm) ?_
      intro i child newChild hi hi'
      obtain ⟨middle, hmiddle⟩ := exists_getElem? hlength hi
      exact hchild hi hmiddle (hallows _ hfinal _ (List.mem_of_getElem? hmiddle))
        (hall i _ newChild hmiddle hi')

theorem honoursReady_boundary {kind : NodeKind κ} {recorded : Option TaskCountAnnotation}
    {stage : Stage} {source staged : Plan κ} (hstage : kind.inputStage = some stage)
    (hpos : 1 ≤ stage.taskCount) (hle : stage.taskCount ≤ M)
    (hstaged : Honours session M true source staged stage.taskCount) :
    HonoursReady session df M source (node kind recorded [staged]) := by
  intro taskCount out _ hpropagated
  cases hpropagated with
  | boundary => exact .boundary hstage hpos hle hstaged
  | @twoPhase shuffle _ _ _ _ _ =>
    have htwo : (NodeKind.networkShuffle shuffle.toTwoPhaseSalted).inputStage = some stage := hstage
    exact .twoPhase (.boundary htwo hpos hle hstaged)
  | union => cases hstage
  | transparent htransparent =>
    rw [NodeKind.inputStage_of_transparent htransparent] at hstage
    cases hstage

/-! ## The largest number of tasks -/

theorem Session.maxTasks_pos (h : session.maxTasks = .ok M) : 1 ≤ M := by
  unfold Session.maxTasks at h
  split at h
  · obtain ⟨urls, -, h⟩ := bind_ok_iff.mp h
    cases h
    exact le_max_right _ _
  · rename_i hne
    cases h
    exact Nat.one_le_iff_ne_zero.mpr hne

/-- An estimate that is capped, and a minimum that was checked, stay within the cap. -/
theorem capTaskCount_le {capped : TaskCountAnnotation} (hM : 1 ≤ M)
    (h : capTaskCount M taskCount = .ok capped) : capped.asUsize ≤ M := by
  obtain ⟨soft, restriction⟩ := taskCount
  have hsoft : ⌈min soft (M : ℚ)⌉.toNat ≤ M := by
    rw [Int.toNat_le, Int.ceil_le]
    exact_mod_cast min_le_right soft (M : ℚ)
  have hcapped : capped = ⟨min soft M, restriction⟩ ∧
      ∀ m, TaskCountAnnotation.getMin ⟨soft, restriction⟩ = some m → (m : ℕ) ≤ M := by
    unfold capTaskCount at h
    split at h
    · rename_i m hm
      obtain ⟨hle, h⟩ := ite_error_ok_iff.mp h
      cases h
      simpa [hm] using hle
    · rename_i hm
      cases h
      simp [hm]
  obtain ⟨rfl, hmin⟩ := hcapped
  cases restriction with
  | none | max m =>
    unfold TaskCountAnnotation.asUsize
    dsimp only
    omega
  | exact count => exact hmin count rfl
  | min lo | range lo hi lt =>
    have hlo := hmin lo rfl
    unfold TaskCountAnnotation.asUsize
    dsimp only
    omega

theorem openNode_le {rebuilt : Plan κ} (hmax : session.maxTasks = .ok M)
    (h : openNode session df plan processed = .ok (rebuilt, taskCount)) :
    taskCount.asUsize ≤ M := by
  obtain ⟨reconciled, -, h⟩ := bind_ok_iff.mp h
  obtain ⟨rebuilt, -, h⟩ := bind_ok_iff.mp h
  obtain ⟨maxTasks, hmaxTasks, h⟩ := bind_ok_iff.mp h
  rw [hmax] at hmaxTasks
  cases hmaxTasks
  obtain ⟨capped, hcapped, h⟩ := bind_ok_iff.mp h
  cases h
  exact capTaskCount_le (Session.maxTasks_pos hmax) hcapped

/-! ## The whole pass -/

/-- The run lemma: every visited node below the root is ready, and at the root the head stage runs
in a single task. -/
theorem injectFrom_honours (hmax : session.maxTasks = .ok M) {parent : Option (NodeKind κ)}
    (hplan : plan.SingleNode)
    (h : injectFrom session df (cardinalityBasedBuilder session df) parent plan = .ok out) :
    (parent ≠ none → HonoursReady session df M plan out) ∧
      (parent = none → Honours session M false plan out 1) := by
  induction plan using Plan.induction generalizing parent out with
  | node kind recorded children ih =>
    obtain ⟨hnode, hchildren⟩ := everywhere_iff.mp hplan
    obtain ⟨processed, rebuilt, taskCount, hprocessed, hopen, hplaced⟩ := injectFrom_ok h
    have hready := honoursReady_open hnode
      (forall₂_imp_of_mem (injectAll_ok hprocessed) fun child hchild out hout =>
        (ih child hchild (hchildren child hchild) hout).1 (Option.some_ne_none kind)) hopen
    rcases hplaced.ends_or_kept with
      ⟨kind, recorded, boundary, result, rfl, hstage, -, hresult⟩ |
      ⟨hparent, -, hout⟩ | ⟨hparent, -, rfl⟩
    · obtain ⟨found, staged, hfound, hstaged, htasks, hchildren, -⟩ :=
        cardinalityBasedBuilder_ok hresult
      cases (taskCount_withTaskCount _ _).symm.trans hfound
      have hhonours :=
        hready taskCount staged (allowsTasks_withTaskCount _ _) (propagate_ok hstaged)
      have hpos := taskCount.asUsize_pos
      have hle := openNode_le hmax hopen
      rw [htasks] at hstage
      rw [hchildren]
      exact ⟨fun _ => honoursReady_boundary hstage hpos hle hhonours,
        fun _ => .boundary hstage hpos hle hhonours⟩
    · exact ⟨fun hsome => absurd hparent hsome, fun _ =>
        (hready taskCount out (allowsTasks_withTaskCount _ _) hout.withTaskCount).head 1⟩
    · exact ⟨fun _ => hready, fun hnone => absurd hnone hparent⟩

/-- The whole pass: the head stage runs in a single task, and every stage below it honours the
restrictions of its nodes. -/
theorem inject_honours (hmax : session.maxTasks = .ok M) (hplan : plan.SingleNode)
    (h : injectNetworkBoundaries session df (cardinalityBasedBuilder session df) plan = .ok out) :
    Honours session M false plan out 1 :=
  (injectFrom_honours hmax hplan h).2 rfl

end DatafusionDistributed
