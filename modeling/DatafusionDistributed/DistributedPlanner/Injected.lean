import DatafusionDistributed.DistributedPlanner.Propagated

/-!
# What injecting the boundaries does

Inversion of `inject_network_boundaries`, one node at a time: the task count a node is given and
what it allows, and the five ways in which the visit of a node ends.
-/

namespace DatafusionDistributed

open Library

variable {κ : Type} {session : Session κ} {df : DataFusion κ} {builder : Builder κ}
  {recorded : Option TaskCountAnnotation}

/-! ## Plans of a single node -/

/-- The number of children each kind of node takes. -/
def NodeKind.Arity : NodeKind κ → ℕ → Prop
  | .other _, _ => True
  | .coalescePartitions _, n | .sortPreservingMerge _ _, n | .repartition _ _, n
  | .broadcast _, n | .sampler, n => n = 1
  | .hashJoin _, n | .nestedLoopJoin _, n | .crossJoin, n => n = 2
  | .union, n | .childrenIsolatorUnion _, n => 0 < n
  | .empty _, n => n = 0
  | .networkShuffle exec, n => n = if exec.inputStage.isLocal then 1 else 0
  | .networkCoalesce exec, n => n = if exec.inputStage.isLocal then 1 else 0
  | .networkBroadcast exec, n => n = if exec.inputStage.isLocal then 1 else 0

/-- A node of a plan that was not distributed yet. -/
structure Plan.IsLocal (plan : Plan κ) : Prop where
  not_boundary : plan.kind.isNetworkBoundary = false
  arity : plan.kind.Arity plan.children.length

theorem Plan.IsLocal.union_or_transparent {plan : Plan κ} (h : plan.IsLocal) :
    (∃ union, plan.kind = .childrenIsolatorUnion union) ∨ plan.kind.isTransparent = true := by
  exact NodeKind.union_or_transparent h.not_boundary

/-- A plan without network boundaries in which every node has the children it takes. -/
def Plan.SingleNode (plan : Plan κ) : Prop :=
  plan.Everywhere Plan.IsLocal

section SingleNode

open Plan

theorem singleNode_node {kind : NodeKind κ} {children : List (Plan κ)} :
    (node kind recorded children).SingleNode ↔
      (kind.isNetworkBoundary = false ∧ kind.Arity children.length) ∧
        ∀ child ∈ children, child.SingleNode := by
  unfold SingleNode
  rw [everywhere_iff]
  constructor
  · intro h
    exact ⟨⟨h.1.not_boundary, h.1.arity⟩, h.2⟩
  · intro h
    exact ⟨⟨h.1.1, h.1.2⟩, h.2⟩

theorem singleNode_leaf (op : ℕ) (recorded : Option TaskCountAnnotation) :
    (node (.other op) recorded [] : Plan κ).SingleNode :=
  .node ⟨rfl, trivial⟩ (List.forall_mem_nil _)

theorem singleNode_unary {kind : NodeKind κ} {child : Plan κ}
    (hkind : kind.isNetworkBoundary = false) (harity : kind.Arity 1) (hchild : child.SingleNode)
    (recorded : Option TaskCountAnnotation) : (node kind recorded [child]).SingleNode :=
  everywhere_unary ⟨hkind, harity⟩ hchild

theorem singleNode_binary {kind : NodeKind κ} {left right : Plan κ}
    (hkind : kind.isNetworkBoundary = false) (harity : kind.Arity 2) (hleft : left.SingleNode)
    (hright : right.SingleNode) (recorded : Option TaskCountAnnotation) :
    (node kind recorded [left, right]).SingleNode :=
  everywhere_binary ⟨hkind, harity⟩ hleft hright

end SingleNode

/-! ## Task counts -/

variable {plan out rebuilt : Plan κ} {taskCount : TaskCountAnnotation} {tasks : ℕ}
  {kind : NodeKind κ} {children processed : List (Plan κ)} {parent : Option (NodeKind κ)}

theorem Plan.recordedTaskCount_ok :
    plan.recordedTaskCount = .ok taskCount ↔ plan.taskCount = some taskCount := by
  unfold Plan.recordedTaskCount
  cases plan.taskCount <;> simp

/-- The number of tasks is one that the plan's recorded task count allows. -/
def Plan.AllowsTasks (plan : Plan κ) (tasks : ℕ) : Prop :=
  ∃ taskCount, plan.taskCount = some taskCount ∧ taskCount.restriction.Allows tasks

theorem Plan.allowsTasks_iff (hcount : plan.taskCount = some taskCount) :
    plan.AllowsTasks tasks ↔ taskCount.restriction.Allows tasks := by
  simp [AllowsTasks, hcount]

theorem Plan.allowsTasks_node :
    (Plan.node kind (some taskCount) children).AllowsTasks tasks ↔
      taskCount.restriction.Allows tasks :=
  allowsTasks_iff rfl

theorem Plan.allowsTasks_withTaskCount_iff :
    (plan.withTaskCount taskCount).AllowsTasks tasks ↔ taskCount.restriction.Allows tasks :=
  allowsTasks_iff (plan.taskCount_withTaskCount taskCount)

theorem mergeChildren_allows {merged : TaskCountAnnotation}
    (h : mergeChildren taskCount processed = .ok merged)
    (hallows : merged.restriction.Allows tasks) :
    taskCount.restriction.Allows tasks ∧ ∀ child ∈ processed, child.AllowsTasks tasks := by
  induction processed generalizing taskCount with
  | nil =>
    cases h
    exact ⟨hallows, List.forall_mem_nil _⟩
  | cons child processed ih =>
    obtain ⟨next, hnext, hrest⟩ := bind_ok_iff.mp h
    obtain ⟨childCount, hchild, hmerge⟩ := bind_ok_iff.mp hnext
    obtain ⟨hnextAllows, hall⟩ := ih hrest
    have hboth := TaskCountAnnotation.merge_allows hmerge _ |>.mp hnextAllows
    exact ⟨hboth.1, List.forall_mem_cons.mpr
      ⟨⟨childCount, Plan.recordedTaskCount_ok.mp hchild, hboth.2⟩, hall⟩⟩

theorem reconcile_allows (hkind : plan.kind.isTransparent = true) (hne : plan.children ≠ [])
    (h : reconcile session plan processed = .ok taskCount)
    (hallows : taskCount.restriction.Allows tasks) :
    ∀ child ∈ processed, child.AllowsTasks tasks := by
  unfold reconcile at h
  rw [if_neg (by simpa using hne)] at h
  split at h
  · rename_i union hunion
    rw [hunion] at hkind
    cases hkind
  · split at h
    · exact (mergeChildren_allows h hallows).2
    · obtain ⟨desired, -, h⟩ := bind_ok_iff.mp h
      exact (mergeChildren_allows h hallows).2

/-- A join that collects its build side is allowed one task only. -/
theorem reconcile_collectsInOneTask (hne : plan.children ≠ [])
    (hcollects : collectsInOneTask session.config.broadcastJoins plan.kind = true)
    (h : reconcile session plan processed = .ok taskCount)
    (hallows : taskCount.restriction.Allows tasks) : tasks = 1 := by
  unfold reconcile at h
  rw [if_neg (by simpa using hne)] at h
  split at h
  · rename_i union hunion
    rw [hunion] at hcollects
    cases hcollects
  · rw [if_pos hcollects] at h
    exact (mergeChildren_allows h hallows).1

theorem capTaskCount_ok {maxTasks : ℕ} {capped : TaskCountAnnotation}
    (h : capTaskCount maxTasks taskCount = .ok capped) :
    capped.restriction = taskCount.restriction := by
  unfold capTaskCount at h
  split at h
  · split at h
    · cases h
    · cases h
      rfl
  · cases h
    rfl

/-! ## The end of a visit -/

/-- The nodes that end a stage whatever their parent is. -/
def NodeKind.topsStage : NodeKind κ → Bool
  | .repartition partitioning _ => partitioning.isShuffled
  | .broadcast _ => true
  | _ => false

/-- Whether the stage of a node ends with it. -/
def endsStage (parent : Option (NodeKind κ)) (kind : NodeKind κ) : Bool :=
  kind.topsStage || parent.any NodeKind.isFold

/-- The ways in which the visit of `plan` ends. -/
inductive NodePlaced (session : Session κ) (df : DataFusion κ) (builder : Builder κ)
    (parent : Option (NodeKind κ)) (plan : Plan κ) (taskCount : TaskCountAnnotation) :
    Plan κ → Prop
  | shuffle {partitioning : Partitioning κ} {preserveOrder : Bool} {result : BuilderResult κ} :
    plan.kind = .repartition partitioning preserveOrder → partitioning.isShuffled = true →
    builder (plan.withTaskCount taskCount) taskCount.asUsize .shuffle = .ok result →
    NodePlaced session df builder parent plan taskCount
      (.node (.networkShuffle (NetworkShuffleExec.fromStage result.inputStage
        (result.inputProperties.withPartitioning partitioning)))
        (some result.consumerTaskCount) result.children)
  | broadcast {n : ℕ} {result : BuilderResult κ} :
    plan.kind = .broadcast n →
    builder (plan.withTaskCount taskCount) taskCount.asUsize .broadcast = .ok result →
    NodePlaced session df builder parent plan taskCount
      (.node (.networkBroadcast (NetworkBroadcastExec.fromStage result.inputStage
        result.inputProperties)) (some result.consumerTaskCount) result.children)
  | coalesce {nb : NetworkCoalesceExec κ} {result : BuilderResult κ} :
    plan.kind.topsStage = false → parent.any NodeKind.isFold = true →
    builder (plan.withTaskCount taskCount) taskCount.asUsize .coalesce = .ok result →
    result.consumerTaskCount.restriction = .exact 1 →
    NetworkCoalesceExec.tryFromStage result.inputStage result.inputProperties 1 = .ok nb →
    NodePlaced session df builder parent plan taskCount
      (.node (.networkCoalesce nb) (some result.consumerTaskCount) result.children)
  | head {out : Plan κ} :
    plan.kind.topsStage = false → parent = none →
    propagate session df plan taskCount = .ok out →
    NodePlaced session df builder parent plan taskCount out
  | kept : endsStage parent plan.kind = false → parent ≠ none →
    NodePlaced session df builder parent plan taskCount (plan.withTaskCount taskCount)

theorem placeBroadcast_ok {n : ℕ} (hkind : plan.kind = .broadcast n)
    (h : placeBroadcast builder plan taskCount = .ok out) :
    NodePlaced session df builder parent plan taskCount out := by
  obtain ⟨result, hresult, h⟩ := bind_ok_iff.mp h
  cases h
  exact .broadcast hkind hresult

theorem placeCoalesce_ok (hkind : plan.kind.topsStage = false)
    (hparent : parent.any NodeKind.isFold = true)
    (h : placeCoalesce builder plan taskCount = .ok out) :
    NodePlaced session df builder parent plan taskCount out := by
  obtain ⟨result, hresult, h⟩ := bind_ok_iff.mp h
  obtain ⟨hexact, h⟩ := ite_error_ok_iff.mp h
  obtain ⟨nb, hnb, h⟩ := bind_ok_iff.mp h
  cases h
  exact .coalesce hkind hparent hresult (not_not.mp hexact) hnb

/-- A node that does not end a stage by itself, below a parent or at the root. -/
theorem placeOpen_ok (hkind : plan.kind.topsStage = false) (h : (match parent with
      | some parent =>
        if parent.isFold then placeCoalesce builder plan taskCount
        else .ok (plan.withTaskCount taskCount)
      | none => propagate session df plan taskCount) = .ok out) :
    NodePlaced session df builder parent plan taskCount out := by
  cases parent with
  | none => exact .head hkind rfl h
  | some parent =>
    dsimp only at h
    split at h
    · rename_i hfold
      exact placeCoalesce_ok hkind hfold h
    · rename_i hfold
      cases h
      exact .kept (by simpa [endsStage, hkind] using hfold) (by simp)

theorem placeNode_ok (h : placeNode session df builder parent plan taskCount = .ok out) :
    NodePlaced session df builder parent plan taskCount out := by
  obtain ⟨kind, recorded, children⟩ := plan
  cases kind with
  | repartition partitioning preserveOrder =>
    unfold placeNode at h
    simp only [Plan.kind_node] at h
    split at h
    · rename_i hshuffled
      obtain ⟨result, hresult, h⟩ := bind_ok_iff.mp h
      cases h
      exact .shuffle rfl hshuffled hresult
    · rename_i hshuffled
      exact placeOpen_ok (Bool.eq_false_iff.mpr hshuffled) h
  | broadcast n => exact placeBroadcast_ok rfl h
  | _ =>
    refine placeOpen_ok rfl ?_
    rw [← h]
    cases parent <;> rfl

/-- A visited node ends its stage below a boundary, or is the root, or is kept. -/
theorem NodePlaced.ends_or_kept (h : NodePlaced session df builder parent plan taskCount out) :
    (∃ kind recorded boundary result, out = .node kind recorded result.children ∧
        kind.inputStage = some result.inputStage ∧ endsStage parent plan.kind = true ∧
        builder (plan.withTaskCount taskCount) taskCount.asUsize boundary = .ok result) ∨
      (parent = none ∧ plan.kind.topsStage = false ∧ Propagated session df taskCount plan out) ∨
      (parent ≠ none ∧ endsStage parent plan.kind = false ∧
        out = plan.withTaskCount taskCount) := by
  cases h with
  | shuffle hkind hshuffled hresult =>
    refine .inl ⟨_, _, _, _, rfl, rfl, ?_, hresult⟩
    rw [endsStage, hkind, NodeKind.topsStage, hshuffled, Bool.true_or]
  | broadcast hkind hresult =>
    refine .inl ⟨_, _, _, _, rfl, rfl, ?_, hresult⟩
    rw [endsStage, hkind, NodeKind.topsStage, Bool.true_or]
  | coalesce _ hfold hresult _ hnb =>
    refine .inl ⟨_, _, _, _, rfl, ?_, ?_, hresult⟩
    · exact congrArg some (NetworkCoalesceExec.tryFromStage_ok hnb).1
    · rw [endsStage, hfold, Bool.or_true]
  | head hkind hparent hout => exact .inr (.inl ⟨hparent, hkind, propagate_ok hout⟩)
  | kept hends hparent => exact .inr (.inr ⟨hparent, hends, rfl⟩)

/-! ## Visits -/

/-- What is known of a node before its stage ends or is kept open. -/
theorem openNode_ok (h : openNode session df plan processed = .ok (rebuilt, taskCount)) :
    ∃ reconciled, reconcile session plan processed = .ok reconciled ∧
      taskCount.restriction = reconciled.restriction ∧
      plan.replaceChildren df processed = .ok rebuilt := by
  obtain ⟨reconciled, hreconciled, h⟩ := bind_ok_iff.mp h
  obtain ⟨rebuilt, hrebuilt, h⟩ := bind_ok_iff.mp h
  obtain ⟨maxTasks, -, h⟩ := bind_ok_iff.mp h
  obtain ⟨taskCount, htaskCount, h⟩ := bind_ok_iff.mp h
  cases h
  exact ⟨reconciled, hreconciled, capTaskCount_ok htaskCount, hrebuilt⟩

/-- A visited node of a local plan, before its stage ends: a union over the processed children, or
the node itself, which passes its task count on to them. -/
theorem openNode_local (hlocal : (Plan.node kind recorded children).IsLocal)
    (hlength : processed.length = children.length)
    (h : openNode session df (.node kind recorded children) processed
      = .ok (rebuilt, taskCount)) :
    (∃ union newUnion, kind = .childrenIsolatorUnion union ∧ processed ≠ [] ∧
      rebuilt = .node (.childrenIsolatorUnion newUnion) none processed) ∨
    kind.isTransparent = true ∧ rebuilt = .node kind none processed ∧
      ∀ tasks, taskCount.restriction.Allows tasks →
        ∀ child ∈ processed, child.AllowsTasks tasks := by
  obtain ⟨reconciled, hreconciled, hrestriction, hrebuilt⟩ := openNode_ok h
  rcases hlocal.union_or_transparent with ⟨union, rfl⟩ | htransparent
  · obtain ⟨newUnion, -, rfl⟩ := Plan.replaceChildren_union rfl hrebuilt
    refine .inl ⟨union, _, rfl, List.ne_nil_of_length_pos ?_, rfl⟩
    rw [hlength]
    exact hlocal.arity
  · refine .inr ⟨htransparent, Plan.replaceChildren_transparent htransparent hrebuilt, ?_⟩
    intro tasks hallows child hchild
    rw [hrestriction] at hallows
    refine reconcile_allows htransparent ?_ hreconciled hallows child hchild
    apply List.ne_nil_of_length_pos
    rw [Plan.children_node, ← hlength]
    exact List.length_pos_of_mem hchild

theorem replaceChildren_kind (h : plan.replaceChildren df children = .ok out) :
    out.kind = plan.kind ∨ plan.kind.topsStage = false ∧ out.kind.topsStage = false := by
  cases hstage : plan.kind.inputStage with
  | some stage =>
    rw [Plan.replaceChildren_boundary hstage h]
    right
    cases hkind : plan.kind <;> rw [hkind] at hstage <;> first | exact ⟨rfl, rfl⟩ | cases hstage
  | none =>
    rcases NodeKind.union_or_transparent (congrArg Option.isSome hstage) with
      ⟨union, hunion⟩ | htransparent
    · obtain ⟨rebuiltUnion, -, rfl⟩ := Plan.replaceChildren_union hunion h
      rw [hunion]
      exact .inr ⟨rfl, rfl⟩
    · rw [Plan.replaceChildren_transparent htransparent h]
      exact .inl rfl

theorem openNode_kind (h : openNode session df plan processed = .ok (rebuilt, taskCount)) :
    rebuilt.kind = plan.kind ∨
      plan.kind.topsStage = false ∧ rebuilt.kind.topsStage = false := by
  obtain ⟨-, -, -, hrebuilt⟩ := openNode_ok h
  exact replaceChildren_kind hrebuilt

theorem openNode_endsStage (h : openNode session df plan processed = .ok (rebuilt, taskCount))
    (parent : Option (NodeKind κ)) : endsStage parent rebuilt.kind =
      endsStage parent plan.kind := by
  rcases openNode_kind h with hsame | ⟨hold, hnew⟩
  · rw [hsame]
  · rw [endsStage, endsStage, hold, hnew]

theorem injectAll_eq_mapM {parent : NodeKind κ} : injectAll session df builder parent children =
    children.mapM (injectFrom session df builder (some parent)) := by
  induction children with
  | nil =>
    rfl
  | cons child children ih => rw [injectAll, List.mapM_cons, ih]

theorem injectAll_ok {parent : NodeKind κ}
    (h : injectAll session df builder parent children = .ok processed) :
    List.Forall₂ (fun child out => injectFrom session df builder (some parent) child = .ok out)
      children processed :=
  mapM_ok_iff.mp (injectAll_eq_mapM.symm.trans h)

/-- What holds of everything a child is rewritten to holds of every processed child. -/
theorem injectAll_forall {parent : NodeKind κ} {R : Plan κ → Prop}
    (hall : ∀ child ∈ children, ∀ out,
      injectFrom session df builder (some parent) child = .ok out → R out)
    (h : injectAll session df builder parent children = .ok processed) :
    ∀ out ∈ processed, R out := by
  intro out hout
  obtain ⟨child, hchild, hrun⟩ := exists_of_forall₂ (injectAll_ok h) hout
  exact hall child hchild out hrun

/-- What the visit of a node consists of. -/
theorem injectFrom_ok
    (h : injectFrom session df builder parent (.node kind recorded children) = .ok out) :
    ∃ processed rebuilt taskCount, injectAll session df builder kind children = .ok processed ∧
      openNode session df (.node kind recorded children) processed = .ok (rebuilt, taskCount) ∧
      NodePlaced session df builder parent rebuilt taskCount out := by
  obtain ⟨processed, hprocessed, h⟩ := bind_ok_iff.mp h
  obtain ⟨⟨rebuilt, taskCount⟩, hopen, h⟩ := bind_ok_iff.mp h
  exact ⟨processed, rebuilt, taskCount, hprocessed, hopen, placeNode_ok h⟩

theorem injectFrom_kept {parent : NodeKind κ}
    (hkind : kind.isTransparent = true) (htops : kind.topsStage = false)
    (hparent : parent.isFold = false)
    (h : injectFrom session df builder (some parent) (.node kind recorded children) = .ok out) :
    ∃ processed reconciled taskCount, injectAll session df builder kind children = .ok processed ∧
      reconcile session (.node kind recorded children) processed = .ok reconciled ∧
      taskCount.restriction = reconciled.restriction ∧
      out = .node kind (some taskCount) processed := by
  obtain ⟨processed, rebuilt, taskCount, hprocessed, hopen, hplaced⟩ := injectFrom_ok h
  obtain ⟨reconciled, hreconciled, hrestriction, hrebuilt⟩ := openNode_ok hopen
  have hshape := Plan.replaceChildren_transparent (by exact hkind) hrebuilt
  subst hshape
  refine ⟨processed, reconciled, taskCount, hprocessed, hreconciled, hrestriction, ?_⟩
  rcases hplaced.ends_or_kept with ⟨-, -, -, -, -, -, hends, -⟩ | ⟨hnone, -⟩ | ⟨-, -, rfl⟩
  · simp [endsStage, htops, hparent] at hends
  · cases hnone
  · rfl

theorem injectFrom_broadcast {n : ℕ}
    (h : injectFrom session df builder parent (.node (.broadcast n) recorded children) = .ok out) :
    ∃ exec recorded inputs, out = .node (.networkBroadcast exec) recorded inputs := by
  obtain ⟨processed, rebuilt, taskCount, -, hopen, hplaced⟩ := injectFrom_ok h
  obtain ⟨-, -, -, hrebuilt⟩ := openNode_ok hopen
  have hshape := Plan.replaceChildren_transparent (by rfl) hrebuilt
  subst hshape
  cases hplaced with
  | shuffle hkind => cases hkind
  | broadcast => exact ⟨_, _, _, rfl⟩
  | coalesce htops | head htops => cases htops
  | kept hends => cases hends

/-- Below a fold, a node that ends no stage by itself gets a boundary that allows one task only. -/
theorem injectFrom_coalesced {parent : NodeKind κ} {child : Plan κ} (hfold : parent.isFold = true)
    (htops : child.kind.topsStage = false)
    (h : injectFrom session df builder (some parent) child = .ok out)
    (hallows : out.AllowsTasks tasks) : tasks = 1 := by
  obtain ⟨kind, recorded, children⟩ := child
  obtain ⟨processed, rebuilt, taskCount, -, hopen, hplaced⟩ := injectFrom_ok h
  have hrebuilt : rebuilt.kind.topsStage = false := by
    rcases openNode_kind hopen with hsame | ⟨-, hfalse⟩
    · rwa [hsame]
    · exact hfalse
  cases hplaced with
  | shuffle hkind hshuffled => simp [hkind, NodeKind.topsStage, hshuffled] at hrebuilt
  | broadcast hkind => simp [hkind, NodeKind.topsStage] at hrebuilt
  | coalesce _ _ _ hexact _ =>
    rw [Plan.allowsTasks_node, hexact] at hallows
    exact hallows
  | head _ hnone => cases hnone
  | kept hends => simp [endsStage, hfold] at hends

/-- The whole pass closes the head stage that `openHead` returns. -/
theorem injectNetworkBoundaries_ok (h : injectNetworkBoundaries session df builder plan = .ok out) :
    ∃ rebuilt taskCount, openHead session df builder plan = .ok (rebuilt, taskCount) ∧
      NodePlaced session df builder none rebuilt taskCount out := by
  obtain ⟨kind, recorded, children⟩ := plan
  obtain ⟨processed, rebuilt, taskCount, hprocessed, hopen, hplaced⟩ := injectFrom_ok h
  exact ⟨rebuilt, taskCount, bind_ok_iff.mpr ⟨processed, hprocessed, hopen⟩, hplaced⟩

theorem cardinalityBasedBuilder_ok {kind : BoundaryKind} {result : BuilderResult κ}
    (h : cardinalityBasedBuilder session df plan tasks kind = .ok result) :
    ∃ taskCount staged, plan.taskCount = some taskCount ∧
      propagate session df plan taskCount = .ok staged ∧
      result.inputStage = .localStage 0 tasks ∧ result.children = [staged] ∧
      result.inputProperties = staged.properties df := by
  obtain ⟨taskCount, htaskCount, h⟩ := bind_ok_iff.mp h
  obtain ⟨staged, hstaged, h⟩ := bind_ok_iff.mp h
  refine ⟨taskCount, staged, Plan.recordedTaskCount_ok.mp htaskCount, hstaged, ?_⟩
  cases kind <;> cases h <;> exact ⟨rfl, rfl, rfl⟩

end DatafusionDistributed
