import DatafusionDistributed.DistributedPlanner.Restrictions

/-!
# How planning may fail

The planner has checks that are not about its input: that every node it visited has a recorded
task count, that no child of a union is left without tasks, and that the tasks a union gets are
enough for its children. `PlanningError` lists the other sources of errors, and
`injectNetworkBoundaries_failsPlanning` shows that they are the only ones.

While a stage is open its task count is not known yet. `ClosesOnly` says that closing it can fail
in these ways only, for any task count that the recorded restriction allows.
-/

namespace DatafusionDistributed

open Library Plan SplitChildren

variable {κ : Type} {session : Session κ} {df : DataFusion κ}

/-- The errors of the event handlers, the worker resolver and DataFusion's checks, and those that
report what the handlers answered: restrictions that contradict each other, a minimum above the
largest number of tasks, and a negative estimate. -/
inductive PlanningError (session : Session κ) (df : DataFusion κ) : DataFusionError → Prop
  | desiredTaskCount {plan : Plan κ} {e : DataFusionError} :
    session.desiredTaskCount plan = some (.error e) → PlanningError session df e
  | scaleUpLeafNode {plan : Plan κ} {tasks : ℕ} {e : DataFusionError} :
    session.scaleUpLeafNode plan tasks = some (.error e) → PlanningError session df e
  | workerUrls {e : DataFusionError} : session.workerUrls = .error e → PlanningError session df e
  | check {kind : NodeKind κ} {inputs : List (PlanProperties κ)} {e : DataFusionError} :
    df.check kind inputs = .error e → PlanningError session df e
  | merge {a b : TaskCountRestriction} {e : DataFusionError} :
    a.merge b = .error e → PlanningError session df e
  | capped {min : ℕ+} {maxTasks : ℕ} : maxTasks < min →
    PlanningError session df (.plan (s!"Cannot assign a required task count of {min.val}, " ++
      s!"the max task slots available are {maxTasks}"))
  | negative {i : ℕ} {soft : ℚ} : soft < 0 →
    PlanningError session df (.plan (s!"ChildrenIsolatorUnionExec child {i} has a negative " ++
      s!"soft task-count estimate of {soft}, which is invalid."))

/-- A computation that fails with one of these errors only. -/
abbrev FailsPlanning (session : Session κ) (df : DataFusion κ) {α : Type} (x : Result α) : Prop :=
  FailsOnly (PlanningError session df) x

/-! ## Children -/

variable {children processed : List (Plan κ)} {taskCount : TaskCountAnnotation} {tasks : ℕ}
  {recorded : Option TaskCountAnnotation} {kind : NodeKind κ} {plan : Plan κ}

theorem propagateUnion_failsPlanning {counts : List ℕ} {soft : ℚ}
    (h : List.Forall₂ (fun child (count : ℕ) => ∃ hpos : 0 < count,
      FailsPlanning session df (propagate session df child
        (.ofExact ⟨count, hpos⟩ soft)))
      children counts) :
    FailsPlanning session df (propagateUnion session df children counts soft) := by
  induction h with
  | nil =>
    rw [propagateUnion]
    · exact failsOnly_ok _
    · simp
  | cons hchild _ ih =>
    obtain ⟨hpos, hchild⟩ := hchild
    rw [propagateUnion, dif_pos hpos]
    exact hchild.bind fun _ _ => ih.bind fun _ _ => failsOnly_ok _

/-! ## Task maps -/

/-- Splitting a budget that is enough for the minimum of every child. -/
theorem splitChildren_failsPlanning
    {children : List TaskCountAnnotation} {budget : ℕ} (hbudget : 0 < budget)
    (hne : children ≠ [])
    (hmin : ∀ child ∈ children, ∀ m, child.getMin = some m → (m : ℕ) ≤ budget) :
    FailsPlanning session df (splitChildren children budget) := by
  have hvalid : ∀ i, ∀ child ∈ children, validateRestriction budget i child = .ok () := by
    intro i child hchild
    have hchildMin := hmin child hchild
    obtain ⟨soft, restriction⟩ := child
    cases restriction with
    | none | max m => rfl
    | exact m | min m => exact if_neg (Nat.not_lt.mpr (hchildMin m rfl))
    | range lo hi lt => exact if_neg (Nat.not_lt.mpr (hchildMin lo rfl))
  have hvalidate : FailsPlanning session df (validate children budget) := by
    unfold validate
    rw [if_neg hbudget.ne', if_neg (by simpa using hne)]
    apply failsOnly_forM
    rintro ⟨child, i⟩ hmem
    dsimp only
    unfold validateChild
    rw [hvalid i child (List.fst_mem_of_mem_zipIdx hmem)]
    split
    · rename_i hnegative
      exact failsOnly_error (.negative hnegative)
    · exact failsOnly_ok ()
  exact hvalidate.bind fun _ _ => failsOnly_ok _

variable {anns childCounts : List TaskCountAnnotation} {newChildren : List (Plan κ)}
  {parent : NodeKind κ}

/-- Building a union for a number of tasks that its annotations can be split over. -/
theorem fromChildrenAndAnnotations_failsPlanning (hlength : children.length = anns.length)
    (hsplit : FailsPlanning session df (splitChildren anns tasks)) :
    FailsPlanning session df (ChildrenIsolatorUnionExec.fromChildrenAndAnnotations (childOps df)
      children anns tasks) := by
  unfold ChildrenIsolatorUnionExec.fromChildrenAndAnnotations
  rw [if_neg (by simpa using hlength)]
  refine hsplit.bind fun map hmap => ?_
  -- A map has a row for every task, so there is a largest number of partitions.
  have hpos : 0 < map.length := by
    rw [(splitChildren_isSplit hmap).length_map]
    exact (splitChildren_isSplit hmap).budget_pos
  cases hmax : (ChildrenIsolatorUnionExec.partitionCounts (childOps df) children map).max? with
  | none =>
    rw [List.max?_eq_none_iff, ChildrenIsolatorUnionExec.partitionCounts, List.map_eq_nil_iff]
      at hmax
    rw [hmax] at hpos
    cases hpos
  | some count =>
    refine FailsOnly.bind ?_ fun _ _ => failsOnly_ok _
    intro e he
    exact PlanningError.check he

/-- Replacing the children of a union that has its task map. -/
theorem withNewChildren_failsPlanning {union : ChildrenIsolatorUnionExec (Plan κ)}
    (hplaced : ChildrenIsolatorUnionExec.Placed (childOps df) union tasks)
    (hlength : children.length = union.children.length) :
    FailsPlanning session df (ChildrenIsolatorUnionExec.withNewChildren (childOps df) union
      children) := by
  unfold ChildrenIsolatorUnionExec.withNewChildren
  rw [if_neg (by simpa using hlength), hplaced.split.length_map]
  refine fromChildrenAndAnnotations_failsPlanning (hlength.trans hplaced.length_children) ?_
  rw [hplaced.computed]
  exact failsOnly_ok _

/-! ## New children -/

theorem replaceChildren_union_failsPlanning {tasks : UnionTasks}
    (hplaced : (node (.childrenIsolatorUnion tasks) recorded children).UnionPlaced df)
    (hlength : newChildren.length = children.length) :
    FailsPlanning session df
      ((node (.childrenIsolatorUnion tasks) recorded children).replaceChildren df
      newChildren) :=
  (withNewChildren_failsPlanning (hplaced tasks rfl) hlength).bind fun _ _ => failsOnly_ok _

theorem replaceChildren_transparent_failsPlanning (hkind : kind.isTransparent = true)
    (harity : kind.Arity newChildren.length) :
    FailsPlanning session df ((node kind recorded children).replaceChildren df newChildren) := by
  have hcheck : ∀ kind : NodeKind κ, FailsPlanning session df (do
      df.check kind (newChildren.map (properties df))
      return node kind none newChildren) :=
    fun kind => FailsOnly.bind (fun _ he => .check he) fun _ _ => failsOnly_ok _
  cases kind with
  | childrenIsolatorUnion tasks | networkShuffle exec | networkCoalesce exec
  | networkBroadcast exec => cases hkind
  | broadcast n =>
    obtain ⟨child, rfl⟩ := List.length_eq_one_iff.mp harity
    exact failsOnly_ok _
  | _ => exact hcheck _

/-! ## Propagation -/

theorem propagateLeaf_failsPlanning (plan : Plan κ)
    (taskCount : TaskCountAnnotation) : FailsPlanning session df
    (propagateLeaf session plan taskCount) := by
  unfold propagateLeaf
  split
  · exact failsOnly_ok _
  · rename_i response hresponse
    refine FailsOnly.bind ?_ fun _ _ => failsOnly_ok _
    intro e he
    rw [he] at hresponse
    exact .scaleUpLeafNode hresponse

theorem propagateBoundary_failsPlanning (plan : Plan κ)
    (taskCount : TaskCountAnnotation) :
    FailsPlanning session df (propagateBoundary session df plan taskCount) := by
  unfold propagateBoundary
  split
  · split
    · refine FailsOnly.bind ?_ fun _ _ => failsOnly_ok _
      exact FailsOnly.bind (fun _ he => .check he) fun _ _ => failsOnly_ok _
    · exact failsOnly_ok _
  · exact failsOnly_ok _

/-- A union whose tasks are enough for the minimum of every child. -/
theorem propagate_union_failsPlanning {tasks : UnionTasks} (hne : children ≠ [])
    (hanns : children.mapM Plan.recordedTaskCount = .ok anns)
    (hmin : ∀ child ∈ anns, ∀ m, child.getMin = some m → (m : ℕ) ≤ taskCount.asUsize)
    (hchildren : ∀ child ∈ children, ∀ count : TaskCountAnnotation,
      child.AllowsTasks count.asUsize → FailsPlanning session df
        (propagate session df child count)) :
    FailsPlanning session df (propagate session df
      (node (.childrenIsolatorUnion tasks) recorded children)
      taskCount) := by
  have hlength : children.length = anns.length := (mapM_ok_iff.mp hanns).length_eq
  have hannsNe : anns ≠ [] := by
    intro hnil
    rw [hnil] at hlength
    exact hne (List.length_eq_zero_iff.mp hlength)
  rw [propagate.eq_def]
  dsimp only
  rw [if_neg (by simp [hne]), hanns]
  refine (failsOnly_ok anns).bind fun _ hsame => ?_
  cases hsame
  refine (fromChildrenAndAnnotations_failsPlanning hlength
    (splitChildren_failsPlanning taskCount.asUsize_pos hannsNe hmin)).bind fun placed hplaced => ?_
  obtain ⟨hplacedOk, hsame, -⟩ :=
    ChildrenIsolatorUnionExec.fromChildrenAndAnnotations_placed hplaced
  have hcounts : placed.childTaskCounts.length = children.length := by
    rw [← hsame]
    exact Plan.length_unionTaskCounts _ _
  refine FailsOnly.bind ?_ fun newChildren hnew => ?_
  · refine propagateUnion_failsPlanning (forall₂_imp_of_mem (union_children_allow hanns hplaced) ?_)
    rintro child hchild count ⟨hpos, hallows⟩
    exact ⟨hpos, hchildren child hchild _ hallows⟩
  · have hnewLength := (propagateUnion_ok hcounts hnew).1
    refine FailsOnly.bind ?_ fun _ _ => failsOnly_ok _
    rw [← hsame] at hnewLength ⊢
    exact (withNewChildren_failsPlanning hplacedOk hnewLength).bind fun _ _ => failsOnly_ok _

theorem propagate_transparent_failsPlanning (hkind : kind.isTransparent = true)
    (harity : kind.Arity children.length) (hchildren : ∀ child ∈ children, FailsPlanning session df
      (propagate session df child taskCount)) :
    FailsPlanning session df (propagate session df (node kind recorded children) taskCount) := by
  obtain ⟨hboundary, hunion⟩ := NodeKind.isTransparent_iff.mp hkind
  rw [propagate.eq_def]
  dsimp only
  split
  · exact propagateLeaf_failsPlanning _ _
  · rw [hboundary, if_neg Bool.false_ne_true]
    split
    · exact absurd rfl (hunion _)
    · rw [propagateAll_eq_mapM]
      refine (failsOnly_mapM hchildren).bind fun newChildren hnew => ?_
      refine FailsOnly.bind ?_ fun _ _ => failsOnly_ok _
      apply replaceChildren_transparent_failsPlanning hkind
      rwa [← (mapM_ok_iff.mp hnew).length_eq]

theorem propagate_boundary_failsPlanning (hkind : kind.isNetworkBoundary = true)
    (taskCount : TaskCountAnnotation) :
    FailsPlanning session df (propagate session df (node kind recorded children) taskCount) := by
  rw [propagate.eq_def]
  dsimp only
  rw [hkind, if_neg (by simp)]
  exact propagateBoundary_failsPlanning _ _

/-! ## The minimum of a union -/

/-- A minimum that `tasks` tasks satisfy. -/
def AtMost (tasks : ℕ) (min : Option ℕ+) : Prop :=
  ∀ m, min = some m → (m : ℕ) ≤ tasks

theorem atMost_foldl {start : Option ℕ+} (h : AtMost tasks (childCounts.foldl
      (fun (min : Option ℕ+) childCount =>
        match childCount.getMin with
        | some count => some (match min with
          | some current => max current count
          | none => count)
        | none => min) start)) :
    AtMost tasks start ∧ ∀ childCount ∈ childCounts, AtMost tasks childCount.getMin := by
  induction childCounts generalizing start with
  | nil => exact ⟨h, List.forall_mem_nil _⟩
  | cons childCount childCounts ih =>
    rw [List.foldl_cons] at h
    obtain ⟨hstep, hrest⟩ := ih h
    have hboth : AtMost tasks start ∧ AtMost tasks childCount.getMin := by
      revert hstep
      cases childCount.getMin <;> cases start <;> simp [AtMost, TaskCountRestriction.coe_sup]
    exact ⟨hboth.1, List.forall_mem_cons.mpr ⟨hboth.2, hrest⟩⟩

/-- What a union reports upward as allowed is enough for the minimum of every child. -/
theorem unionTaskCount_allows (h : (unionTaskCount childCounts).restriction.Allows tasks) :
    ∀ childCount ∈ childCounts, AtMost tasks childCount.getMin := by
  have hmin := @atMost_foldl tasks childCounts none
  refine (hmin ?_).2
  intro m hm
  unfold unionTaskCount at h
  dsimp only at h
  split at h
  · rename_i value hvalue
    obtain rfl : value = m := Option.some.inj (hvalue.symm.trans hm)
    exact h
  · rename_i hnone
    cases hnone.symm.trans hm

/-! ## Open stages -/

/-- A visited node has a recorded task count, and closing its stage with a task count that it
allows fails with planning errors only. -/
structure ClosesOnly (session : Session κ) (df : DataFusion κ) (plan : Plan κ) :
    Prop where
  recorded : ∃ taskCount, plan.taskCount = some taskCount
  closes : ∀ taskCount, plan.AllowsTasks taskCount.asUsize →
    FailsPlanning session df (propagate session df plan taskCount)

theorem ClosesOnly.recordedTaskCount (h : ClosesOnly session df plan) :
    FailsPlanning session df plan.recordedTaskCount := by
  obtain ⟨taskCount, htaskCount⟩ := h.recorded
  rw [Plan.recordedTaskCount_ok.mpr htaskCount]
  exact failsOnly_ok _

theorem ClosesOnly.cardinalityBasedBuilder
    (h : ClosesOnly session df (plan.withTaskCount taskCount)) (tasks : ℕ) (kind : BoundaryKind) :
    FailsPlanning session df (cardinalityBasedBuilder session df (plan.withTaskCount taskCount)
      tasks kind) := by
  refine h.recordedTaskCount.bind fun found hfound => ?_
  rw [Plan.recordedTaskCount_ok, taskCount_withTaskCount, Option.some.injEq] at hfound
  subst hfound
  refine (h.closes taskCount (allowsTasks_withTaskCount _ _)).bind fun _ _ => ?_
  cases kind <;> exact failsOnly_ok _

theorem cardinalityBasedBuilder_coalesce {result : BuilderResult κ}
    (h : cardinalityBasedBuilder session df plan tasks .coalesce = .ok result) :
    result.consumerTaskCount.restriction = .exact 1 := by
  obtain ⟨found, -, h⟩ := bind_ok_iff.mp h
  obtain ⟨staged, -, h⟩ := bind_ok_iff.mp h
  cases h
  rfl

theorem ClosesOnly.placeCoalesce (h : ClosesOnly session df (plan.withTaskCount taskCount)) :
    FailsPlanning session df
      (placeCoalesce (DatafusionDistributed.cardinalityBasedBuilder session df)
      plan taskCount) := by
  refine (h.cardinalityBasedBuilder _ _).bind fun result hresult => ?_
  rw [if_neg (by simpa using cardinalityBasedBuilder_coalesce hresult)]
  exact failsOnly_ok _

/-- The end of the visit of a node, of which the stage is closed here if the node is the root. -/
theorem ClosesOnly.placeNode {parent : Option (NodeKind κ)}
    (h : ClosesOnly session df (plan.withTaskCount taskCount))
    (hhead : FailsPlanning session df (propagate session df plan taskCount)) :
    FailsPlanning session df (placeNode session df
      (DatafusionDistributed.cardinalityBasedBuilder session df)
      parent plan taskCount) := by
  have hopen : ∀ parent : NodeKind κ, FailsPlanning session df (if parent.isFold then
      DatafusionDistributed.placeCoalesce
        (DatafusionDistributed.cardinalityBasedBuilder session df) plan taskCount
      else .ok (plan.withTaskCount taskCount)) := by
    intro parent
    split
    · exact h.placeCoalesce
    · exact failsOnly_ok _
  obtain ⟨kind, recorded, children⟩ := plan
  cases kind with
  | repartition partitioning preserveOrder =>
    unfold DatafusionDistributed.placeNode
    simp only [kind_node]
    split
    · exact (h.cardinalityBasedBuilder _ _).bind fun _ _ => failsOnly_ok _
    · cases parent with
      | none => exact hhead
      | some parent => exact hopen parent
  | broadcast n => exact (h.cardinalityBasedBuilder _ _).bind fun _ _ => failsOnly_ok _
  | _ =>
    cases parent with
    | none => exact hhead
    | some parent => exact hopen parent

theorem desiredOr_failsPlanning (plan : Plan κ)
    (fallback : TaskCountAnnotation) : FailsPlanning session df
    (desiredOr session plan fallback) := by
  unfold desiredOr
  split
  · rename_i response hresponse
    intro e he
    rw [he] at hresponse
    exact .desiredTaskCount hresponse
  · exact failsOnly_ok _

theorem mergeChildren_failsPlanning (h : ∀ child ∈ processed, ClosesOnly session df child)
    (taskCount : TaskCountAnnotation) :
    FailsPlanning session df (mergeChildren taskCount processed) := by
  refine failsOnly_foldlM ?_ taskCount
  intro child hchild current
  refine (h child hchild).recordedTaskCount.bind fun childCount _ => ?_
  exact FailsOnly.bind (fun _ he => .merge he) fun _ _ => failsOnly_ok _

theorem reconcile_failsPlanning (plan : Plan κ)
    (h : ∀ child ∈ processed, ClosesOnly session df child) :
    FailsPlanning session df (reconcile session plan processed) := by
  unfold reconcile
  split
  · exact desiredOr_failsPlanning _ _
  · split
    · refine (failsOnly_mapM fun child hchild => (h child hchild).recordedTaskCount).bind
        fun _ _ => failsOnly_ok _
    · split
      · exact mergeChildren_failsPlanning h _
      · exact (desiredOr_failsPlanning _ _).bind fun taskCount _ =>
          mergeChildren_failsPlanning h taskCount

theorem maxTasks_failsPlanning : FailsPlanning session df session.maxTasks := by
  unfold Session.maxTasks
  split
  · exact FailsOnly.bind (fun _ he => .workerUrls he) fun _ _ => failsOnly_ok _
  · exact failsOnly_ok _

theorem capTaskCount_failsPlanning (maxTasks : ℕ)
    (taskCount : TaskCountAnnotation) : FailsPlanning session df
    (capTaskCount maxTasks taskCount) := by
  unfold capTaskCount
  split
  · split
    · rename_i hlt
      exact failsOnly_error (.capped hlt)
    · exact failsOnly_ok _
  · exact failsOnly_ok _

theorem openNode_failsPlanning (hlocal : plan.IsLocal) (hplaced : plan.UnionPlaced df)
    (hlength : processed.length = plan.children.length)
    (h : ∀ child ∈ processed, ClosesOnly session df child) :
    FailsPlanning session df (openNode session df plan processed) := by
  have hreplace : FailsPlanning session df (plan.replaceChildren df processed) := by
    obtain ⟨kind, recorded, children⟩ := plan
    rcases hlocal.union_or_transparent with ⟨union, rfl⟩ | htransparent
    · exact replaceChildren_union_failsPlanning hplaced hlength
    · apply replaceChildren_transparent_failsPlanning htransparent
      rw [hlength]
      exact hlocal.arity
  refine (reconcile_failsPlanning plan h).bind fun reconciled _ => hreplace.bind fun rebuilt _ => ?_
  refine maxTasks_failsPlanning.bind fun maxTasks _ => ?_
  exact (capTaskCount_failsPlanning maxTasks reconciled).bind fun _ _ => failsOnly_ok _

/-- Closing the stage of a visited node, before it is decided whether it ends here. What is
recorded for the node itself does not matter. -/
theorem closesOnly_open {rebuilt : Plan κ} (hlocal : (node kind recorded children).IsLocal)
    (hlength : processed.length = children.length)
    (h : ∀ child ∈ processed, ClosesOnly session df child)
    (hopen : openNode session df (node kind recorded children) processed
      = .ok (rebuilt, taskCount)) :
    ClosesOnly session df (rebuilt.withTaskCount taskCount) ∧
      FailsPlanning session df (propagate session df rebuilt taskCount) := by
  obtain ⟨reconciled, hreconciled, hrestriction, -⟩ := openNode_ok hopen
  have harity := hlocal.arity
  rw [children_node, ← hlength] at harity
  obtain ⟨newKind, rfl, hcloses⟩ : ∃ newKind, rebuilt = node newKind none processed ∧
      ∀ newRecorded final, taskCount.restriction.Allows final.asUsize →
        FailsPlanning session df (propagate session df (node newKind newRecorded processed)
          final) := by
    rcases openNode_local hlocal hlength hopen with ⟨union, newUnion, rfl, hne, rfl⟩ |
      ⟨htransparent, rfl, hallows⟩
    · refine ⟨_, rfl, fun newRecorded final hfinal => ?_⟩
      have hleaf : children ≠ [] := List.ne_nil_of_length_pos (by rw [← hlength]; exact harity)
      unfold reconcile at hreconciled
      rw [if_neg (by simpa using hleaf)] at hreconciled
      obtain ⟨anns, hanns, hreconciled⟩ := bind_ok_iff.mp hreconciled
      cases hreconciled
      rw [hrestriction] at hfinal
      exact propagate_union_failsPlanning hne hanns (unionTaskCount_allows hfinal)
        fun child hchild count hallows => (h child hchild).closes count hallows
    · refine ⟨kind, rfl, fun newRecorded final hfinal => ?_⟩
      refine propagate_transparent_failsPlanning htransparent harity ?_
      exact fun child hchild => (h child hchild).closes final (hallows _ hfinal child hchild)
  refine ⟨⟨⟨taskCount, rfl⟩, ?_⟩, hcloses none taskCount taskCount.allows_asUsize⟩
  intro final hfinal
  exact hcloses _ final (allowsTasks_node.mp hfinal)

/-! ## Visits -/

theorem closesOnly_placed {out : Plan κ} (h : ClosesOnly session df (plan.withTaskCount taskCount))
    (hplaced : NodePlaced session df (cardinalityBasedBuilder session df) (some parent) plan
      taskCount out) : ClosesOnly session df out := by
  have hboundary : ∀ {kind : NodeKind κ} {consumers : TaskCountAnnotation}
      {children : List (Plan κ)}, kind.isNetworkBoundary = true →
      ClosesOnly session df (node kind (some consumers) children) := by
    intro kind consumers children hkind
    exact ⟨⟨consumers, rfl⟩, fun count _ => propagate_boundary_failsPlanning hkind count⟩
  cases hplaced with
  | shuffle | broadcast | coalesce => exact hboundary rfl
  | head _ hparent => cases hparent
  | kept => exact h

/-- The run lemma: visiting a node fails with planning errors only, and leaves a node whose stage
can be closed. -/
theorem injectFrom_failsPlanning {parent : Option (NodeKind κ)} (hplan : plan.SingleNode)
    (hunions : plan.Everywhere (Plan.UnionPlaced df)) :
    FailsPlanning session df (injectFrom session df (cardinalityBasedBuilder session df) parent
      plan) ∧
      ∀ inner out, parent = some inner →
        injectFrom session df (cardinalityBasedBuilder session df) parent plan
          = .ok out → ClosesOnly session df out := by
  induction plan using Plan.induction generalizing parent with
  | node kind recorded children ih =>
    obtain ⟨hnode, hchildren⟩ := everywhere_iff.mp hplan
    obtain ⟨hunion, hchildUnions⟩ := everywhere_iff.mp hunions
    have hvisits := fun child hchild =>
      @ih child hchild (some kind) (hchildren child hchild) (hchildUnions child hchild)
    have hclosed : ∀ {processed : List (Plan κ)},
        injectAll session df (cardinalityBasedBuilder session df) kind children = .ok processed →
        ∀ child ∈ processed, ClosesOnly session df child := by
      intro processed hprocessed
      exact injectAll_forall (fun child hchild out hout =>
        (hvisits child hchild).2 kind out rfl hout) hprocessed
    constructor
    · refine FailsOnly.bind ?_ fun processed hprocessed => ?_
      · rw [injectAll_eq_mapM]
        exact failsOnly_mapM fun child hchild => (hvisits child hchild).1
      · have hlength := (injectAll_ok hprocessed).length_eq.symm
        refine (openNode_failsPlanning hnode hunion hlength (hclosed hprocessed)).bind ?_
        rintro ⟨rebuilt, taskCount⟩ hopen
        obtain ⟨hcloses, hhead⟩ :=
          closesOnly_open hnode hlength (hclosed hprocessed) hopen
        exact hcloses.placeNode hhead
    · rintro inner out rfl h
      obtain ⟨processed, rebuilt, taskCount, hprocessed, hopen, hplaced⟩ := injectFrom_ok h
      have hlength := (injectAll_ok hprocessed).length_eq.symm
      exact closesOnly_placed
        (closesOnly_open hnode hlength (hclosed hprocessed) hopen).1 hplaced

theorem injectNetworkBoundaries_failsPlanning (hplan : plan.SingleNode)
    (hunions : plan.Everywhere (Plan.UnionPlaced df)) :
    FailsPlanning session df (injectNetworkBoundaries session df
      (cardinalityBasedBuilder session df) plan) :=
  (injectFrom_failsPlanning hplan hunions).1

/-! ## Soundness of the restrictions -/

/-- If planning succeeds, every stage below the head runs in one to `M` tasks, every node of such
a stage in a number of tasks that its handlers allow, and every coalesce in one task.
Planning fails only for what the handlers, the workers or DataFusion answered. -/
theorem restrictions_sound {plan : Plan κ} (hplan : plan.SingleNode)
    (hunions : plan.Everywhere (Plan.UnionPlaced df)) :
    (∀ M out, session.maxTasks = .ok M →
      injectNetworkBoundaries session df (cardinalityBasedBuilder session df) plan = .ok out →
      Honours session M false plan out 1 ∧ out.ForallRuns CoalesceAlone 1) ∧
    ∀ e, injectNetworkBoundaries session df (cardinalityBasedBuilder session df) plan = .error e →
      PlanningError session df e := by
  refine ⟨fun M out hmax h => ⟨inject_honours hmax hplan h, ?_⟩,
    injectNetworkBoundaries_failsPlanning hplan hunions⟩
  exact inject_coalesce_runs (cardinalityBasedBuilder_closes session df)
    (cardinalityBasedBuilder_keepsAssembled session df) hplan h

/-- One scan asks for exactly two tasks, the other one for at least three. -/
def restrictedScans : Session ℕ :=
  { Session.ofEstimates {} fun _ => 1 with
    desiredTaskCount := fun plan =>
      match plan with
      | .node (.other 1) _ [] => some (.ok (.ofExact 2 1))
      | .node (.other 2) _ [] => some (.ok (.ofMin 3 1))
      | _ => none }

/-- A shuffle over the union of both, as `insert_children_isolator_unions` leaves it. -/
def restrictedUnion : Plan ℕ :=
  node (.coalescePartitions none) none
    [node (.repartition (.hash [.expr 0] 2) false) none
      [node (.childrenIsolatorUnion
          ⟨2, [.ofSoft 1, .ofSoft 1],
            [[(0, ⟨0, 1⟩), (1, ⟨0, 1⟩)]]⟩) none
        [node (.other 1) none [], node (.other 2) none []]]]

theorem restrictedUnion_singleNode : restrictedUnion.SingleNode :=
  singleNode_unary rfl (by rfl) (singleNode_unary rfl (by rfl)
    (singleNode_binary rfl (by exact Nat.zero_lt_two) (singleNode_leaf _ _) (singleNode_leaf _ _) _)
    _) _

theorem restrictedUnion_placed :
    restrictedUnion.Everywhere (Plan.UnionPlaced (.ofLeaves fun _ => 1)) := by
  have hleaf : ∀ op, (node (.other op) none [] : Plan ℕ).Everywhere
      (Plan.UnionPlaced (.ofLeaves fun _ => 1)) :=
    fun op => .node (fun union hunion => by cases hunion) (List.forall_mem_nil _)
  refine everywhere_unary (fun union hunion => by cases hunion)
    (everywhere_unary (fun union hunion => by cases hunion)
      (everywhere_binary ?_ (hleaf 1) (hleaf 2)))
  intro union hunion
  cases hunion
  exact ⟨eq_ok_of_toOption (by decide +kernel), rfl, by decide +kernel⟩

/-- The stage of the union runs in three of four possible tasks, the scans in two and in three of
them. -/
theorem restrictedUnion_sound :
    ∃ out, injectNetworkBoundaries restrictedScans (.ofLeaves fun _ => 1)
        (cardinalityBasedBuilder restrictedScans (.ofLeaves fun _ => 1)) restrictedUnion = .ok out ∧
      (∃ run ∈ out.runs 1, run.1.kind = .other 1 ∧ run.2 = 2) ∧
      (∃ run ∈ out.runs 1, run.1.kind = .other 2 ∧ run.2 = 3) ∧
      Honours restrictedScans 4 false restrictedUnion out 1 ∧ out.ForallRuns CoalesceAlone 1 := by
  have hok : ∃ out, injectNetworkBoundaries restrictedScans (.ofLeaves fun _ => 1)
      (cardinalityBasedBuilder restrictedScans (.ofLeaves fun _ => 1)) restrictedUnion = .ok out ∧
        (∃ run ∈ out.runs 1, run.1.kind = .other 1 ∧ run.2 = 2) ∧
          ∃ run ∈ out.runs 1, run.1.kind = .other 2 ∧ run.2 = 3 :=
    exists_ok_of_decide (by decide +kernel)
  obtain ⟨out, hout, htwo, hthree⟩ := hok
  exact ⟨out, hout, htwo, hthree,
    (restrictions_sound restrictedUnion_singleNode restrictedUnion_placed).1 4 out rfl hout⟩

/-! ## The stages that a coalesce stands in -/

mutual

/-- A `NetworkCoalesceExec` stands in the stage of which the plan is the root. -/
def Plan.readsCoalesce : Plan κ → Bool
  | node (.networkCoalesce _) _ _ => true
  | node kind _ children => !kind.isNetworkBoundary && readsCoalesceAny children

def Plan.readsCoalesceAny : List (Plan κ) → Bool
  | [] => false
  | child :: children => child.readsCoalesce || readsCoalesceAny children

end

/-- Both scans ask for four tasks. -/
def fourTaskScans : Session ℕ :=
  Session.ofEstimates {} fun _ => 4

/-- A shuffle over the union of a coalesced scan and another one. -/
def coalesceInUnion : Plan ℕ :=
  node (.coalescePartitions none) none
    [node (.repartition (.hash [.expr 0] 2) false) none
      [node (.childrenIsolatorUnion
          ⟨2, [.ofSoft 1, .ofSoft 1], [[(0, ⟨0, 1⟩), (1, ⟨0, 1⟩)]]⟩) none
        [node (.coalescePartitions none) none [node (.other 1) none []], node (.other 2) none []]]]

/-- The shuffle reads a stage of four tasks. The union gives one of them to the coalesce that stands
in this stage. -/
theorem coalesce_in_stage_of_four :
    ∃ out, injectNetworkBoundaries fourTaskScans (.ofLeaves fun _ => 1)
        (cardinalityBasedBuilder fourTaskScans (.ofLeaves fun _ => 1)) coalesceInUnion = .ok out ∧
      ∃ run ∈ out.runs 1, run.1.kind.inputStage.any (·.taskCount = 4) ∧
        readsCoalesceAny run.1.children = true :=
  exists_ok_of_decide (by decide +kernel)

end DatafusionDistributed
