import DatafusionDistributed.DistributedPlanner.Injected
import DatafusionDistributed.DistributedPlanner.Prepared

/-!
# Invariants of planned stages

A rule for properties of the form "every node, together with the number of tasks it runs in,
satisfies `P`". `StageInvariant` collects what has to be shown for each kind of node. From it
follows that the plan which `inject_network_boundaries` and `prepare_network_boundaries` return
satisfies the property at every node.

While a stage is open its task count is not known yet. `Ready` says that the property will hold
for any task count that the recorded restriction allows.
-/

namespace DatafusionDistributed

open Library Plan

variable {κ : Type} {session : Session κ} {df : DataFusion κ} {builder : Builder κ}
  {Q : Plan κ → Prop} {P : Plan κ → ℕ → Prop}

/-- The nodes that only move rows between partitions and tasks. -/
def NodeKind.isRouting : NodeKind κ → Bool
  | .repartition _ _ | .broadcast _ => true
  | kind => kind.isNetworkBoundary

/-- The plans that a builder hands on are closed with the task count of their stage, which is one
that the plan allows. -/
def Builder.Closes (session : Session κ) (df : DataFusion κ) (builder : Builder κ) : Prop :=
  ∀ (plan : Plan κ) (taskCount : TaskCountAnnotation) (boundary : BoundaryKind)
    (result : BuilderResult κ),
    builder (plan.withTaskCount taskCount) taskCount.asUsize boundary = .ok result →
    ∀ staged ∈ result.children, ∃ final : TaskCountAnnotation,
      taskCount.restriction.Allows final.asUsize ∧
        result.inputStage.taskCount = final.asUsize ∧
        Propagated session df final (plan.withTaskCount taskCount) staged

/-- `P` is kept by the planner at every node, for plans whose nodes satisfy `Q`. -/
structure StageInvariant (session : Session κ) (df : DataFusion κ) (builder : Builder κ)
    (Q : Plan κ → Prop) (P : Plan κ → ℕ → Prop) : Prop where
  closes : builder.Closes session df
  isLocal : ∀ plan, Q plan → plan.IsLocal
  routing : ∀ plan tasks, plan.kind.isRouting = true → P plan tasks
  leaf : ∀ kind recorded tasks, kind.Arity 0 → P (node kind recorded []) tasks
  union : ∀ union recorded children tasks, union.taskIdxMap.length = tasks →
    P (node (.childrenIsolatorUnion union) recorded children) tasks
  transparent : ∀ {kind recorded children processed reconciled taskCount newChildren},
    Q (node kind recorded children) → kind.isTransparent = true → kind.isRouting = false →
    children ≠ [] →
    injectAll session df builder kind children = .ok processed →
    reconcile session (node kind recorded children) processed = .ok reconciled →
    reconciled.restriction.Allows taskCount.asUsize →
    (∀ (i : ℕ) (child newChild : Plan κ), processed[i]? = some child →
      newChildren[i]? = some newChild → Propagated session df taskCount child newChild) →
    newChildren.length = processed.length →
    P (node kind (some taskCount) newChildren) taskCount.asUsize
  prepared : ∀ {kind recorded newRecorded children newChildren tasks},
    kind.isTransparent = true → kind.isRouting = false →
    P (node kind recorded children) tasks → newChildren.length = children.length →
    (∀ (i : ℕ) (child newChild : Plan κ), children[i]? = some child →
      newChildren[i]? = some newChild → Prepared df tasks child newChild) →
    P (node kind newRecorded newChildren) tasks
  preparedUnion : ∀ {union newUnion recorded newRecorded children newChildren tasks},
    newUnion.taskIdxMap.length = union.taskIdxMap.length →
    P (node (.childrenIsolatorUnion union) recorded children) tasks →
    P (node (.childrenIsolatorUnion newUnion) newRecorded newChildren) tasks

/-- What is carried along for every node: the property, and the invariant of the unions. -/
def Sound (df : DataFusion κ) (P : Plan κ → ℕ → Prop) (plan : Plan κ) (tasks : ℕ) : Prop :=
  P plan tasks ∧ plan.UnionPlaced df

variable {kind parent : NodeKind κ} {recorded : Option TaskCountAnnotation}
  {children newChildren : List (Plan κ)} {out plan : Plan κ} {taskCount : TaskCountAnnotation}
  {anns : List TaskCountAnnotation} {placed rebuilt : ChildrenIsolatorUnionExec (Plan κ)}
  {tasks : ℕ} {union : UnionTasks}

theorem unionPlaced_of_not_union (h : ∀ union, kind ≠ .childrenIsolatorUnion union) :
    (node kind recorded children).UnionPlaced df := by
  intro union hunion
  exact absurd hunion (h union)

theorem NodeKind.not_union_of_routing (h : kind.isRouting = true) (union : UnionTasks) :
    kind ≠ .childrenIsolatorUnion union := by
  intro hkind
  rw [hkind] at h
  cases h

theorem NodeKind.routing_of_boundary (h : kind.isNetworkBoundary = true) :
    kind.isRouting = true := by
  cases kind <;> first | rfl | cases h

theorem StageInvariant.sound_routing (inv : StageInvariant session df builder Q P)
    (h : kind.isRouting = true) (recorded : Option TaskCountAnnotation) (children : List (Plan κ))
    (tasks : ℕ) : Sound df P (node kind recorded children) tasks :=
  ⟨inv.routing _ _ h, unionPlaced_of_not_union (NodeKind.not_union_of_routing h)⟩

/-! ## Open stages -/

/-- For every task count the plan allows, closing its stage makes the property true. -/
def Ready (session : Session κ) (df : DataFusion κ) (P : Plan κ → ℕ → Prop) (plan : Plan κ) :
    Prop :=
  ∀ taskCount out, plan.AllowsTasks taskCount.asUsize →
    Propagated session df taskCount plan out →
    out.ForallRuns (Sound df P) taskCount.asUsize

/-- A boundary over a closed stage: the number of its own tasks does not matter. -/
theorem StageInvariant.boundary_runs (inv : StageInvariant session df builder Q P) {stage : Stage}
    (hstage : kind.inputStage = some stage)
    (hruns : ∀ staged ∈ children, staged.ForallRuns (Sound df P) stage.taskCount)
    (recorded : Option TaskCountAnnotation) (tasks : ℕ) :
    (node kind recorded children).ForallRuns (Sound df P) tasks := by
  have hrouting : kind.isRouting = true :=
    NodeKind.routing_of_boundary (NodeKind.isNetworkBoundary_of_inputStage hstage)
  exact (forallRuns_boundary hstage).mpr ⟨inv.sound_routing hrouting _ _ _, hruns⟩

theorem StageInvariant.boundary_propagated (inv : StageInvariant session df builder Q P)
    {stage : Stage} (hstage : kind.inputStage = some stage)
    (hruns : ∀ staged ∈ children, staged.ForallRuns (Sound df P) stage.taskCount)
    (h : Propagated session df taskCount (node kind recorded children) out) (tasks : ℕ) :
    out.ForallRuns (Sound df P) tasks := by
  cases h with
  | leaf hboundary =>
    rw [NodeKind.isNetworkBoundary_of_inputStage hstage] at hboundary
    cases hboundary
  | boundary _ _ => exact inv.boundary_runs hstage hruns _ _
  | @twoPhase shuffle _ _ _ _ _ =>
    have htwo : (NodeKind.networkShuffle shuffle.toTwoPhaseSalted).inputStage = some stage :=
      hstage
    refine (forallRuns_transparent rfl).mpr ⟨inv.sound_routing rfl _ _ _, ?_⟩
    exact List.forall_mem_singleton.mpr (inv.boundary_runs htwo hruns _ _)
  | union => cases hstage
  | transparent htransparent =>
    have hboundary := (NodeKind.isTransparent_iff.mp htransparent).1
    rw [NodeKind.isNetworkBoundary_of_inputStage hstage] at hboundary
    cases hboundary

/-- The tasks a union gives to its children: at least one for each, and as many as the child
allows. -/
theorem union_children_allow (hanns : children.mapM Plan.recordedTaskCount = .ok anns)
    (hplaced : ChildrenIsolatorUnionExec.fromChildrenAndAnnotations (childOps df) children anns
      tasks = .ok placed) :
    List.Forall₂ (fun child count => 0 < count ∧ child.AllowsTasks count) children
      placed.childTaskCounts := by
  obtain ⟨hplacedOk, -, hannsEq⟩ :=
    ChildrenIsolatorUnionExec.fromChildrenAndAnnotations_placed hplaced
  have hwithin := hplacedOk.split.within
  rw [hplacedOk.childTaskCounts_eq, hannsEq]
  rw [hannsEq] at hwithin
  generalize SplitChildren.childTaskCounts anns tasks = counts at hwithin
  have hrecorded := mapM_ok_iff.mp hanns
  clear hanns hplaced hplacedOk hannsEq
  induction hrecorded generalizing counts with
  | nil =>
    cases hwithin
    exact .nil
  | cons hchild _ ih =>
    cases hwithin with
    | cons hone hrest =>
      refine .cons ⟨?_, _, Plan.recordedTaskCount_ok.mp hchild, hone.allows⟩ (ih _ hrest)
      exact Nat.lt_of_lt_of_le Nat.zero_lt_one (le_max_right _ _)

/-- A closed union has its task map. Each child is closed with a task count that it allows, and
that is the number of tasks it runs in. -/
theorem Propagated.union_cases (hne : children ≠ [])
    (h : Propagated session df taskCount (node (.childrenIsolatorUnion union) recorded children)
      out) :
    ∃ newUnion newChildren,
      out = node (.childrenIsolatorUnion newUnion) (some taskCount) newChildren ∧
      newUnion.taskIdxMap.length = taskCount.asUsize ∧ out.UnionPlaced df ∧
      newChildren.length = children.length ∧
      ∀ (i : ℕ) (child newChild : Plan κ), children[i]? = some child →
        newChildren[i]? = some newChild → ∃ final : TaskCountAnnotation,
          child.AllowsTasks final.asUsize ∧ Propagated session df final child newChild ∧
          (newUnion.childTaskCounts newChildren.length).getD i 0 = final.asUsize := by
  cases h with
  | leaf => exact absurd rfl hne
  | boundary hboundary => cases hboundary
  | transparent htransparent => cases htransparent
  | @union _ _ _ newChildren anns placed rebuilt counts _ hanns hplaced hcounts hlength hall
      hrebuilt =>
    obtain ⟨hplacedOk, hchildren, hannsEq⟩ :=
      ChildrenIsolatorUnionExec.fromChildrenAndAnnotations_placed hplaced
    have hrebuiltOk := hplacedOk.withNewChildren hrebuilt
    have hnew := ChildrenIsolatorUnionExec.children_withNewChildren hrebuilt
    have hsameAnns : rebuilt.childAnnotations = anns := by
      rw [ChildrenIsolatorUnionExec.annotations_withNewChildren hrebuilt, hannsEq]
    -- The rebuilt union has the same annotations, so it gives its children the same counts.
    have hsame : rebuilt.childTaskCounts = counts.map PNat.val := by
      rw [← hcounts, hrebuiltOk.childTaskCounts_eq, hplacedOk.childTaskCounts_eq, hsameAnns,
        hannsEq]
    have hlen := hrebuiltOk.split.length_map
    refine ⟨_, newChildren, rfl, hlen, ?_, hlength, ?_⟩
    · intro union hunion
      cases hunion
      rw [hlen, ← hnew]
      exact hrebuiltOk
    · intro i child newChild hchild hi
      obtain ⟨hlt', rfl⟩ := List.getElem?_eq_some_iff.mp hchild
      have hcountsLength := length_unionCounts hplaced hcounts
      have hcount := List.getElem?_eq_getElem (hcountsLength ▸ hlt' : i < counts.length)
      refine ⟨.ofExact counts[i] taskCount.soft, ?_,
        hall i _ newChild _ hchild hi hcount, ?_⟩
      · have hallow := union_children_allow hanns hplaced
        rw [hcounts, List.forall₂_map_right_iff] at hallow
        exact (hallow.get hlt' (hcountsLength ▸ hlt')).2
      · rw [ChildrenIsolatorUnionExec.childTaskCounts, hnew] at hsame
        rw [hsame, List.getD_eq_getElem?_getD, List.getElem?_map, hcount]
        rfl

/-- Any other node keeps its kind, or is a leaf that is scaled up. -/
theorem Propagated.transparent_cases (hkind : kind.isTransparent = true)
    (h : Propagated session df taskCount (node kind recorded children) out) :
    (children = [] ∧ ∃ newKind, (newKind = kind ∨ ∃ op, newKind = .other op) ∧
      out = node newKind (some taskCount) []) ∨
    children ≠ [] ∧ ∃ newChildren, out = node kind (some taskCount) newChildren ∧
      newChildren.length = children.length ∧
      ∀ (i : ℕ) (child newChild : Plan κ), children[i]? = some child →
        newChildren[i]? = some newChild → Propagated session df taskCount child newChild := by
  cases h with
  | leaf _ hsame => exact .inl ⟨rfl, _, hsame, rfl⟩
  | boundary hboundary =>
    rw [(NodeKind.isTransparent_iff.mp hkind).1] at hboundary
    cases hboundary
  | twoPhase | union => cases hkind
  | transparent _ hne hlength hall => exact .inr ⟨hne, _, rfl, hlength, hall⟩

theorem union_runs (hne : children ≠ []) (hready : ∀ child ∈ children, Ready session df P child)
    (h : Propagated session df taskCount (node (.childrenIsolatorUnion union) recorded children)
      out) :
    ∃ newUnion newChildren,
      out = node (.childrenIsolatorUnion newUnion) (some taskCount) newChildren ∧
      newUnion.taskIdxMap.length = taskCount.asUsize ∧ out.UnionPlaced df ∧
      ∀ (i : ℕ) (newChild : Plan κ), newChildren[i]? = some newChild →
        newChild.ForallRuns (Sound df P)
          ((newUnion.childTaskCounts newChildren.length).getD i 0) := by
  obtain ⟨newUnion, newChildren, rfl, hmap, hunionPlaced, hlength, hclosed⟩ := h.union_cases hne
  refine ⟨newUnion, newChildren, rfl, hmap, hunionPlaced, ?_⟩
  intro i newChild hi
  obtain ⟨child, hchild⟩ := exists_getElem? hlength hi
  obtain ⟨final, hallows, hclosed, hcount⟩ := hclosed i child newChild hchild hi
  rw [hcount]
  exact hready child (List.mem_of_getElem? hchild) final newChild hallows hclosed

theorem StageInvariant.ready_open (inv : StageInvariant session df builder Q P)
    {processed : List (Plan κ)} {rebuilt : Plan κ} (hQ : Q (node kind recorded children))
    (hprocessed : injectAll session df builder kind children
      = .ok processed) (hready : ∀ child ∈ processed, Ready session df P child)
    (hopen : openNode session df (node kind recorded children) processed
      = .ok (rebuilt, taskCount)) :
    Ready session df P (rebuilt.withTaskCount taskCount) := by
  obtain ⟨reconciled, hreconciled, hrestriction, -⟩ := openNode_ok hopen
  have hlocal := inv.isLocal _ hQ
  have hlength := (injectAll_ok hprocessed).length_eq
  intro final out hfinal hpropagated
  rw [allowsTasks_withTaskCount_iff] at hfinal
  rcases openNode_local hlocal hlength.symm hopen with ⟨union, newUnion, rfl, hne, rfl⟩ |
    ⟨htransparent, rfl, hallows⟩
  · obtain ⟨newUnion, newChildren, rfl, hmap, hunionPlaced, hruns⟩ :=
      union_runs hne hready hpropagated
    exact forallRuns_iff.mpr ⟨⟨inv.union _ _ _ _ hmap, hunionPlaced⟩, hruns⟩
  · have hplaced : ∀ recorded children, (node kind recorded children).UnionPlaced df :=
      fun _ _ => unionPlaced_of_not_union (NodeKind.isTransparent_iff.mp htransparent).2
    rcases hpropagated.transparent_cases htransparent with ⟨rfl, newKind, hkind, rfl⟩ |
      ⟨hne, newChildren, rfl, hnew, hall⟩
    · have harity : kind.Arity 0 := by
        have harity := hlocal.arity
        rwa [children_node, hlength] at harity
      refine forallRuns_iff.mpr ⟨?_, fun i child hi => by simp at hi⟩
      rcases hkind with rfl | ⟨op, rfl⟩
      · exact ⟨inv.leaf _ _ _ harity, hplaced _ _⟩
      · exact ⟨inv.leaf _ _ _ trivial, unionPlaced_of_not_union fun union hkind => by cases hkind⟩
    · have hchildren : (node kind recorded children).children ≠ [] := by
        rwa [← List.length_pos_iff, children_node, hlength, List.length_pos_iff]
      refine (forallRuns_transparent htransparent).mpr ⟨⟨?_, hplaced _ _⟩, ?_⟩
      · by_cases hrouting : kind.isRouting = true
        · exact inv.routing _ _ hrouting
        · exact inv.transparent hQ htransparent (Bool.eq_false_iff.mpr hrouting) hchildren
            hprocessed hreconciled (hrestriction ▸ hfinal) hall hnew
      · intro newChild hnewChild
        obtain ⟨child, hmem, hclosed⟩ := exists_aligned hnew hall hnewChild
        exact hready child hmem final newChild (hallows _ hfinal child hmem) hclosed

/-! ## Closed stages -/

theorem Propagated.withTaskCount {recorded : TaskCountAnnotation}
    (h : Propagated session df taskCount plan out) :
    Propagated session df taskCount (plan.withTaskCount recorded) out := by
  cases h with
  | leaf hkind hsame => exact .leaf hkind hsame
  | boundary hkind hdirect => exact .boundary hkind hdirect
  | twoPhase hneeds => exact .twoPhase hneeds
  | union hanns hplaced hcounts hlength hall hrebuilt =>
    exact .union hanns hplaced hcounts hlength hall hrebuilt
  | transparent hkind hne hlength hall => exact .transparent hkind hne hlength hall

theorem cardinalityBasedBuilder_closes (session : Session κ) (df : DataFusion κ) :
    (cardinalityBasedBuilder session df).Closes session df := by
  intro plan taskCount boundary result hresult staged hstaged
  obtain ⟨found, closed, hfound, hclosed, hstage, hchildren, -⟩ :=
    cardinalityBasedBuilder_ok hresult
  rw [taskCount_withTaskCount, Option.some.injEq] at hfound
  subst hfound
  rw [hchildren, List.mem_singleton] at hstaged
  subst hstaged
  exact ⟨_, TaskCountAnnotation.allows_asUsize _, by rw [hstage]; rfl, propagate_ok hclosed⟩

/-- The stages that end at a visited node are sound in the tasks they were closed with. -/
theorem Ready.closed_runs (hready : Ready session df P (plan.withTaskCount taskCount))
    (h : ∀ staged ∈ children, ∃ final : TaskCountAnnotation,
      taskCount.restriction.Allows final.asUsize ∧ tasks = final.asUsize ∧
        Propagated session df final (plan.withTaskCount taskCount) staged) :
    ∀ staged ∈ children, staged.ForallRuns (Sound df P) tasks := by
  intro staged hstaged
  obtain ⟨final, hallows, rfl, hpropagated⟩ := h staged hstaged
  exact hready final staged ⟨taskCount, taskCount_withTaskCount _ _, hallows⟩ hpropagated

theorem allowsTasks_withTaskCount (plan : Plan κ) (taskCount : TaskCountAnnotation) :
    (plan.withTaskCount taskCount).AllowsTasks taskCount.asUsize :=
  ⟨taskCount, taskCount_withTaskCount _ _, taskCount.allows_asUsize⟩

section Closed

variable (inv : StageInvariant session df builder Q P)
include inv

/-- The visited node after its stage ended, or was kept open. -/
theorem StageInvariant.ready_placed (hready : Ready session df P (plan.withTaskCount taskCount))
    (h : NodePlaced session df builder (some parent) plan taskCount
      out) : Ready session df P out := by
  rcases h.ends_or_kept with ⟨kind, recorded, boundary, result, rfl, hstage, -, hresult⟩ |
    ⟨hparent, -, -⟩ | ⟨-, -, rfl⟩
  · intro final out _ hpropagated
    have hruns := hready.closed_runs (inv.closes _ _ _ _ hresult)
    exact inv.boundary_propagated hstage hruns hpropagated _
  · cases hparent
  · exact hready

/-- The run lemma of the injection: every visited node below the root is ready. -/
theorem StageInvariant.ready (hQ : plan.Everywhere Q)
    (h : injectFrom session df builder (some parent) plan = .ok out) : Ready session df P out := by
  induction plan using Plan.induction generalizing parent out with
  | node kind recorded children ih =>
    obtain ⟨hnode, hchildren⟩ := everywhere_iff.mp hQ
    obtain ⟨processed, rebuilt, taskCount, hprocessed, hopen, hplaced⟩ := injectFrom_ok h
    refine inv.ready_placed (inv.ready_open hnode hprocessed ?_ hopen) hplaced
    refine injectAll_forall ?_ hprocessed
    intro child hchild out hout
    exact ih child hchild (hchildren child hchild) hout

/-- The plan as a whole is sound for the tasks with which the head stage was closed. -/
theorem StageInvariant.inject_runs {rebuilt : Plan κ} (hQ : plan.Everywhere Q)
    (hopen : openHead session df builder plan
      = .ok (rebuilt, taskCount)) (h : NodePlaced session df builder none rebuilt taskCount out) :
    out.ForallRuns (Sound df P) taskCount.asUsize := by
  obtain ⟨kind, recorded, children⟩ := plan
  obtain ⟨hnode, hchildren⟩ := everywhere_iff.mp hQ
  obtain ⟨processed, hprocessed, hopen⟩ := bind_ok_iff.mp hopen
  have hready := inv.ready_open hnode hprocessed
    (injectAll_forall (fun child hchild _ hout => inv.ready (hchildren child hchild) hout)
      hprocessed) hopen
  rcases h.ends_or_kept with ⟨kind, recorded, boundary, result, rfl, hstage, -, hresult⟩ |
    ⟨-, -, hout⟩ | ⟨hparent, -, -⟩
  · exact inv.boundary_runs hstage (hready.closed_runs (inv.closes _ _ _ _ hresult)) _ _
  · exact hready taskCount out (allowsTasks_withTaskCount _ _) hout.withTaskCount
  · exact absurd rfl hparent

end Closed

/-! ## The head stage -/

/-- Below the head stage every node satisfies `Q`. The head stage ends where a stage ends, and
the children of a union are not part of it. -/
inductive Plan.BelowHead (Q : Plan κ → Prop) : Option (NodeKind κ) → Plan κ → Prop
  | everywhere {parent : Option (NodeKind κ)} {plan : Plan κ} :
    plan.Everywhere Q → BelowHead Q parent plan
  | union {parent : Option (NodeKind κ)} {union : UnionTasks}
      {recorded : Option TaskCountAnnotation} {children : List (Plan κ)} :
    (node (.childrenIsolatorUnion union) recorded children).IsLocal →
    endsStage parent (NodeKind.childrenIsolatorUnion union : NodeKind κ) = false →
    (∀ child ∈ children, child.Everywhere Q) →
    BelowHead Q parent (node (.childrenIsolatorUnion union) recorded children)
  | transparent {parent : Option (NodeKind κ)} {kind : NodeKind κ}
      {recorded : Option TaskCountAnnotation} {children : List (Plan κ)} :
    (node kind recorded children).IsLocal → kind.isTransparent = true →
    endsStage parent kind = false → (∀ child ∈ children, BelowHead Q (some kind) child) →
    BelowHead Q parent (node kind recorded children)

/-- Closing the head stage makes the property true when the head stage runs in one task. -/
def HeadReady (session : Session κ) (df : DataFusion κ) (P : Plan κ → ℕ → Prop)
    (plan : Plan κ) : Prop :=
  ∀ taskCount out, plan.AllowsTasks taskCount.asUsize →
    Propagated session df taskCount plan out → out.ForallRuns (Sound df P) 1

/-- A stage that is ready for the tasks it is closed with is ready to run in one task. -/
theorem Ready.headReady (hone : ∀ plan, P plan 1) (h : Ready session df P plan) :
    HeadReady session df P plan := by
  intro taskCount out hallows hpropagated
  exact forallRuns_one (fun plan _ hsound => ⟨hone plan, hsound.2⟩)
    (h taskCount out hallows hpropagated)

/-- A union of the head stage. Its children run in the tasks of the map it was given. -/
theorem headReady_union (hone : ∀ plan, P plan 1) (hne : children ≠ [])
    (hready : ∀ child ∈ children, Ready session df P child) :
    HeadReady session df P (node (.childrenIsolatorUnion union) recorded children) := by
  intro taskCount out _ hpropagated
  obtain ⟨newUnion, newChildren, rfl, -, hunionPlaced, hruns⟩ := union_runs hne hready hpropagated
  exact forallRuns_iff.mpr ⟨⟨hone _, hunionPlaced⟩, hruns⟩

theorem headReady_transparent (hone : ∀ plan, P plan 1) (hkind : kind.isTransparent = true)
    (hallows : ∀ tasks, (node kind recorded children).AllowsTasks tasks →
      ∀ child ∈ children, child.AllowsTasks tasks)
    (hready : ∀ child ∈ children, HeadReady session df P child) :
    HeadReady session df P (node kind recorded children) := by
  have hnot := (NodeKind.isTransparent_iff.mp hkind).2
  intro taskCount out htasks hpropagated
  rcases hpropagated.transparent_cases hkind with ⟨rfl, newKind, hsame, rfl⟩ |
    ⟨-, newChildren, rfl, hlength, hall⟩
  · refine forallRuns_iff.mpr
      ⟨⟨hone _, unionPlaced_of_not_union ?_⟩, fun i child hi => by simp at hi⟩
    rcases hsame with rfl | ⟨op, rfl⟩
    · exact hnot
    · intro union hunion
      cases hunion
  · refine (forallRuns_transparent hkind).mpr ⟨⟨hone _, unionPlaced_of_not_union hnot⟩, ?_⟩
    intro newChild hnew
    obtain ⟨i, hlt, rfl⟩ := List.mem_iff_getElem.mp hnew
    have hlt' : i < children.length := hlength ▸ hlt
    have hmem := List.getElem_mem hlt'
    exact hready _ hmem taskCount _ (hallows _ htasks _ hmem)
      (hall i _ _ (List.getElem?_eq_getElem hlt') (List.getElem?_eq_getElem hlt))

section Head

variable (inv : StageInvariant session df builder Q P) (hone : ∀ plan, P plan 1)
include inv hone

theorem StageInvariant.headReady_open {parent : Option (NodeKind κ)} {processed : List (Plan κ)}
    {rebuilt : Plan κ} (hbelow : (node kind recorded children).BelowHead Q parent)
    (ih : ∀ child ∈ children, ∀ out, child.BelowHead Q (some kind) →
      injectFrom session df builder (some kind) child = .ok out →
      HeadReady session df P out) (hprocessed : injectAll session df builder kind children
      = .ok processed) (hopen : openNode session df (node kind recorded children) processed
      = .ok (rebuilt, taskCount)) :
    HeadReady session df P (rebuilt.withTaskCount taskCount) ∧
      (endsStage parent rebuilt.kind = true →
        Ready session df P (rebuilt.withTaskCount taskCount)) := by
  obtain ⟨reconciled, hreconciled, hrestriction, hrebuilt⟩ := openNode_ok hopen
  have hlength := (injectAll_ok hprocessed).length_eq
  cases hbelow with
  | everywhere hQ =>
    obtain ⟨hnode, hchildren⟩ := everywhere_iff.mp hQ
    have hready := inv.ready_open hnode hprocessed
      (injectAll_forall (fun child hchild _ hout => inv.ready (hchildren child hchild) hout)
        hprocessed) hopen
    exact ⟨hready.headReady hone, fun _ => hready⟩
  | union hlocal hends hchildren =>
    obtain ⟨rebuiltUnion, -, rfl⟩ := replaceChildren_union rfl hrebuilt
    refine ⟨headReady_union hone ?_ ?_, ?_⟩
    · intro hnil
      have harity := hlocal.arity
      rw [children_node, hlength, hnil] at harity
      exact absurd harity (Nat.lt_irrefl 0)
    · exact injectAll_forall (fun child hchild _ hout => inv.ready (hchildren child hchild) hout)
        hprocessed
    · intro htrue
      have hfalse : endsStage parent
          (NodeKind.childrenIsolatorUnion rebuiltUnion.toUnionTasks : NodeKind κ) = false := hends
      rw [kind_node, hfalse] at htrue
      cases htrue
  | transparent hlocal hkind hends hchildren =>
    have hshape := replaceChildren_transparent (by exact hkind) hrebuilt
    subst hshape
    refine ⟨headReady_transparent hone hkind ?_ ?_, ?_⟩
    · intro tasks hallows child hchild
      rw [allowsTasks_node, hrestriction] at hallows
      refine reconcile_allows (by exact hkind) ?_ hreconciled hallows child hchild
      intro hnil
      rw [children_node] at hnil
      rw [hnil] at hlength
      rw [List.length_eq_zero_iff.mp hlength.symm] at hchild
      cases hchild
    · exact injectAll_forall
        (fun child hchild out hout => ih child hchild out (hchildren child hchild) hout) hprocessed
    · intro htrue
      rw [kind_node, kind_node, hends] at htrue
      cases htrue

/-- The run lemma of the head stage. -/
theorem StageInvariant.headReady {parent : Option (NodeKind κ)} (hbelow : plan.BelowHead Q parent)
    (h : injectFrom session df builder parent plan = .ok out) :
    (parent ≠ none → HeadReady session df P out) ∧
      (parent = none → out.ForallRuns (Sound df P) 1) := by
  induction plan using Plan.induction generalizing parent out with
  | node kind recorded children ih =>
    obtain ⟨processed, rebuilt, taskCount, hprocessed, hopen, hplaced⟩ := injectFrom_ok h
    obtain ⟨hhead, hready⟩ :=
      inv.headReady_open hone hbelow (fun child hchild out hchildBelow hout =>
      (ih child hchild hchildBelow hout).1 (Option.some_ne_none kind)) hprocessed hopen
    rcases hplaced.ends_or_kept with
      ⟨kind, recorded, boundary, result, rfl, hstage, hends, hresult⟩ |
      ⟨hparent, -, hout⟩ | ⟨hparent, -, rfl⟩
    · have hruns := (hready hends).closed_runs (inv.closes _ _ _ _ hresult)
      exact ⟨fun _ final out _ hpropagated => inv.boundary_propagated hstage hruns hpropagated _,
        fun _ => inv.boundary_runs hstage hruns _ _⟩
    · exact ⟨fun hsome => absurd hparent hsome, fun _ =>
        hhead taskCount out (allowsTasks_withTaskCount _ _) hout.withTaskCount⟩
    · exact ⟨fun _ => hhead, fun hnone => absurd hnone hparent⟩

/-- The plan as a whole, when the head stage runs in one task. -/
theorem StageInvariant.inject_head_runs (hbelow : plan.BelowHead Q none)
    (h : injectNetworkBoundaries session df builder plan = .ok out) :
    out.ForallRuns (Sound df P) 1 :=
  (inv.headReady hone hbelow h).2 rfl

end Head

theorem withoutHead_runs (h : plan.ForallRuns P tasks) :
    plan.withoutHead.ForallRuns P tasks := by
  unfold withoutHead
  split
  · exact ((forallRuns_transparent rfl).mp h).2 _ List.mem_cons_self
  · exact ((forallRuns_transparent rfl).mp h).2 _ List.mem_cons_self
  · exact h

/-- What has to be shown so that `B` holds of every node of a prepared plan, if `A` held of every
node before. -/
structure PreparedRule (df : DataFusion κ) (A B : Plan κ → ℕ → Prop) : Prop where
  placed : ∀ plan tasks, A plan tasks → plan.UnionPlaced df
  head : ∀ kind below tasks, kind.isRouting = true → kind.isTransparent = true →
    B (node kind none [below]) tasks
  scaled : ∀ {kind recorded num newNum stageTasks tasks child rest newChild head inserted},
    A (node kind recorded (child :: rest)) tasks → child.ForallRuns A stageTasks →
    kind.inputStage = some (.localStage num stageTasks) → ¬(tasks = 1 ∧ stageTasks = 1) →
    Prepared df stageTasks child newChild → kind.producerHead df tasks = .ok head →
    head.insert df newChild = .ok inserted →
    B (node (kind.withInputStage (.localStage newNum stageTasks) (inserted.properties df)) none
      [inserted]) tasks
  closed : ∀ {kind recorded children stage tasks}, A (node kind recorded children) tasks →
    kind.inputStage = some stage → (stage.isLocal = true → children = []) →
    (∀ child ∈ children, child.ForallRuns A stage.taskCount) →
    (node kind recorded children).ForallRuns B tasks
  union : ∀ {union newUnion recorded newRecorded children newChildren tasks},
    A (node (.childrenIsolatorUnion union) recorded children) tasks →
    newUnion.taskIdxMap.length = union.taskIdxMap.length →
    (node (.childrenIsolatorUnion newUnion) newRecorded newChildren).UnionPlaced df →
    B (node (.childrenIsolatorUnion newUnion) newRecorded newChildren) tasks
  transparent : ∀ {kind recorded newRecorded children newChildren tasks},
    kind.isTransparent = true → A (node kind recorded children) tasks →
    newChildren.length = children.length →
    (∀ (i : ℕ) (child newChild : Plan κ), children[i]? = some child →
      newChildren[i]? = some newChild → Prepared df tasks child newChild) →
    B (node kind newRecorded newChildren) tasks

/-- A union that is rebuilt for other children keeps its map length and its counts. -/
theorem rebuilt_union
    (hplaced : (node (.childrenIsolatorUnion union) recorded children).UnionPlaced df)
    (h : ChildrenIsolatorUnionExec.withNewChildren (childOps df) ⟨union, children⟩ newChildren
      = .ok rebuilt) :
    rebuilt.taskIdxMap.length = union.taskIdxMap.length ∧
      ChildrenIsolatorUnionExec.Placed (childOps df) rebuilt rebuilt.taskIdxMap.length ∧
      rebuilt.childTaskCounts = union.childTaskCounts children.length := by
  have hold := hplaced union rfl
  have hnew := hold.withNewChildren h
  have hlength := hnew.split.length_map
  refine ⟨hlength, hlength.symm ▸ hnew, ?_⟩
  have hcounts := hold.childTaskCounts_eq
  rw [hnew.childTaskCounts_eq, ChildrenIsolatorUnionExec.annotations_withNewChildren h, ← hcounts]
  rfl

section PreparedRule

variable {A B : Plan κ → ℕ → Prop}

/-- Inserting a head keeps the nodes below it. -/
theorem PreparedRule.insert_runs (rule : PreparedRule df A B) {head : ProducerHead κ}
    {plan inserted : Plan κ} {tasks : ℕ} (hruns : plan.ForallRuns B tasks)
    (h : head.insert df plan = .ok inserted) : inserted.ForallRuns B tasks := by
  have hbelow := withoutHead_runs hruns
  have hsingle : ∀ {kind : NodeKind κ}, kind.isRouting = true → kind.isTransparent = true →
      (node kind none [plan.withoutHead]).ForallRuns B tasks := by
    intro kind hrouting hkind
    exact (forallRuns_transparent hkind).mpr ⟨rule.head _ _ _ hrouting hkind,
      List.forall_mem_singleton.mpr hbelow⟩
  cases head with
  | none =>
    cases h
    exact hbelow
  | broadcastExec outputPartitions =>
    obtain ⟨-, h⟩ := ite_error_ok_iff.mp h
    cases h
    exact hsingle rfl rfl
  | repartitionExec partitioning preserveOrder =>
    rw [repartitionTryNew_ok h]
    exact hsingle rfl rfl

/-- The run lemma of the preparation. -/
theorem PreparedRule.runs (rule : PreparedRule df A B) {plan out : Plan κ} {tasks : ℕ}
    (h : Prepared df tasks plan out) (hruns : plan.ForallRuns A tasks) :
    out.ForallRuns B tasks := by
  induction h with
  | elided hstage _ ih => exact ih (((forallRuns_boundary hstage).mp hruns).2 _ List.mem_cons_self)
  | @scaled kind _ _ _ _ _ _ _ _ _ _ hstage hnot hprepared hhead hinsert ih =>
    obtain ⟨hnode, hchildren⟩ := (forallRuns_boundary hstage).mp hruns
    have hstaged := hchildren _ List.mem_cons_self
    have hboundary := NodeKind.isNetworkBoundary_of_inputStage hstage
    refine (forallRuns_boundary (NodeKind.inputStage_withInputStage hboundary _ _ _)).mpr
      ⟨rule.scaled hnode hstaged hstage hnot hprepared hhead hinsert, ?_⟩
    exact List.forall_mem_singleton.mpr (rule.insert_runs (ih hstaged) hinsert)
  | closed hstage hclosed =>
    obtain ⟨hnode, hchildren⟩ := (forallRuns_boundary hstage).mp hruns
    exact rule.closed hnode hstage hclosed hchildren
  | @union union newUnion recorded newRecorded children newChildren tasks hlength hunion _ ih =>
    obtain ⟨hnode, hchildren⟩ := forallRuns_iff.mp hruns
    have hplaced := rule.placed _ _ hnode
    have hsame : newUnion.taskIdxMap.length = union.taskIdxMap.length ∧
        (node (.childrenIsolatorUnion newUnion) newRecorded newChildren).UnionPlaced df ∧
        newUnion.childTaskCounts newChildren.length = union.childTaskCounts children.length := by
      rcases hunion with ⟨rfl, rfl⟩ | ⟨rebuilt, hrebuilt, rfl⟩
      · exact ⟨rfl, hplaced, rfl⟩
      · obtain ⟨hmap, hnewPlaced, hcounts⟩ := rebuilt_union hplaced hrebuilt
        have hnew := ChildrenIsolatorUnionExec.children_withNewChildren hrebuilt
        rw [ChildrenIsolatorUnionExec.childTaskCounts, hnew] at hcounts
        refine ⟨hmap, ?_, hcounts⟩
        intro other hother
        cases hother
        rw [← hnew]
        exact hnewPlaced
    obtain ⟨hmap, hnewPlaced, hcounts⟩ := hsame
    refine forallRuns_iff.mpr ⟨rule.union hnode hmap hnewPlaced, ?_⟩
    intro i newChild hi
    obtain ⟨child, hchild⟩ := exists_getElem? hlength hi
    have hnewRuns := ih i _ newChild hchild hi (hchildren i _ hchild)
    rw [← hcounts] at hnewRuns
    exact hnewRuns
  | @transparent kind _ _ _ _ _ hkind hlength hprepared ih =>
    obtain ⟨hnode, hchildren⟩ := (forallRuns_transparent hkind).mp hruns
    refine (forallRuns_transparent hkind).mpr
      ⟨rule.transparent hkind hnode hlength hprepared, ?_⟩
    intro newChild hnew
    obtain ⟨child, hchild, hdone⟩ := exists_aligned hlength ih hnew
    exact hdone (hchildren child hchild)

end PreparedRule

theorem StageInvariant.preparedRule (inv : StageInvariant session df builder Q P) :
    PreparedRule df (Sound df P) (Sound df P) where
  placed := fun _ _ hsound => hsound.2
  head := fun _ _ _ hrouting _ => inv.sound_routing hrouting _ _ _
  scaled := by
    intro kind recorded num newNum stageTasks tasks child rest newChild head inserted _ _ hstage _ _
      _ _
    have hboundary := NodeKind.isNetworkBoundary_of_inputStage hstage
    apply inv.sound_routing
    apply NodeKind.routing_of_boundary
    exact NodeKind.isNetworkBoundary_of_inputStage
      (NodeKind.inputStage_withInputStage hboundary _ _ _)
  closed := fun hnode hstage _ hchildren => (forallRuns_boundary hstage).mpr ⟨hnode, hchildren⟩
  union := fun hnode hmap hplaced => ⟨inv.preparedUnion hmap hnode.1, hplaced⟩
  transparent := by
    intro kind recorded newRecorded children newChildren tasks hkind hnode hlength hprepared
    refine ⟨?_, unionPlaced_of_not_union (NodeKind.isTransparent_iff.mp hkind).2⟩
    by_cases hrouting : kind.isRouting = true
    · exact inv.routing _ _ hrouting
    · exact inv.prepared hkind (Bool.eq_false_iff.mpr hrouting) hnode.1 hlength hprepared

theorem StageInvariant.prepared_runs (inv : StageInvariant session df builder Q P)
    (h : Prepared df tasks plan out) (hruns : plan.ForallRuns (Sound df P) tasks) :
    out.ForallRuns (Sound df P) tasks :=
  inv.preparedRule.runs h hruns

end DatafusionDistributed
