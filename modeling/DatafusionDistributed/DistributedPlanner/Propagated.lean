import DatafusionDistributed.DistributedPlanner.InjectNetworkBoundaries

/-!
# What propagating a task count does

`Propagated` lists the ways in which `propagate` rewrites a node, with everything it keeps of
the node. All later proofs go by induction on this relation.
-/

namespace DatafusionDistributed

open Library

variable {κ : Type} {session : Session κ} {df : DataFusion κ}

/-- `Propagated session df taskCount plan out`: propagating `taskCount` through `plan` may
give `out`. -/
inductive Propagated (session : Session κ) (df : DataFusion κ) :
    TaskCountAnnotation → Plan κ → Plan κ → Prop
  /-- A leaf is kept or scaled up. -/
  | leaf {kind kind' : NodeKind κ} {recorded : Option TaskCountAnnotation}
      {taskCount : TaskCountAnnotation} :
    kind.isNetworkBoundary = false → (kind' = kind ∨ ∃ op, kind' = .other op) →
    Propagated session df taskCount (.node kind recorded []) (.node kind' (some taskCount) [])
  /-- A boundary is only annotated. -/
  | boundary {kind : NodeKind κ} {recorded : Option TaskCountAnnotation}
      {children : List (Plan κ)} {taskCount : TaskCountAnnotation} :
    kind.isNetworkBoundary = true →
    (∀ shuffle, kind = .networkShuffle shuffle →
      shuffle.needsTwoPhase session.config.twoStepShuffleFanoutThreshold taskCount.asUsize
        = false) →
    Propagated session df taskCount (.node kind recorded children)
      (.node kind (some taskCount) children)
  /-- A hash shuffle with a large fan-out is switched to two phases. -/
  | twoPhase {shuffle : NetworkShuffleExec κ} {recorded : Option TaskCountAnnotation}
      {children : List (Plan κ)} {taskCount : TaskCountAnnotation} {preserveOrder : Bool} :
    shuffle.needsTwoPhase session.config.twoStepShuffleFanoutThreshold taskCount.asUsize = true →
    Propagated session df taskCount (.node (.networkShuffle shuffle) recorded children)
      (.node (.repartition shuffle.producerPartitioning preserveOrder) (some taskCount)
        [.node (.networkShuffle shuffle.toTwoPhaseSalted) (some taskCount) children])
  /-- A union gets its task map, and each child its own task count. -/
  | union {tasks : UnionTasks} {recorded : Option TaskCountAnnotation}
      {children newChildren : List (Plan κ)} {anns : List TaskCountAnnotation}
      {placed rebuilt : ChildrenIsolatorUnionExec (Plan κ)} {counts : List ℕ+}
      {taskCount : TaskCountAnnotation} :
    children.mapM Plan.recordedTaskCount = .ok anns →
    ChildrenIsolatorUnionExec.fromChildrenAndAnnotations (Plan.childOps df) children anns
      taskCount.asUsize = .ok placed →
    placed.childTaskCounts = counts.map PNat.val →
    newChildren.length = children.length →
    (∀ (i : ℕ) (child newChild : Plan κ) (count : ℕ+), children[i]? = some child →
      newChildren[i]? = some newChild → counts[i]? = some count →
      Propagated session df (.ofExact count taskCount.soft) child newChild) →
    ChildrenIsolatorUnionExec.withNewChildren (Plan.childOps df) placed newChildren
      = .ok rebuilt →
    Propagated session df taskCount (.node (.childrenIsolatorUnion tasks) recorded children)
      (.node (.childrenIsolatorUnion rebuilt.toUnionTasks) (some taskCount) newChildren)
  /-- Any other node passes the task count on. -/
  | transparent {kind : NodeKind κ} {recorded : Option TaskCountAnnotation}
      {children newChildren : List (Plan κ)} {taskCount : TaskCountAnnotation} :
    kind.isTransparent = true → children ≠ [] → newChildren.length = children.length →
    (∀ (i : ℕ) (child newChild : Plan κ), children[i]? = some child →
      newChildren[i]? = some newChild → Propagated session df taskCount child newChild) →
    Propagated session df taskCount (.node kind recorded children)
      (.node kind (some taskCount) newChildren)

variable {children : List (Plan κ)} {taskCount : TaskCountAnnotation} {out : Plan κ}

section Union

variable {anns : List TaskCountAnnotation} {placed : ChildrenIsolatorUnionExec (Plan κ)}
  {counts : List ℕ+} {tasks : ℕ}
  (hplaced : ChildrenIsolatorUnionExec.fromChildrenAndAnnotations (Plan.childOps df) children anns
    tasks = .ok placed) (hcounts : placed.childTaskCounts = counts.map PNat.val)
include hplaced hcounts

theorem length_unionCounts : counts.length = children.length := by
  obtain ⟨-, hchildren, -⟩ := ChildrenIsolatorUnionExec.fromChildrenAndAnnotations_placed hplaced
  have hlength := congrArg List.length hcounts
  rw [List.length_map] at hlength
  rw [← hlength, ← hchildren]
  exact Plan.length_unionTaskCounts _ _

/-- Every new child of a union comes from a child with a task count of its own. -/
theorem exists_unionChild {newChildren : List (Plan κ)} {R : Plan κ → Plan κ → Prop}
    (hlength : newChildren.length = children.length)
    (h : ∀ (i : ℕ) (child newChild : Plan κ) (count : ℕ+), children[i]? = some child →
      newChildren[i]? = some newChild → counts[i]? = some count → R child newChild)
    {newChild : Plan κ} (hnew : newChild ∈ newChildren) : ∃ child ∈ children, R child newChild := by
  refine exists_aligned hlength (fun i child newChild hi hnew => ?_) hnew
  obtain ⟨hlt, -⟩ := List.getElem?_eq_some_iff.mp hi
  rw [← length_unionCounts hplaced hcounts] at hlt
  exact h i child newChild _ hi hnew (List.getElem?_eq_getElem hlt)

end Union

/-! ## The function and the relation -/

theorem propagateAll_eq_mapM : propagateAll session df children taskCount =
    children.mapM fun child => propagate session df child taskCount := by
  induction children with
  | nil =>
    rfl
  | cons child children ih => rw [propagateAll, List.mapM_cons, ih]

theorem propagateUnion_ok {newChildren : List (Plan κ)} {counts : List ℕ} {soft : ℚ}
    (hlen : counts.length = children.length)
    (h : propagateUnion session df children counts soft = .ok newChildren) :
    newChildren.length = children.length ∧ ∃ positive : List ℕ+, counts = positive.map PNat.val ∧
      ∀ (i : ℕ) (child newChild : Plan κ) (count : ℕ+), children[i]? = some child →
        newChildren[i]? = some newChild → positive[i]? = some count →
        propagate session df child (.ofExact count soft) = .ok newChild := by
  induction children generalizing newChildren counts with
  | nil =>
    rw [propagateUnion] at h
    · cases h
      refine ⟨rfl, [], ?_, ?_⟩
      · exact List.length_eq_zero_iff.mp hlen
      · intro i child newChild count hi
        simp at hi
    · simp
  | cons child children ih =>
    obtain ⟨count, counts, rfl⟩ := List.exists_cons_of_length_eq_add_one hlen
    rw [propagateUnion] at h
    split at h
    · rename_i hpos
      obtain ⟨newChild, hchild, h⟩ := bind_ok_iff.mp h
      obtain ⟨rest, hrest, h⟩ := bind_ok_iff.mp h
      cases h
      obtain ⟨hlength, positive, hcounts, hall⟩ := ih (by simpa using hlen) hrest
      refine ⟨by rw [List.length_cons, List.length_cons, hlength], ⟨count, hpos⟩ :: positive,
        ?_, ?_⟩
      · rw [hcounts]
        rfl
      · intro i first second number hfirst hsecond hnumber
        cases i with
        | zero =>
          cases hfirst
          cases hsecond
          cases hnumber
          exact hchild
        | succ i => exact hall i first second number hfirst hsecond hnumber
    · cases h

theorem propagateLeaf_ok {kind : NodeKind κ} {recorded : Option TaskCountAnnotation}
    (hkind : kind.isNetworkBoundary = false)
    (h : propagateLeaf session (.node kind recorded []) taskCount = .ok out) :
    Propagated session df taskCount (.node kind recorded []) out := by
  unfold propagateLeaf at h
  split at h
  · cases h
    exact .leaf hkind (.inl rfl)
  · obtain ⟨op, -, h⟩ := bind_ok_iff.mp h
    cases h
    exact .leaf hkind (.inr ⟨op, rfl⟩)

theorem repartitionTryNew_ok {input : Plan κ} {partitioning : Partitioning κ} {preserveOrder : Bool}
    (h : input.repartitionTryNew df partitioning preserveOrder = .ok out) :
    out = .node (.repartition partitioning (preserveOrder && input.canPreserveOrder df)) none
      [input] := by
  obtain ⟨-, -, h⟩ := bind_ok_iff.mp h
  cases h
  rfl

theorem propagateBoundary_ok {kind : NodeKind κ} {recorded : Option TaskCountAnnotation}
    (hkind : kind.isNetworkBoundary = true)
    (h : propagateBoundary session df (.node kind recorded children) taskCount = .ok out) :
    Propagated session df taskCount (.node kind recorded children) out := by
  unfold propagateBoundary at h
  split at h
  · rename_i shuffle heq
    subst heq
    split at h
    · rename_i hneeds
      obtain ⟨consumer, hconsumer, h⟩ := bind_ok_iff.mp h
      cases h
      rw [repartitionTryNew_ok hconsumer]
      exact .twoPhase hneeds
    · rename_i hneeds
      cases h
      refine .boundary hkind ?_
      intro other hother
      cases hother
      exact Bool.eq_false_iff.mpr hneeds
  · rename_i hne
    cases h
    refine .boundary hkind ?_
    intro shuffle hshuffle
    exact absurd hshuffle (hne shuffle)

/-- Everything `propagate` returns is described by `Propagated`. -/
theorem propagate_ok {plan : Plan κ} (h : propagate session df plan taskCount = .ok out) :
    Propagated session df taskCount plan out := by
  induction plan using Plan.induction generalizing taskCount out with
  | node kind recorded children ih =>
    rw [propagate.eq_def] at h
    dsimp only at h
    split at h
    · rename_i hleaf
      rw [Bool.and_eq_true, List.isEmpty_iff, Bool.not_eq_true'] at hleaf
      obtain ⟨rfl, hkind⟩ := hleaf
      exact propagateLeaf_ok hkind h
    · rename_i hleaf
      split at h
      · rename_i hkind
        exact propagateBoundary_ok hkind h
      · rename_i hkind
        have hne : children ≠ [] := fun hnil => hleaf (by simp [hnil, hkind])
        split at h
        · obtain ⟨anns, hanns, h⟩ := bind_ok_iff.mp h
          obtain ⟨placed, hplaced, h⟩ := bind_ok_iff.mp h
          obtain ⟨newChildren, hchildren, h⟩ := bind_ok_iff.mp h
          obtain ⟨rebuilt, hrebuilt, h⟩ := bind_ok_iff.mp h
          cases h
          have hsame : placed.children = children :=
            (ChildrenIsolatorUnionExec.fromChildrenAndAnnotations_placed hplaced).2.1
          have hlen : placed.childTaskCounts.length = children.length := by
            rw [← hsame]
            exact Plan.length_unionTaskCounts _ _
          obtain ⟨hlength, counts, hcounts, hall⟩ := propagateUnion_ok hlen hchildren
          obtain ⟨union, hunion, rfl⟩ := Plan.replaceChildren_union rfl hrebuilt
          refine .union hanns hplaced hcounts hlength ?_ ?_
          · intro i child newChild count hi hnew hcount
            exact ih child (List.mem_of_getElem? hi) (hall i child newChild count hi hnew hcount)
          · rw [← hunion, Plan.children_node, ← hsame]
        · rename_i hunion
          obtain ⟨newChildren, hchildren, h⟩ := bind_ok_iff.mp h
          obtain ⟨rebuilt, hrebuilt, h⟩ := bind_ok_iff.mp h
          cases h
          rw [propagateAll_eq_mapM, mapM_ok_iff] at hchildren
          have htransparent : (Plan.node kind recorded children).kind.isTransparent = true :=
            NodeKind.isTransparent_iff.mpr ⟨Bool.eq_false_iff.mpr hkind, hunion⟩
          rw [Plan.replaceChildren_transparent htransparent hrebuilt]
          refine .transparent htransparent hne hchildren.length_eq.symm ?_
          intro i child newChild hi hnew
          obtain ⟨hlt, rfl⟩ := List.getElem?_eq_some_iff.mp hi
          obtain ⟨hlt', rfl⟩ := List.getElem?_eq_some_iff.mp hnew
          exact ih _ (List.getElem_mem hlt) (hchildren.get hlt hlt')

end DatafusionDistributed
