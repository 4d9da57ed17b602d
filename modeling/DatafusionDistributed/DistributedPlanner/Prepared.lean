import DatafusionDistributed.DistributedPlanner.PrepareNetworkBoundaries

/-!
# What preparing the boundaries does

`Prepared` lists the ways in which `prepare_network_boundaries` rewrites a node that runs in a
given number of tasks.
-/

namespace DatafusionDistributed

open Library Plan

variable {κ : Type} {df : DataFusion κ}

namespace NodeKind

/-- A local stage decides the properties anew. -/
theorem withInputStage_withNewChildren (kind : NodeKind κ) (children : List (PlanProperties κ))
    (num tasks : ℕ) (plan : PlanProperties κ) :
    (kind.withNewChildren children).withInputStage (.localStage num tasks) plan =
      kind.withInputStage (.localStage num tasks) plan := by
  cases kind with
  | networkCoalesce exec => cases children <;> rfl
  | _ => rfl

theorem inputStage_withInputStage {kind : NodeKind κ} (h : kind.isNetworkBoundary = true)
    (num tasks : ℕ) (plan : PlanProperties κ) :
    (kind.withInputStage (.localStage num tasks) plan).inputStage =
      some (.localStage num tasks) := by
  cases kind <;> first | rfl | cases h

end NodeKind

/-- `Prepared df tasks plan out`: preparing `plan`, which runs in `tasks` tasks, may give
`out`. -/
inductive Prepared (df : DataFusion κ) : ℕ → Plan κ → Plan κ → Prop
  /-- A boundary between two single tasks is replaced by the plan of its stage. -/
  | elided {kind : NodeKind κ} {recorded : Option TaskCountAnnotation} {num : ℕ}
      {child out : Plan κ} {rest : List (Plan κ)} :
    kind.inputStage = some (.localStage num 1) → Prepared df 1 child out →
    Prepared df 1 (node kind recorded (child :: rest)) out
  /-- Any other boundary gets its head inserted. -/
  | scaled {kind : NodeKind κ} {recorded : Option TaskCountAnnotation}
      {num newNum stageTasks tasks : ℕ} {child newChild inserted : Plan κ} {rest : List (Plan κ)}
      {head : ProducerHead κ} :
    kind.inputStage = some (.localStage num stageTasks) → ¬(tasks = 1 ∧ stageTasks = 1) →
    Prepared df stageTasks child newChild →
    kind.producerHead df tasks = .ok head → head.insert df newChild = .ok inserted →
    Prepared df tasks (node kind recorded (child :: rest))
      (node (kind.withInputStage (.localStage newNum stageTasks) (inserted.properties df)) none
        [inserted])
  /-- A boundary whose stage was already sent is kept. -/
  | closed {kind : NodeKind κ} {recorded : Option TaskCountAnnotation} {children : List (Plan κ)}
      {stage : Stage} {tasks : ℕ} :
    kind.inputStage = some stage → (stage.isLocal = true → children = []) →
    Prepared df tasks (node kind recorded children) (node kind recorded children)
  /-- A union is kept, or rebuilt if a child was changed. -/
  | union {union newUnion : UnionTasks} {recorded newRecorded : Option TaskCountAnnotation}
      {children newChildren : List (Plan κ)} {tasks : ℕ} :
    newChildren.length = children.length →
    (newUnion = union ∧ newChildren = children ∨
      ∃ rebuilt, ChildrenIsolatorUnionExec.withNewChildren (childOps df) ⟨union, children⟩
        newChildren = .ok rebuilt ∧ newUnion = rebuilt.toUnionTasks) →
    (∀ (i : ℕ) (child newChild : Plan κ), children[i]? = some child →
      newChildren[i]? = some newChild →
      Prepared df ((union.childTaskCounts children.length).getD i 0) child newChild) →
    Prepared df tasks (node (.childrenIsolatorUnion union) recorded children)
      (node (.childrenIsolatorUnion newUnion) newRecorded newChildren)
  /-- Any other node is kept. -/
  | transparent {kind : NodeKind κ} {recorded newRecorded : Option TaskCountAnnotation}
      {children newChildren : List (Plan κ)} {tasks : ℕ} :
    kind.isTransparent = true → newChildren.length = children.length →
    (∀ (i : ℕ) (child newChild : Plan κ), children[i]? = some child →
      newChildren[i]? = some newChild → Prepared df tasks child newChild) →
    Prepared df tasks (node kind recorded children) (node kind newRecorded newChildren)

theorem Prepared.transparent_kind {kind : NodeKind κ} {recorded : Option TaskCountAnnotation}
    {children : List (Plan κ)} {tasks : ℕ} {out : Plan κ} (hkind : kind.isTransparent = true)
    (h : Prepared df tasks (node kind recorded children) out) :
    ∃ newRecorded newChildren, out = node kind newRecorded newChildren ∧
      newChildren.length = children.length ∧
      ∀ (i : ℕ) (child newChild : Plan κ), children[i]? = some child →
        newChildren[i]? = some newChild → Prepared df tasks child newChild := by
  have hstage := NodeKind.inputStage_of_transparent hkind
  cases h with
  | elided hlocal | scaled hlocal | closed hlocal =>
    rw [hstage] at hlocal
    cases hlocal
  | union => cases hkind
  | transparent _ hlength hall => exact ⟨_, _, rfl, hlength, hall⟩

/-! ## The function and the relation -/

theorem prepareNode_onBoundaries (df : DataFusion κ) : OnBoundaries (prepareNode df) where
  keeps := by
    intro plan out tasks stageId next changed hkind h
    unfold prepareNode at h
    rw [hkind] at h
    cases h
    exact ⟨rfl, rfl⟩
  honest := by
    intro plan out tasks stageId next h
    unfold prepareNode at h
    split at h
    · split at h
      · cases h
      · obtain ⟨head, -, h⟩ := bind_ok_iff.mp h
        obtain ⟨inserted, -, h⟩ := bind_ok_iff.mp h
        cases h
    · cases h
      rfl

variable {kind : NodeKind κ} {recorded : Option TaskCountAnnotation} {tasks stageId : ℕ}
  {out : Plan κ}

/-- The boundary itself, after its children were rewritten to `newChildren`. -/
theorem prepareNode_boundary {mappedKind : NodeKind κ} {newRecorded : Option TaskCountAnnotation}
    {num stageTasks next : ℕ} {child newChild : Plan κ} {rest newRest : List (Plan κ)}
    {changed : Bool} (hstage : kind.inputStage = some (.localStage num stageTasks))
    (hkind : mappedKind = kind ∨ ∃ properties, mappedKind = kind.withNewChildren properties)
    (hchild : Prepared df stageTasks child newChild)
    (h : prepareNode df (node mappedKind newRecorded (newChild :: newRest)) tasks stageId =
      .ok ((out, changed), next)) :
    Prepared df tasks (node kind recorded (child :: rest)) out := by
  obtain ⟨hmapped, hhead, hwith⟩ : mappedKind.inputStage = some (.localStage num stageTasks) ∧
      mappedKind.producerHead df tasks = kind.producerHead df tasks ∧
      ∀ props, mappedKind.withInputStage (.localStage stageId stageTasks) props =
        kind.withInputStage (.localStage stageId stageTasks) props := by
    rcases hkind with rfl | ⟨properties, rfl⟩
    · exact ⟨hstage, rfl, fun _ => rfl⟩
    · rw [NodeKind.inputStage_withNewChildren]
      exact ⟨hstage, by cases kind <;> rfl,
        NodeKind.withInputStage_withNewChildren kind properties _ _⟩
  unfold prepareNode at h
  simp only [kind_node, children_node, hmapped] at h
  split at h
  · rename_i hone
    obtain ⟨rfl, rfl⟩ := hone
    cases h
    exact .elided hstage hchild
  · rename_i hone
    obtain ⟨head, hheadOk, h⟩ := bind_ok_iff.mp h
    obtain ⟨inserted, hinserted, h⟩ := bind_ok_iff.mp h
    cases h
    rw [hhead] at hheadOk
    rw [hwith]
    exact .scaled hstage hone hchild hheadOk hinserted

theorem prepareNode_closed {children : List (Plan κ)} {stage : Stage}
    (hstage : kind.inputStage = some stage) (hclosed : stage.isLocal = true → children = []) :
    prepareNode df (node kind recorded children) tasks stageId =
      .ok ((node kind recorded children, false), stageId) := by
  unfold prepareNode
  rw [kind_node, hstage, children_node]
  cases stage with
  | remoteStage num workers => rfl
  | localStage num stageTasks => rw [hclosed rfl]

/-- A boundary after its children were rewritten. -/
theorem rewriteUp_prepared_boundary {children newChildren : List (Plan κ)} {mapped : Plan κ}
    {stage : Stage} {before next : ℕ} {flag : Bool} (hstage : kind.inputStage = some stage)
    (hmapped : Mapped df (prepareNode df) (node kind recorded children) tasks newChildren mapped)
    (hchildren : ∀ (i : ℕ) (child newChild : Plan κ), children[i]? = some child →
      newChildren[i]? = some newChild →
      Prepared df ((childTaskCounts (node kind recorded children) tasks).getD i 0) child newChild)
    (h : prepareNode df mapped tasks before = .ok ((out, flag), next)) :
    Prepared df tasks (node kind recorded children) out := by
  obtain ⟨hlength, -, hmapped⟩ := hmapped
  by_cases hopen : stage.isLocal = true ∧ children ≠ []
  · obtain ⟨hlocal, hne⟩ := hopen
    obtain ⟨child, rest, rfl⟩ := List.exists_cons_of_ne_nil hne
    cases stage with
    | remoteStage num workers => cases hlocal
    | localStage num stageTasks =>
      obtain ⟨newChild, newRest, rfl⟩ := List.exists_cons_of_length_eq_add_one hlength
      have hchild : Prepared df stageTasks child newChild := by
        have hprepared := hchildren 0 child newChild rfl rfl
        rwa [childTaskCounts_boundary tasks (by exact hstage)] at hprepared
      obtain ⟨mappedKind, newRecorded, rfl, hkind⟩ : ∃ mappedKind newRecorded,
          mapped = node mappedKind newRecorded (newChild :: newRest) ∧
            (mappedKind = kind ∨ ∃ properties, mappedKind = kind.withNewChildren properties) := by
        rcases hmapped with ⟨rfl, hkeep⟩ | ⟨hrebuilt, -⟩
        · rw [hkeep]
          exact ⟨kind, recorded, rfl, .inl rfl⟩
        · exact ⟨_, none, replaceChildren_boundary (by exact hstage) hrebuilt, .inr ⟨_, rfl⟩⟩
      exact prepareNode_boundary hstage hkind hchild h
  · have hclosed : stage.isLocal = true → children = [] := not_and_not_right.mp hopen
    rcases hmapped with ⟨rfl, -⟩ | ⟨hrebuilt, hne⟩
    · rw [prepareNode_closed hstage hclosed] at h
      cases h
      exact .closed hstage hclosed
    · exfalso
      have hremote : stage.isLocal = false := by
        rw [Bool.eq_false_iff]
        intro hlocal
        apply hne
        rw [← List.length_eq_zero_iff, hlength, hclosed hlocal]
        rfl
      exact replaceChildren_remote (by exact hstage) hremote hne hrebuilt

/-- The run lemma: every rewritten node is described by `Prepared`. -/
theorem rewriteUp_prepared {plan : Plan κ} {result : (Plan κ × Bool) × ℕ}
    (h : rewriteUp df (prepareNode df) plan tasks stageId = .ok result) :
    Prepared df tasks plan result.1.1 := by
  induction plan using Plan.induction generalizing tasks stageId result with
  | node kind recorded children ih =>
    cases hstage : kind.inputStage with
    | none =>
      obtain ⟨newChildren, newRecorded, hlength, hall, hout⟩ :=
        rewriteUp_inner (prepareNode_onBoundaries df) hstage h
      have hchildren : ∀ (i : ℕ) (child newChild : Plan κ), children[i]? = some child →
          newChildren[i]? = some newChild → Prepared df
            ((childTaskCounts (node kind recorded children) tasks).getD i 0) child newChild := by
        intro i child newChild hi hnew
        obtain ⟨before, flag, after, hrun⟩ := hall i child newChild hi hnew
        exact ih child (List.mem_of_getElem? hi) hrun
      rcases hout with ⟨union, newUnion, rfl, hout, hunion⟩ | ⟨hkind, hout⟩
      · rw [hout]
        exact .union hlength hunion hchildren
      · rw [hout]
        refine .transparent hkind hlength ?_
        intro i child newChild hi hnew
        have hprepared := hchildren i child newChild hi hnew
        obtain ⟨hlt, -⟩ := List.getElem?_eq_some_iff.mp hi
        rwa [childTaskCounts_transparent tasks (by exact hkind), children_node,
          List.getD_replicate _ hlt] at hprepared
    | some stage =>
      obtain ⟨results, before, mapped, flag, -, hmapped, hlast⟩ :=
        rewriteUp_ok (prepareNode_onBoundaries df) h
      refine rewriteUp_prepared_boundary hstage hmapped ?_ hlast
      intro i child newChild hi hnew
      obtain ⟨before, flag, after, hrun⟩ := hmapped.rewritten i child newChild hi hnew
      exact ih child (List.mem_of_getElem? hi) hrun

/-- Everything `prepare_network_boundaries` returns is described by `Prepared`: the head stage
runs in one task. -/
theorem prepareNetworkBoundaries_ok {plan : Plan κ}
    (h : prepareNetworkBoundaries df plan = .ok out) :
    Prepared df 1 plan out := by
  unfold prepareNetworkBoundaries at h
  rw [transformUp_stack] at h
  obtain ⟨result, hrun, h⟩ := bind_ok_iff.mp h
  cases h
  exact rewriteUp_prepared hrun

end DatafusionDistributed
