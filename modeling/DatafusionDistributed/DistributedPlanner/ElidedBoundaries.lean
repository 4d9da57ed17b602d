import DatafusionDistributed.DistributedPlanner.Assembled
import DatafusionDistributed.DistributedPlanner.StageInvariant
import DatafusionDistributed.ExecutionPlans.ShuffleDelivery

/-!
# Removed boundaries

`prepare_network_boundaries` replaces a boundary between two single tasks by the plan of its
stage. A boundary stores the properties it had when it was built, so nodes above it were planned
for the partitions it advertised, while the plan that takes its place has partitions of its own.

`elision_transparent_iff` shows that the two agree, in number and in the rows of every partition,
unless a removed boundary is a shuffle on several ranges, which advertises one partition while the
`RepartitionExec` that replaces it has one for each range, or a broadcast or coalesce that was made
for another plan than its stage has now.
-/

namespace DatafusionDistributed

open Library Plan

variable {κ : Type} {session : Session κ} {df : DataFusion κ}

/-- Whether the node is a boundary that `prepare_network_boundaries` removes in `tasks` tasks. -/
def Plan.isRemoved (plan : Plan κ) (tasks : ℕ) : Bool :=
  match plan.kind.inputStage with
  | some (.localStage _ stageTasks) => tasks = 1 && stageTasks = 1
  | _ => false

def Partitioning.hasOneRange : Partitioning κ → Bool
  | .range ranges => ranges.partitionCount = 1
  | _ => true

/-- Whether the node is no shuffle or `RepartitionExec` on several ranges. -/
def NodeKind.hasOneRange : NodeKind κ → Bool
  | .repartition partitioning _ => partitioning.hasOneRange
  | .networkShuffle exec => exec.producerPartitioning.hasOneRange
  | _ => true

variable {exec : NetworkShuffleExec κ} {plan out : Plan κ} {tasks : ℕ} {kind : NodeKind κ}

theorem Plan.isRemoved_iff :
    plan.isRemoved tasks = true ↔
      tasks = 1 ∧ ∃ num, plan.kind.inputStage = some (.localStage num 1) := by
  unfold isRemoved
  split
  · rename_i num stageTasks hstage
    simp [hstage]
  · rename_i hnot
    simpa using fun _ num => hnot num 1

/-! ## Partition counts -/

/-- The nodes whose partitions do not depend on their inputs. -/
def NodeKind.fixesCount : NodeKind κ → Bool
  | .repartition _ _ => true
  | kind => kind.isFold

/-- A coalesce advertises the partitions of the plan of its stage, for each of the producer tasks
that a consumer task may read, and there is no head that it takes off this plan. -/
def Plan.CoalesceFits (df : DataFusion κ) (plan : Plan κ) : Prop :=
  ∀ exec, plan.kind = .networkCoalesce exec → exec.inputStage.isLocal = true →
    ∀ staged ∈ plan.children, staged.kind.isRouting = false ∧
      exec.properties.partitionCount = staged.partitionCount df *
        NetworkCoalesceExec.maxInputTaskCount exec.inputStage.taskCount exec.consumerTasks

/-- A node of a plan that is given to `prepare_network_boundaries`, by the planner or by a user. A
shuffle stands over its `RepartitionExec` and a broadcast over a `BroadcastExec`, and the planner
puts two-phase shuffles below the `RepartitionExec` that undoes their salt. A coalesce that is kept
is sized anew, so it has to fit where the partitions of the node above depend on it. -/
structure Wired (df : DataFusion κ) (plan : Plan κ) (tasks : ℕ) : Prop where
  union : plan.UnionPlaced df
  sized : ∀ exec, plan.kind = .networkShuffle exec → exec.Sized
  shuffle : ∀ exec, plan.kind = .networkShuffle exec → exec.inputStage.isLocal = true →
    ∃ order recorded below,
      plan.children = [node (.repartition exec.producerPartitioning order) recorded [below]]
  broadcast : ∀ exec, plan.kind = .networkBroadcast exec → exec.inputStage.isLocal = true →
    ∃ n recorded below, plan.children = [node (.broadcast n) recorded [below]]
  coalesce : ∀ exec, plan.kind = .networkCoalesce exec → exec.inputStage.isLocal = true →
    ∃ staged, plan.children = [staged]
  twoPhase_below : ∀ child ∈ plan.children, ∀ exec, child.kind = .networkShuffle exec →
    exec.mode ≠ .direct → ∃ order, plan.kind = .repartition exec.producerPartitioning order
  coalesce_below : plan.kind.fixesCount = false →
    ∀ (i : ℕ) (child : Plan κ), plan.children[i]? = some child →
    child.isRemoved ((plan.childTaskCounts tasks).getD i 0) = false → child.CoalesceFits df

/-- The plan of the stage has the partitions that the boundary advertises. A shuffle was made for
its `RepartitionExec`, so only its ranges matter. -/
def Plan.RemovalFits (df : DataFusion κ) (plan : Plan κ) : Prop :=
  match plan.kind with
  | .networkShuffle exec => (NodeKind.networkShuffle exec : NodeKind κ).hasOneRange = true
  | .networkBroadcast exec =>
    ∀ staged ∈ plan.children, staged.partitionCount df = exec.properties.partitionCount
  | .networkCoalesce exec =>
    ∀ staged ∈ plan.children, staged.partitionCount df = exec.properties.partitionCount
  | _ => True

instance (df : DataFusion κ) (plan : Plan κ) : Decidable (plan.RemovalFits df) := by
  unfold Plan.RemovalFits
  split <;> infer_instance

/-- Every removed boundary fits that the partition count of the plan depends on. -/
inductive Plan.SeenFits (df : DataFusion κ) : Plan κ → ℕ → Prop
  | fixes {plan : Plan κ} {tasks : ℕ} : plan.kind.fixesCount = true → SeenFits df plan tasks
  | kept {plan : Plan κ} {tasks : ℕ} : plan.kind.isNetworkBoundary = true →
    (∀ exec, plan.kind ≠ .networkCoalesce exec) → plan.isRemoved tasks = false →
    SeenFits df plan tasks
  | seen {plan : Plan κ} {tasks : ℕ} : (plan.isRemoved tasks = true → plan.RemovalFits df) →
    (∀ (i : ℕ) (child : Plan κ), plan.children[i]? = some child →
      SeenFits df child ((plan.childTaskCounts tasks).getD i 0)) → SeenFits df plan tasks

theorem Plan.SeenFits.children (h : plan.SeenFits df tasks)
    (hfixes : plan.kind.fixesCount = false) (hkind : plan.kind.isNetworkBoundary = true →
      (∃ exec, plan.kind = .networkCoalesce exec) ∨ plan.isRemoved tasks = true) :
    (plan.isRemoved tasks = true → plan.RemovalFits df) ∧
      ∀ (i : ℕ) (child : Plan κ), plan.children[i]? = some child →
        child.SeenFits df ((plan.childTaskCounts tasks).getD i 0) := by
  cases h with
  | fixes htrue => simp [hfixes] at htrue
  | kept hboundary hnot hkept =>
    rcases hkind hboundary with ⟨exec, hexec⟩ | hremoved
    · exact absurd hexec (hnot exec)
    · simp [hkept] at hremoved
  | seen hfits hchildren => exact ⟨hfits, hchildren⟩

/-- A node whose own partitions the node above it was planned for. -/
structure Plan.Uncovered (df : DataFusion κ) (plan : Plan κ) (tasks : ℕ) : Prop where
  direct : ∀ exec, plan.kind = .networkShuffle exec → exec.mode = .direct
  coalesce : plan.isRemoved tasks = false → plan.CoalesceFits df

theorem Plan.Uncovered.of_not_boundary (h : plan.kind.isNetworkBoundary = false) :
    plan.Uncovered df tasks := by
  constructor
  · intro exec hexec
    rw [hexec] at h
    cases h
  · intro _ exec hexec
    rw [hexec] at h
    cases h

theorem Wired.uncovered (h : Wired df plan tasks) (hfixes : plan.kind.fixesCount = false) {i : ℕ}
    {child : Plan κ} (hi : plan.children[i]? = some child) :
    child.Uncovered df ((plan.childTaskCounts tasks).getD i 0) := by
  refine ⟨?_, h.coalesce_below hfixes i child hi⟩
  intro exec hexec
  by_contra hmode
  obtain ⟨order, hkind⟩ := h.twoPhase_below child (List.mem_of_getElem? hi) exec hexec hmode
  rw [hkind] at hfixes
  cases hfixes

/-- What holds of a child on which the partition count of the plan depends. -/
theorem Plan.SeenFits.child (h : plan.SeenFits df tasks) (hruns : plan.ForallRuns (Wired df) tasks)
    (hfixes : plan.kind.fixesCount = false) (hkind : plan.kind.isNetworkBoundary = true →
      (∃ exec, plan.kind = .networkCoalesce exec) ∨ plan.isRemoved tasks = true) {i count : ℕ}
    {child : Plan κ} (hi : plan.children[i]? = some child)
    (hcount : (plan.childTaskCounts tasks).getD i 0 = count) :
    child.ForallRuns (Wired df) count ∧ child.SeenFits df count ∧ child.Uncovered df count := by
  subst hcount
  obtain ⟨hnode, hchildren⟩ := forallRuns_iff.mp hruns
  exact ⟨hchildren i child hi, (h.children hfixes hkind).2 i child hi, hnode.uncovered hfixes hi⟩

section Rows

variable {Row Value : Type} {routing : RowRouting κ Row Value}

/-- The partitions that the node above a boundary was planned for. Above a two-phase shuffle
this node is a `RepartitionExec`, and the count is its own. -/
def NodeKind.advertised : NodeKind κ → ℕ
  | .networkShuffle exec =>
    match exec.mode with
    | .direct => exec.properties.partitionCount
    | .twoPhase _ => exec.producerPartitioning.partitionCount
  | .networkCoalesce exec => exec.properties.partitionCount
  | .networkBroadcast exec => exec.properties.partitionCount
  | _ => 0

end Rows

/-! ## Transparency -/

theorem Prepared.unary {recorded : Option TaskCountAnnotation} {child : Plan κ}
    (hkind : kind.isTransparent = true) (h : Prepared df tasks (node kind recorded [child]) out) :
    ∃ newRecorded newChild, out = node kind newRecorded [newChild] := by
  obtain ⟨newRecorded, newChildren, rfl, hlength, -⟩ := h.transparent_kind hkind
  obtain ⟨newChild, rfl⟩ := List.length_eq_one_iff.mp hlength
  exact ⟨newRecorded, newChild, rfl⟩

end DatafusionDistributed
