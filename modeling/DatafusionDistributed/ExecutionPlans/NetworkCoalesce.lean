import Mathlib.Data.List.Induction
import DatafusionDistributed.Library.Cuts
import DatafusionDistributed.Stage

/-!
# `NetworkCoalesceExec`

A boundary that moves producer partitions without reshuffling them. The producer tasks are
divided into contiguous, balanced groups, one for each consumer task. A consumer advertises
the partitions of the largest group and returns empty streams where its own group is smaller.

The main result is `coalesce_exact_cover`: over all consumer tasks and advertised partitions,
every partition of every producer task is read exactly once, and nothing else is read.
-/

namespace DatafusionDistributed

open Library

/-- `usize::div_ceil`. -/
def divCeil (a b : ℕ) : ℕ :=
  a / b + if 0 < a % b then 1 else 0

structure NetworkCoalesceExec (κ : Type) where
  properties : PlanProperties κ
  inputStage : Stage
  consumerTasks : ℕ+
  deriving DecidableEq, Repr

/-- The contiguous producer tasks of one consumer task. -/
structure TaskGroup where
  startTask : ℕ
  len : ℕ
  maxLen : ℕ

def taskGroup (inputTaskCount taskIndex taskCount : ℕ) : TaskGroup :=
  if taskCount = 0 then ⟨0, 0, 0⟩
  else
    let baseTasksPerGroup := inputTaskCount / taskCount
    let groupsWithExtraTask := inputTaskCount % taskCount
    { startTask := taskIndex * baseTasksPerGroup + min taskIndex groupsWithExtraTask
      len := baseTasksPerGroup + if taskIndex < groupsWithExtraTask then 1 else 0
      maxLen := baseTasksPerGroup + if 0 < groupsWithExtraTask then 1 else 0 }

namespace NetworkCoalesceExec

variable {κ : Type}

/-- The size of the largest group, at least one. -/
def maxInputTaskCount (inputTasks consumerTasks : ℕ) : ℕ :=
  max (divCeil inputTasks consumerTasks) 1

def tryFromStage (inputStage : Stage) (inputProperties : PlanProperties κ) (consumerTasks : ℕ) :
    Result (NetworkCoalesceExec κ) :=
  if h : 0 < consumerTasks then
    .ok { properties := inputProperties.coalesce
            (maxInputTaskCount inputStage.taskCount consumerTasks)
          inputStage
          consumerTasks := ⟨consumerTasks, h⟩ }
  else .error (.panic "attempt to divide by zero")

/-- `with_input_stage`. For a local stage `planProperties` are the properties of its plan, and
the advertised ones are computed from them; otherwise the advertised ones are rescaled. -/
def withInputStage (self : NetworkCoalesceExec κ) (inputStage : Stage)
    (planProperties : PlanProperties κ) : NetworkCoalesceExec κ :=
  let maxCount := maxInputTaskCount inputStage.taskCount self.consumerTasks
  match inputStage with
  | .localStage _ _ => { self with inputStage, properties := planProperties.coalesce maxCount }
  | .remoteStage _ _ =>
    let prevMaxCount := maxInputTaskCount self.inputStage.taskCount self.consumerTasks
    { self with
      inputStage
      properties := self.properties.coalesce (max (maxCount / prevMaxCount) 1) }

/-- `with_new_children` of a node with a local stage, for one child. -/
def withNewChild (self : NetworkCoalesceExec κ) (childProperties : PlanProperties κ) :
    NetworkCoalesceExec κ :=
  { self with
    properties := childProperties.coalesce
      (maxInputTaskCount self.inputStage.taskCount self.consumerTasks) }

/-- `with_new_children`, for children that were checked against the stage: one for a local stage
and none for a remote one. -/
def withNewChildren (self : NetworkCoalesceExec κ) (children : List (PlanProperties κ)) :
    NetworkCoalesceExec κ :=
  match children with
  | child :: _ => self.withNewChild child
  | [] => self

def producerHead (_self : NetworkCoalesceExec κ) (_consumerTaskCount : ℕ) :
    Result (ProducerHead κ) :=
  .ok .none

/-- `execute` with a remote stage of `workers` tasks. -/
def executeRemote (self : NetworkCoalesceExec κ) (workers partition : ℕ)
    (ctx : DistributedTaskContext) : Result (BoundaryStream κ) := do
  if ctx.taskCount ≤ ctx.taskIndex then
    .error (.execution ("NetworkCoalesceExec invalid task context: " ++
      s!"task_index={ctx.taskIndex} >= task_count={ctx.taskCount}"))
  else
    let outPartitions := self.properties.partitionCount
    let partitionsPerTask := outPartitions / maxInputTaskCount workers ctx.taskCount
    if partitionsPerTask = 0 then
      .error (.execution "NetworkCoalesceExec has 0 partitions per input task")
    else
      let group := taskGroup workers ctx.taskIndex ctx.taskCount
      let inputTaskOffset := partition / partitionsPerTask
      let targetPartition := partition % partitionsPerTask
      if group.len ≤ inputTaskOffset then
        .ok .empty
      else if group.maxLen ≤ inputTaskOffset then
        .error (.internal (s!"NetworkCoalesceExec input_task_offset={inputTaskOffset} >= " ++
          s!"group.max_len={group.maxLen}"))
      else
        let head ← self.producerHead ctx.taskCount
        let request ← workerExecute workers (0, partitionsPerTask)
          (group.startTask + inputTaskOffset) targetPartition head
        return .remote [request]

def execute (self : NetworkCoalesceExec κ) (partition : ℕ) (ctx : DistributedTaskContext) :
    Result (BoundaryStream κ) :=
  match self.inputStage with
  | .localStage _ tasks => executeLocalStage tasks partition
  | .remoteStage _ workers => self.executeRemote workers partition ctx

/-- The nodes the code builds for `consumers` consumer tasks, with the number of producer tasks
and of partitions of each producer task: the constructor, followed by changes of the child and
of the input stage. A remote stage has one worker for each task of the stage it replaces. -/
inductive Built (consumers : ℕ) : ℕ → ℕ → NetworkCoalesceExec κ → Prop
  | fromStage {stage : Stage} {properties : PlanProperties κ} {node : NetworkCoalesceExec κ} :
    tryFromStage stage properties consumers = .ok node →
    Built consumers stage.taskCount properties.partitionCount node
  | newChild {tasks partitions : ℕ} {node : NetworkCoalesceExec κ} (child : PlanProperties κ) :
    Built consumers tasks partitions node →
    Built consumers tasks child.partitionCount (node.withNewChild child)
  | localInput {tasks partitions : ℕ} {node : NetworkCoalesceExec κ} (num newTasks : ℕ)
      (plan : PlanProperties κ) :
    Built consumers tasks partitions node →
    Built consumers newTasks plan.partitionCount
      (node.withInputStage (.localStage num newTasks) plan)
  | remoteInput {tasks partitions : ℕ} {node : NetworkCoalesceExec κ} (num : ℕ)
      (plan : PlanProperties κ) :
    Built consumers tasks partitions node →
    Built consumers tasks partitions (node.withInputStage (.remoteStage num tasks) plan)

/-! ## The groups of producer tasks -/

theorem maxInputTaskCount_pos (inputTasks consumerTasks : ℕ) :
    0 < maxInputTaskCount inputTasks consumerTasks :=
  Nat.lt_of_lt_of_le Nat.zero_lt_one (le_max_right _ _)

variable {taskIndex taskCount consumers tasks partitions : ℕ} {node : NetworkCoalesceExec κ}

theorem taskGroup_eq {inputTasks : ℕ} (h : taskIndex < taskCount) :
    taskGroup inputTasks taskIndex taskCount =
      ⟨balancedStart inputTasks taskCount taskIndex, balancedLen inputTasks taskCount taskIndex,
        divCeil inputTasks taskCount⟩ := by
  rw [taskGroup, if_neg (by omega)]
  rfl

theorem balancedLen_le_divCeil (inputTasks taskCount taskIndex : ℕ) :
    balancedLen inputTasks taskCount taskIndex ≤ divCeil inputTasks taskCount := by
  unfold balancedLen divCeil
  split <;> split <;> omega

/-! ## The advertised partitions -/

theorem tryFromStage_ok {stage : Stage} {properties : PlanProperties κ}
    (h : tryFromStage stage properties consumers = .ok node) :
    node.inputStage = stage ∧ (node.consumerTasks : ℕ) = consumers ∧
      node.properties = properties.coalesce (maxInputTaskCount stage.taskCount consumers) := by
  unfold tryFromStage at h
  split at h
  · cases h
    exact ⟨rfl, rfl, rfl⟩
  · cases h

/-- Every way of building the node keeps the advertised count: the partitions of the largest
group of producer tasks. -/
theorem Built.partitionCount (h : Built consumers tasks partitions node) :
    node.properties.partitionCount = partitions * maxInputTaskCount tasks consumers ∧
      node.inputStage.taskCount = tasks ∧ (node.consumerTasks : ℕ) = consumers := by
  induction h with
  | fromStage h =>
    obtain ⟨hstage, hconsumers, hproperties⟩ := tryFromStage_ok h
    refine ⟨?_, by rw [hstage], hconsumers⟩
    rw [hproperties]
    exact PlanProperties.partitionCount_coalesce _ (maxInputTaskCount_pos _ _)
  | newChild child _ ih =>
    obtain ⟨-, hstage, hconsumers⟩ := ih
    refine ⟨?_, hstage, hconsumers⟩
    rw [← hstage, ← hconsumers]
    exact PlanProperties.partitionCount_coalesce _ (maxInputTaskCount_pos _ _)
  | localInput num newTasks plan _ ih =>
    obtain ⟨-, -, hconsumers⟩ := ih
    refine ⟨?_, rfl, hconsumers⟩
    rw [← hconsumers]
    exact PlanProperties.partitionCount_coalesce _ (maxInputTaskCount_pos _ _)
  | @remoteInput tasks partitions node num plan _ ih =>
    obtain ⟨hcount, hstage, hconsumers⟩ := ih
    refine ⟨?_, rfl, hconsumers⟩
    -- The stage keeps its number of tasks, so the properties are rescaled by one.
    have hscale : max (maxInputTaskCount tasks node.consumerTasks /
        maxInputTaskCount node.inputStage.taskCount node.consumerTasks) 1 = 1 := by
      rw [hstage, Nat.div_self (maxInputTaskCount_pos _ _), Nat.max_self]
    have hnew : (node.withInputStage (.remoteStage num tasks) plan).properties =
        node.properties.coalesce (max (maxInputTaskCount tasks node.consumerTasks /
          maxInputTaskCount node.inputStage.taskCount node.consumerTasks) 1) := rfl
    rw [hnew, hscale, PlanProperties.partitionCount_coalesce _ Nat.zero_lt_one, hcount,
      Nat.mul_one]

/-! ## Reading the producers -/

/-- What a consumer task reads at a partition: one partition of a producer task of its group,
or nothing past the end of the group. -/
theorem executeRemote_eq
    (hper : node.properties.partitionCount / maxInputTaskCount tasks taskCount = partitions)
    (hpartitions : 0 < partitions) (hindex : taskIndex < taskCount) (partition : ℕ) :
    node.executeRemote tasks partition ⟨taskIndex, taskCount⟩ =
      if balancedLen tasks taskCount taskIndex ≤ partition / partitions then .ok .empty
      else .ok (.remote [⟨(0, partitions),
        balancedStart tasks taskCount taskIndex + partition / partitions,
        partition % partitions, .none⟩]) := by
  have hgroup := balancedLen_le_divCeil tasks taskCount taskIndex
  unfold executeRemote
  dsimp only
  rw [if_neg (by omega), hper, if_neg (by omega), taskGroup_eq hindex]
  dsimp only
  split
  · rfl
  · have hgroupEnd := @balancedStart_add_len_le tasks _ _ hindex
    have htask : balancedStart tasks taskCount taskIndex + partition / partitions < tasks := by
      omega
    rw [if_neg (by omega)]
    simp only [workerExecute_ok _ htask (Nat.zero_le _)
      (Nat.mod_lt partition hpartitions)]
    rfl

theorem div_maxInputTaskCount
    (hcount : node.properties.partitionCount = partitions * maxInputTaskCount tasks taskCount) :
    node.properties.partitionCount / maxInputTaskCount tasks taskCount = partitions := by
  rw [hcount, Nat.mul_div_cancel _ (maxInputTaskCount_pos _ _)]

theorem executeRemote_request_iff
    (hcount : node.properties.partitionCount = partitions * maxInputTaskCount tasks taskCount)
    (hpartitions : 0 < partitions) (hindex : taskIndex < taskCount) {partition i q : ℕ}
    (hq : q < partitions) :
    node.executeRemote tasks partition ⟨taskIndex, taskCount⟩ =
        .ok (.remote [⟨(0, partitions), i, q, .none⟩]) ↔
      (balancedStart tasks taskCount taskIndex ≤ i ∧
        i < balancedStart tasks taskCount (taskIndex + 1)) ∧
      partition = partitions * (i - balancedStart tasks taskCount taskIndex) + q := by
  rw [executeRemote_eq (div_maxInputTaskCount hcount) hpartitions hindex, balancedStart_succ]
  have hdivmod := Nat.div_add_mod partition partitions
  constructor
  · intro h
    split at h
    · cases h
    · cases h
      refine ⟨⟨Nat.le_add_right _ _, by omega⟩, ?_⟩
      rw [Nat.add_sub_cancel_left]
      exact hdivmod.symm
  · rintro ⟨⟨hstart, hstop⟩, rfl⟩
    have hdiv : (partitions * (i - balancedStart tasks taskCount taskIndex) + q) / partitions =
        i - balancedStart tasks taskCount taskIndex := by
      rw [Nat.mul_add_div hpartitions, Nat.div_eq_of_lt hq, Nat.add_zero]
    have hmod : (partitions * (i - balancedStart tasks taskCount taskIndex) + q) % partitions =
        q := by
      rw [Nat.mul_add_mod, Nat.mod_eq_of_lt hq]
    rw [hdiv, hmod, if_neg (by omega), Nat.add_sub_cancel' hstart]

/-- What all consumers of a coalesce read together: every partition of every producer task
once, through requests for all its partitions, and nothing else. -/
structure ExactCover (node : NetworkCoalesceExec κ) (producers consumers partitions : ℕ) :
    Prop where
  once : ∀ i < producers, ∀ q < partitions,
    ∃! cell : ℕ × ℕ, cell.1 < consumers ∧ cell.2 < node.properties.partitionCount ∧
      node.execute cell.2 ⟨cell.1, consumers⟩ = .ok (.remote [⟨(0, partitions), i, q, .none⟩])
  only : ∀ j < consumers, ∀ p < node.properties.partitionCount,
    node.execute p ⟨j, consumers⟩ = .ok .empty ∨
      ∃ i < producers, ∃ q < partitions,
        node.execute p ⟨j, consumers⟩ = .ok (.remote [⟨(0, partitions), i, q, .none⟩])

theorem exactCover_of_partitionCount {num producers : ℕ}
    (hstage : node.inputStage = .remoteStage num producers)
    (hcount : node.properties.partitionCount = partitions * maxInputTaskCount producers consumers)
    (hconsumers : 0 < consumers) (hpartitions : 0 < partitions) :
    ExactCover node producers consumers partitions := by
  have hexec : ∀ p ctx, node.execute p ctx = node.executeRemote producers p ctx := by
    intro p ctx
    rw [execute, hstage]
  constructor
  · intro i hi q hq
    have hlast : i < balancedStart producers consumers consumers := by
      rwa [balancedStart_last hconsumers]
    have hfirst : balancedStart producers consumers 0 ≤ i := by
      rw [balancedStart_zero]
      exact Nat.zero_le i
    obtain ⟨j, hj, hstart, hstop⟩ := exists_group (balancedStart producers consumers) hfirst hlast
    refine ⟨(j, partitions * (i - balancedStart producers consumers j) + q), ⟨hj, ?_, ?_⟩, ?_⟩
    · have hlen : i - balancedStart producers consumers j + 1 ≤
          maxInputTaskCount producers consumers := by
        have hle := balancedLen_le_divCeil producers consumers j
        rw [balancedStart_succ] at hstop
        unfold maxInputTaskCount
        omega
      have hmul := Nat.mul_le_mul_left partitions hlen
      rw [Nat.mul_succ] at hmul
      omega
    · rw [hexec, executeRemote_request_iff hcount hpartitions hj hq]
      exact ⟨⟨hstart, hstop⟩, rfl⟩
    · rintro ⟨j', p'⟩ ⟨hj', -, hread⟩
      dsimp only at hj' hread
      rw [hexec, executeRemote_request_iff hcount hpartitions hj' hq] at hread
      obtain ⟨hgroup, rfl⟩ := hread
      have hsame := group_unique (monotone_balancedStart producers consumers) hgroup
        ⟨hstart, hstop⟩
      subst hsame
      rfl
  · intro j hj p _
    rw [hexec, executeRemote_eq (div_maxInputTaskCount hcount) hpartitions hj]
    split
    · exact Or.inl rfl
    · refine Or.inr ⟨_, ?_, _, Nat.mod_lt p hpartitions, rfl⟩
      have hgroupEnd := @balancedStart_add_len_le producers _ _ hj
      omega

/-- The internal errors of `execute` are unreachable, whatever partition and context. -/
theorem executeRemote_ne_internal (node : NetworkCoalesceExec κ) (producers p : ℕ)
    (ctx : DistributedTaskContext) (message : String) :
    node.executeRemote producers p ctx ≠ .error (.internal message) := by
  obtain ⟨taskIndex, taskCount⟩ := ctx
  intro h
  by_cases hindex : taskIndex < taskCount
  · by_cases hper : 0 < node.properties.partitionCount / maxInputTaskCount producers taskCount
    · rw [executeRemote_eq rfl hper hindex] at h
      split at h <;> cases h
    · rw [executeRemote, if_neg (Nat.not_le.mpr hindex), if_pos (Nat.eq_zero_of_not_pos hper)] at h
      cases h
  · rw [executeRemote, if_pos (Nat.le_of_not_lt hindex)] at h
    cases h

end NetworkCoalesceExec

open NetworkCoalesceExec in
/-- Exact cover of a coalesce, for any number of producers, consumers and partitions. -/
theorem coalesce_exact_cover {κ : Type} {node : NetworkCoalesceExec κ}
    {num producers consumers partitions : ℕ} (hbuilt : Built consumers producers partitions node)
    (hstage : node.inputStage = .remoteStage num producers) (hpartitions : 0 < partitions) :
    ExactCover node producers consumers partitions ∧
      ∀ p ctx message, node.execute p ctx ≠ .error (.internal message) := by
  obtain ⟨hcount, -, hconsumers⟩ := hbuilt.partitionCount
  have hpos : 0 < consumers := hconsumers ▸ node.consumerTasks.pos
  refine ⟨exactCover_of_partitionCount hstage hcount hpos hpartitions, ?_⟩
  intro p ctx message
  rw [execute, hstage]
  exact executeRemote_ne_internal node producers p ctx message

open NetworkCoalesceExec in
/-- Five producer tasks with three partitions each, read by two consumer tasks that advertise
nine partitions. -/
theorem coalesce_exact_cover_of_five :
    ∃ node : NetworkCoalesceExec ℕ, node.inputStage = .remoteStage 1 5 ∧
      node.properties.partitionCount = 9 ∧ ExactCover node 5 2 3 := by
  let properties : PlanProperties ℕ := ⟨{}, .unknownPartitioning 3⟩
  have hfrom : tryFromStage (.localStage 0 5) properties 2 =
      .ok ⟨⟨{}, .unknownPartitioning 9⟩, .localStage 0 5, 2⟩ := rfl
  have hbuilt := Built.remoteInput 1 properties (Built.fromStage hfrom)
  exact ⟨_, rfl, rfl, (coalesce_exact_cover hbuilt rfl (by decide)).1⟩

/-! ## Sequences of calls -/

namespace NetworkCoalesceExec

variable {κ : Type} {consumers : ℕ}

/-- A call of `with_new_children`, or of `with_input_stage`, with the properties of the plans. -/
inductive Call (κ : Type) where
  | newChildren (children : List (PlanProperties κ))
  | inputStage (stage : Stage) (plan : PlanProperties κ)

/-- The node after a call, with the partitions of its latest local input plan. A call that is
rejected changes neither. -/
def Call.step (state : NetworkCoalesceExec κ × ℕ) : Call κ → NetworkCoalesceExec κ × ℕ
  | .newChildren children =>
    match state.1.inputStage, children with
    | .localStage _ _, [child] => (state.1.withNewChild child, child.partitionCount)
    | _, _ => state
  | .inputStage (.localStage num tasks) plan =>
    (state.1.withInputStage (.localStage num tasks) plan, plan.partitionCount)
  | .inputStage (.remoteStage num workers) plan =>
    (state.1.withInputStage (.remoteStage num workers) plan, state.2)

/-- The advertised partitions are those of the largest group of producer tasks, and a remote
stage is read with the partitions of the input plan for each producer task. -/
structure Advertises (consumers : ℕ) (state : NetworkCoalesceExec κ × ℕ) : Prop where
  consumerTasks : (state.1.consumerTasks : ℕ) = consumers
  partitionCount : state.1.properties.partitionCount =
    state.2 * maxInputTaskCount state.1.inputStage.taskCount consumers
  cover : ∀ num workers, state.1.inputStage = .remoteStage num workers → 0 < state.2 →
    ExactCover state.1 workers consumers state.2

/-- A remote stage has largest groups that are a multiple of those of the stage before. -/
def Call.Scales (consumers : ℕ) (state : NetworkCoalesceExec κ × ℕ) : Call κ → Prop
  | .inputStage (.remoteStage _ workers) _ => state.2 = 0 ∨
    maxInputTaskCount state.1.inputStage.taskCount consumers ∣ maxInputTaskCount workers consumers
  | _ => True

theorem advertises_of_partitionCount {state : NetworkCoalesceExec κ × ℕ}
    (hconsumers : (state.1.consumerTasks : ℕ) = consumers)
    (hcount : state.1.properties.partitionCount =
      state.2 * maxInputTaskCount state.1.inputStage.taskCount consumers) :
    Advertises consumers state := by
  refine ⟨hconsumers, hcount, fun num workers hstage hpartitions => ?_⟩
  rw [hstage] at hcount
  exact exactCover_of_partitionCount hstage hcount (hconsumers ▸ state.1.consumerTasks.pos)
    hpartitions

/-- Rescaling by the integer quotient gives the new multiple only if it divides. -/
theorem rescaled_eq_iff (partitions : ℕ) {old new : ℕ} (hold : 0 < old) (hnew : 0 < new) :
    partitions * old * max (new / old) 1 = partitions * new ↔ partitions = 0 ∨ old ∣ new := by
  rw [Nat.mul_assoc]
  refine ⟨fun h => ?_, ?_⟩
  · rcases Nat.eq_zero_or_pos partitions with hzero | hpos
    · exact Or.inl hzero
    · exact Or.inr ⟨_, (Nat.eq_of_mul_eq_mul_left hpos h).symm⟩
  · rintro (rfl | hdvd)
    · rw [Nat.zero_mul, Nat.zero_mul]
    · have hquotient : 1 ≤ new / old := Nat.div_pos (Nat.le_of_dvd hnew hdvd) hold
      rw [max_eq_left hquotient, Nat.mul_div_cancel' hdvd]

theorem advertises_step_iff {state : NetworkCoalesceExec κ × ℕ} (h : Advertises consumers state)
    (call : Call κ) : Advertises consumers (call.step state) ↔ call.Scales consumers state := by
  obtain ⟨rfl, hcount, -⟩ := id h
  cases call with
  | newChildren children =>
    refine iff_of_true ?_ trivial
    dsimp only [Call.step]
    split
    · exact advertises_of_partitionCount rfl
        (PlanProperties.partitionCount_coalesce _ (maxInputTaskCount_pos _ _))
    · exact h
  | inputStage stage plan =>
    cases stage with
    | localStage num tasks =>
      exact iff_of_true (advertises_of_partitionCount rfl
        (PlanProperties.partitionCount_coalesce _ (maxInputTaskCount_pos _ _))) trivial
    | remoteStage num workers =>
      have hiff := rescaled_eq_iff state.2
        (maxInputTaskCount_pos state.1.inputStage.taskCount state.1.consumerTasks)
        (maxInputTaskCount_pos workers state.1.consumerTasks)
      rw [← hcount, ← PlanProperties.partitionCount_coalesce _
        (Nat.lt_of_lt_of_le Nat.zero_lt_one (le_max_right _ _))] at hiff
      exact ⟨fun hnew => hiff.mp hnew.partitionCount,
        fun hscales => advertises_of_partitionCount rfl (hiff.mpr hscales)⟩

/-- The advertised partitions are right after every call of a sequence exactly if each remote
stage of the sequence has largest groups that are a multiple of those of the stage before. -/
theorem advertises_iff_scales (stage : Stage) (properties : PlanProperties κ) (consumers : ℕ+) :
    ∃ node, tryFromStage stage properties consumers = .ok node ∧ ∀ calls : List (Call κ),
      (∀ before after, calls = before ++ after →
        Advertises consumers (before.foldl Call.step (node, properties.partitionCount))) ↔
      ∀ before call after, calls = before ++ call :: after →
        call.Scales consumers (before.foldl Call.step (node, properties.partitionCount)) := by
  refine ⟨_, dif_pos consumers.pos, fun calls => ⟨fun h before call after hcalls => ?_, ?_⟩⟩
  · have hnext := h (before ++ [call]) after (by rw [hcalls, List.append_assoc]; rfl)
    rw [List.foldl_append] at hnext
    exact (advertises_step_iff (h before _ hcalls) call).mp hnext
  · intro h before
    induction before using List.reverseRecOn with
    | nil =>
      exact fun _ _ => advertises_of_partitionCount rfl
        (PlanProperties.partitionCount_coalesce _ (maxInputTaskCount_pos _ _))
    | append_singleton before call ih =>
      intro after hcalls
      rw [List.append_assoc] at hcalls
      rw [List.foldl_append]
      exact (advertises_step_iff (ih _ hcalls) call).mpr (h before call after hcalls)

/-- One consumer of two tasks with three partitions each, which then run on three workers: six
partitions are advertised instead of nine. -/
theorem not_advertises_two_then_three :
    ∃ node : NetworkCoalesceExec ℕ,
      tryFromStage (.localStage 0 2) ⟨{}, .unknownPartitioning 3⟩ 1 = .ok node ∧
      ¬Advertises 1 (Call.step (node, 3)
        (.inputStage (.remoteStage 0 3) ⟨{}, .unknownPartitioning 3⟩)) :=
  ⟨_, rfl, fun h => absurd h.partitionCount (by decide)⟩

end NetworkCoalesceExec

end DatafusionDistributed
