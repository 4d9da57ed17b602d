import DatafusionDistributed.ExecutionPlans.SplitChildren
import DatafusionDistributed.Library.PrefixWalk

/-!
# `ChildrenIsolatorUnionExec`

A union that spreads its children over the tasks of its stage. The task map says which
children a task runs and with which context. Tasks may own different numbers of partitions,
so the union advertises the largest number and pads with empty streams.

The main result is `union_exact_cover`.
-/

namespace DatafusionDistributed

open Library SplitChildren

/-- The methods of a child plan that the union calls: its partition count, building a
`UnionExec` of all children to take over its properties, and the `EmptyExec` placeholder. -/
structure ChildOps (α : Type) where
  partitionCount : α → ℕ
  unionTryNew : List α → Result Unit
  emptyExec : α → α

/-- What the union keeps besides its children. -/
structure UnionTasks where
  /-- The partition count of `properties`. -/
  partitionCount : ℕ
  childAnnotations : List TaskCountAnnotation
  taskIdxMap : List (List ChildTask)
  deriving DecidableEq, Repr

structure ChildrenIsolatorUnionExec (α : Type) extends UnionTasks where
  children : List α
  deriving DecidableEq

/-- What one call of `execute` returns: the stream of one partition of a child run with its
own context, or an empty stream. -/
inductive ChildStream (α : Type) where
  | empty
  | child (childIdx : ℕ) (input : α) (ctx : DistributedTaskContext) (partition : ℕ)

namespace UnionTasks

/-- `child_task_counts`: the number of tasks each of the `children` children runs in. -/
def childTaskCounts (self : UnionTasks) (children : ℕ) : List ℕ :=
  self.taskIdxMap.foldl
    (fun counts childrenInTask =>
      childrenInTask.foldl
        (fun counts (childIdx, ctx) => counts.modify childIdx (max · ctx.taskCount)) counts)
    (List.replicate children 0)

end UnionTasks

namespace ChildrenIsolatorUnionExec

variable {α : Type} (ops : ChildOps α)

def childPartitions (children : List α) (childIdx : ℕ) : ℕ :=
  match children[childIdx]? with
  | some child => ops.partitionCount child
  | none => 0

def partitionCounts (children : List α) (taskIdxMap : List (List ChildTask)) : List ℕ :=
  taskIdxMap.map fun childrenInTask =>
    (childrenInTask.map fun task => childPartitions ops children task.1).sum

def fromChildrenAndAnnotations (children : List α) (childAnnotations : List TaskCountAnnotation)
    (taskCount : ℕ) : Result (ChildrenIsolatorUnionExec α) := do
  if children.length ≠ childAnnotations.length then
    .error (.internal (s!"ChildrenIsolatorUnionExec received {children.length} children but " ++
      s!"{ childAnnotations.length} task count annotations. " ++
      "This is a bug in the distributed planning logic, please report it"))
  else
    let taskIdxMap ← splitChildren childAnnotations taskCount
    match (partitionCounts ops children taskIdxMap).max? with
    | none =>
      .error (.internal ("ChildrenIsolatorUnionExec built an empty task_idx_map. " ++
        "This is a bug in the distributed planning logic, please report it"))
    | some partitionCount =>
      ops.unionTryNew children
      return { partitionCount, childAnnotations, taskIdxMap, children }

/-- `new_single_task`: every child runs in the only task. -/
def newSingleTask (children : List α) : Result (ChildrenIsolatorUnionExec α) :=
  fromChildrenAndAnnotations ops children
    (List.replicate children.length (.ofSoft 1)) 1

/-- `with_new_children`: the annotations and the number of tasks are kept. -/
def withNewChildren (self : ChildrenIsolatorUnionExec α) (children : List α) :
    Result (ChildrenIsolatorUnionExec α) :=
  if children.length ≠ self.children.length then
    .error (.plan (s!"Number of children must match the original plan, " ++
      s!"have {children.length} but expected {self.children.length}"))
  else fromChildrenAndAnnotations ops children self.childAnnotations self.taskIdxMap.length

def childTaskCounts (self : ChildrenIsolatorUnionExec α) : List ℕ :=
  self.toUnionTasks.childTaskCounts self.children.length

/-- The children of the plan of one task: those the task does not run become placeholders. -/
def specializedChildren (children : List α) (childrenInTask : List ChildTask) : List α :=
  let childrenToKeep := childrenInTask.map Prod.fst
  children.zipIdx.map fun (plan, childI) =>
    if childrenToKeep.contains childI then plan else ops.emptyExec plan

def toTaskSpecialized (self : ChildrenIsolatorUnionExec α) (taskI : ℕ) :
    Result (ChildrenIsolatorUnionExec α) :=
  match self.taskIdxMap[taskI]? with
  | none => .error (.panic "index out of bounds")
  | some childrenInTask =>
    .ok { self with children := specializedChildren ops self.children childrenInTask }

/-- The loop of `execute`: walk the children of the task until the partition falls into one. -/
def executeFrom (children : List α) : List ChildTask → ℕ → Result (ChildStream α)
  | [], _ => .ok .empty
  | (childIdx, ctx) :: rest, partition =>
    match children[childIdx]? with
    | none => .error (.internal s!"Could not find child with index {childIdx}")
    | some input =>
      if partition < ops.partitionCount input then .ok (.child childIdx input ctx partition)
      else executeFrom children rest (partition - ops.partitionCount input)

/-- `execute`, for the task of `ctx`. -/
def execute (self : ChildrenIsolatorUnionExec α) (partition : ℕ) (ctx : DistributedTaskContext) :
    Result (ChildStream α) :=
  match self.taskIdxMap[ctx.taskIndex]? with
  | none => .error (.panic "index out of bounds")
  | some children => executeFrom ops self.children children partition

/-! ## The invariant of a union -/

/-- The invariant of every union the code builds for `tasks` outer tasks: its task map splits
its annotations, there is one annotation for each child, and the advertised partition count is
the largest that a task owns. -/
structure Placed (union : ChildrenIsolatorUnionExec α) (tasks : ℕ) : Prop where
  computed : splitChildren union.childAnnotations tasks = .ok union.taskIdxMap
  length_children : union.children.length = union.childAnnotations.length
  advertised : (partitionCounts ops union.children union.taskIdxMap).max? =
    some union.partitionCount

variable {ops}

variable {tasks childIdx n t c q : ℕ} {children : List α} {self next : ChildrenIsolatorUnionExec α}
  {ctx : DistributedTaskContext} {row : List ChildTask} {child : α}

theorem Placed.split {union : ChildrenIsolatorUnionExec α} (h : Placed ops union tasks) :
    IsSplit union.childAnnotations tasks union.taskIdxMap
      (SplitChildren.childTaskCounts union.childAnnotations tasks) :=
  splitChildren_isSplit h.computed

theorem fromChildrenAndAnnotations_placed {anns : List TaskCountAnnotation}
    (h : fromChildrenAndAnnotations ops children anns tasks = .ok self) :
    Placed ops self tasks ∧ self.children = children ∧ self.childAnnotations = anns := by
  obtain ⟨hlen, h⟩ := ite_error_ok_iff.mp h
  obtain ⟨map, hmap, h⟩ := bind_ok_iff.mp h
  split at h
  · cases h
  · rename_i count hcount
    obtain ⟨-, -, h⟩ := bind_ok_iff.mp h
    cases h
    exact ⟨⟨hmap, not_not.mp hlen, hcount⟩, rfl, rfl⟩

theorem Placed.withNewChildren (h : Placed ops self tasks)
    (hnext : withNewChildren ops self children = .ok next) : Placed ops next tasks := by
  obtain ⟨-, hnext⟩ := ite_error_ok_iff.mp hnext
  rw [h.split.length_map] at hnext
  exact (fromChildrenAndAnnotations_placed hnext).1

theorem children_withNewChildren (h : withNewChildren ops self children = .ok next) :
    next.children = children := by
  obtain ⟨-, h⟩ := ite_error_ok_iff.mp h
  exact (fromChildrenAndAnnotations_placed h).2.1

theorem annotations_withNewChildren (h : withNewChildren ops self children = .ok next) :
    next.childAnnotations = self.childAnnotations := by
  obtain ⟨-, h⟩ := ite_error_ok_iff.mp h
  exact (fromChildrenAndAnnotations_placed h).2.2

theorem Placed.taskIdxMap_congr {other : ChildrenIsolatorUnionExec α} (h : Placed ops self tasks)
    (hother : Placed ops other tasks) (hanns : other.childAnnotations = self.childAnnotations) :
    other.taskIdxMap = self.taskIdxMap := by
  have hcomputed := hother.computed
  rw [hanns, h.computed] at hcomputed
  exact (Except.ok.inj hcomputed).symm

/-- The update `child_task_counts` makes for one entry of the task map. -/
def raiseCount (counts : List ℕ) (task : ChildTask) : List ℕ :=
  counts.modify task.1 (max · task.2.taskCount)

theorem getElem?_foldl_raiseCount (tasks : List ChildTask) (counts : List ℕ) (childIdx : ℕ) :
    (tasks.foldl raiseCount counts)[childIdx]? =
      counts[childIdx]?.map fun n =>
        tasks.foldl (fun n task => if task.1 = childIdx then max n task.2.taskCount else n) n := by
  induction tasks generalizing counts with
  | nil => simp
  | cons task tasks ih =>
    rw [List.foldl_cons, ih, raiseCount, List.getElem?_modify,
      Option.map_eq_map, Option.map_map]
    rfl

/-- The largest count of the entries of one child, when they all carry the same count. -/
theorem foldl_max_taskCount {tasks : List ChildTask} {count : ℕ}
    (hcount : ∀ task ∈ tasks, task.1 = childIdx → task.2.taskCount = count) (hn : n ≤ count)
    (hsome : n = count ∨ ∃ task ∈ tasks, task.1 = childIdx) :
    tasks.foldl (fun n task => if task.1 = childIdx then max n task.2.taskCount else n) n =
      count := by
  induction tasks generalizing n with
  | nil => simpa using hsome
  | cons task tasks ih =>
    have hrest : ∀ task ∈ tasks, task.1 = childIdx → task.2.taskCount = count :=
      fun task htask => hcount task (List.mem_cons_of_mem _ htask)
    rw [List.foldl_cons]
    by_cases h : task.1 = childIdx
    · rw [if_pos h, hcount task List.mem_cons_self h, max_eq_right hn]
      exact ih hrest le_rfl (Or.inl rfl)
    · rw [if_neg h]
      exact ih hrest hn (hsome.imp_right fun hsome =>
        (List.or_exists_of_exists_mem_cons hsome).resolve_left h)

theorem Placed.mem_flatten (h : Placed ops self tasks) :
    (childIdx, ctx) ∈ self.taskIdxMap.flatten ↔
      ∃ count, (SplitChildren.childTaskCounts self.childAnnotations tasks)[childIdx]? = some count ∧
        ctx.taskIndex < max count 1 ∧ ctx.taskCount = max count 1 := by
  rw [h.split.perm.mem_iff, mem_allTasks]

/-- A child runs in the tasks it was allocated, and in one task if it was allocated none. -/
theorem Placed.childTaskCounts_eq (h : Placed ops self tasks) :
    self.childTaskCounts =
      (SplitChildren.childTaskCounts self.childAnnotations tasks).map (max · 1) := by
  apply List.ext_getElem?
  intro childIdx
  have hfold : self.childTaskCounts =
      self.taskIdxMap.flatten.foldl raiseCount (List.replicate self.children.length 0) := by
    rw [List.foldl_flatten]
    rfl
  rw [hfold, getElem?_foldl_raiseCount, List.getElem?_map]
  by_cases hlt : childIdx < self.children.length
  · have hlt' : childIdx < (SplitChildren.childTaskCounts self.childAnnotations tasks).length := by
      rw [length_childTaskCounts, ← h.length_children]
      exact hlt
    rw [List.getElem?_replicate_of_lt hlt, List.getElem?_eq_getElem hlt', Option.map_some]
    congr 1
    refine foldl_max_taskCount ?_ (Nat.zero_le _) (Or.inr ?_)
    · rintro ⟨idx, ctx⟩ hmem rfl
      obtain ⟨count, hcount, -, heq⟩ := h.mem_flatten.mp hmem
      rw [List.getElem?_eq_getElem hlt'] at hcount
      cases hcount
      exact heq
    · refine ⟨(childIdx, ⟨0, _⟩), h.mem_flatten.mpr
        ⟨_, List.getElem?_eq_getElem hlt', ?_, rfl⟩, rfl⟩
      exact Nat.lt_of_lt_of_le Nat.zero_lt_one (le_max_right _ _)
  · rw [List.getElem?_eq_none (by simpa using hlt), List.getElem?_eq_none]
    · rfl
    · rw [length_childTaskCounts, ← h.length_children]
      exact Nat.le_of_not_lt hlt

theorem Placed.mem_flatten_iff (h : Placed ops self tasks) :
    (childIdx, ctx) ∈ self.taskIdxMap.flatten ↔
      self.childTaskCounts[childIdx]? = some ctx.taskCount ∧ ctx.taskIndex < ctx.taskCount := by
  rw [h.mem_flatten, h.childTaskCounts_eq]
  grind

/-! ## Exact cover -/

/-- The stream of the cell that the walk of `execute` ends in. -/
def streamOf (children : List α) : Option (ChildTask × ℕ) → ChildStream α
  | none => .empty
  | some ((childIdx, ctx), partition) =>
    match children[childIdx]? with
    | none => .empty
    | some input => .child childIdx input ctx partition

theorem executeFrom_eq (partition : ℕ) (hrow : ∀ task ∈ row, task.1 < children.length) :
    executeFrom ops children row partition =
      .ok (streamOf children
        (locate (fun task => childPartitions ops children task.1) row partition)) := by
  induction row generalizing partition with
  | nil => rfl
  | cons task row ih =>
    obtain ⟨childIdx, ctx⟩ := task
    have hlt : childIdx < children.length := hrow _ List.mem_cons_self
    have hget := List.getElem?_eq_getElem hlt
    have hwidth : childPartitions ops children childIdx =
        ops.partitionCount children[childIdx] := by
      rw [childPartitions, hget]
    rw [executeFrom, locate, hget, hwidth]
    dsimp only
    split
    · rw [streamOf, hget]
    · exact ih _ fun task htask => hrow task (List.mem_cons_of_mem _ htask)

/-- What the union reads, over all its outer tasks and advertised partitions: every partition
of every context of every child once, and nothing else. -/
structure ExactCover (ops : ChildOps α) (union : ChildrenIsolatorUnionExec α) (tasks : ℕ) :
    Prop where
  length_counts : union.childTaskCounts.length = union.children.length
  counts_pos : ∀ count ∈ union.childTaskCounts, 0 < count
  once : ∀ c child n, union.children[c]? = some child → union.childTaskCounts[c]? = some n →
    ∀ i < n, ∀ q < ops.partitionCount child,
      ∃! cell : ℕ × ℕ, cell.1 < tasks ∧ cell.2 < union.partitionCount ∧
        union.execute ops cell.2 ⟨cell.1, tasks⟩ = .ok (.child c child ⟨i, n⟩ q)
  only : ∀ t < tasks, ∀ p < union.partitionCount,
    union.execute ops p ⟨t, tasks⟩ = .ok .empty ∨
      ∃ c child n i q, union.children[c]? = some child ∧ union.childTaskCounts[c]? = some n ∧
        i < n ∧ q < ops.partitionCount child ∧
        union.execute ops p ⟨t, tasks⟩ = .ok (.child c child ⟨i, n⟩ q)

theorem Placed.row_lt (h : Placed ops self tasks) (hrow : self.taskIdxMap[t]? = some row) :
    ∀ task ∈ row, task.1 < self.children.length := by
  rintro ⟨childIdx, ctx⟩ htask
  have hmem : (childIdx, ctx) ∈ self.taskIdxMap.flatten :=
    List.mem_flatten.mpr ⟨row, List.mem_of_getElem? hrow, htask⟩
  obtain ⟨count, hcount, -, -⟩ := h.mem_flatten.mp hmem
  obtain ⟨hlt, -⟩ := List.getElem?_eq_some_iff.mp hcount
  rw [length_childTaskCounts, ← h.length_children] at hlt
  exact hlt

theorem Placed.row_nodup (h : Placed ops self tasks) (hrow : self.taskIdxMap[t]? = some row) :
    (row.map Prod.fst).Nodup :=
  splitChildren_row_nodup h.computed hrow

theorem Placed.exists_row (h : Placed ops self tasks) (ht : t < tasks) :
    ∃ row, self.taskIdxMap[t]? = some row :=
  ⟨_, List.getElem?_eq_getElem (h.split.length_map.symm ▸ ht)⟩

theorem Placed.execute_eq (h : Placed ops self tasks) (hrow : self.taskIdxMap[t]? = some row)
    (p : ℕ) :
    self.execute ops p ⟨t, tasks⟩ =
      .ok (streamOf self.children
        (locate (fun task => childPartitions ops self.children task.1) row p)) := by
  rw [execute, hrow]
  exact executeFrom_eq p (h.row_lt hrow)

theorem Placed.sum_row_le (h : Placed ops self tasks) (hrow : self.taskIdxMap[t]? = some row) :
    (row.map fun task => childPartitions ops self.children task.1).sum ≤ self.partitionCount := by
  have hmax := (List.max?_eq_some_iff.mp h.advertised).2
  apply hmax
  exact List.mem_map.mpr ⟨row, List.mem_of_getElem? hrow, rfl⟩

theorem streamOf_eq_child_iff {found : Option (ChildTask × ℕ)} :
    streamOf children found = .child c child ctx q ↔
      found = some ((c, ctx), q) ∧ children[c]? = some child := by
  unfold streamOf
  grind

section Placed

variable (h : Placed ops self tasks)
include h

/-- The task of a row reads every partition of each of its children. -/
theorem Placed.exists_execute {childCtx : DistributedTaskContext} (ctx : DistributedTaskContext)
    (hrow : self.taskIdxMap[ctx.taskIndex]? = some row) (hin : (c, childCtx) ∈ row)
    (hchild : self.children[c]? = some child) (hq : q < ops.partitionCount child) :
    ∃ p < self.partitionCount, self.execute ops p ctx = .ok (.child c child childCtx q) := by
  have hwidth : q < childPartitions ops self.children c := by
    rwa [childPartitions, hchild]
  obtain ⟨p, hp⟩ := exists_locate (fun task => childPartitions ops self.children task.1) hin hwidth
  refine ⟨p, Nat.lt_of_lt_of_le (locate_some _ hp).2.2 (h.sum_row_le hrow), ?_⟩
  exact (h.execute_eq hrow p).trans (congrArg _ (streamOf_eq_child_iff.mpr ⟨hp, hchild⟩))

/-- The task of a row reads nothing else. -/
theorem Placed.execute_cases (ctx : DistributedTaskContext)
    (hrow : self.taskIdxMap[ctx.taskIndex]? = some row) (p : ℕ) :
    self.execute ops p ctx = .ok .empty ∨
      ∃ c child childCtx q, (c, childCtx) ∈ row ∧ self.children[c]? = some child ∧
        q < ops.partitionCount child ∧
        self.execute ops p ctx = .ok (.child c child childCtx q) := by
  have hexec : self.execute ops p ctx = .ok (streamOf self.children
      (locate (fun task => childPartitions ops self.children task.1) row p)) :=
    h.execute_eq hrow p
  cases hfound : locate (fun task => childPartitions ops self.children task.1) row p with
  | none =>
    rw [hfound] at hexec
    exact .inl hexec
  | some found =>
    obtain ⟨⟨c, childCtx⟩, q⟩ := found
    obtain ⟨hin, hq, -⟩ := locate_some _ hfound
    have hchild := List.getElem?_eq_getElem (h.row_lt hrow _ hin)
    refine .inr ⟨c, _, childCtx, q, hin, hchild, ?_, ?_⟩
    · simpa only [childPartitions, hchild] using hq
    · rw [hexec, streamOf_eq_child_iff.mpr ⟨hfound, hchild⟩]

theorem Placed.nodup_flatten : self.taskIdxMap.flatten.Nodup :=
  h.split.perm.nodup_iff.mpr (nodup_allTasks _)

/-- Every context of a child is handed out by one task. -/
theorem Placed.exists_row_of_lt {i : ℕ} (hn : self.childTaskCounts[c]? = some n) (hi : i < n) :
    ∃ t < tasks, ∃ row, self.taskIdxMap[t]? = some row ∧ (c, ⟨i, n⟩) ∈ row := by
  have hmem : (c, ⟨i, n⟩) ∈ self.taskIdxMap.flatten := h.mem_flatten_iff.mpr ⟨hn, hi⟩
  obtain ⟨row, hrow, hin⟩ := List.mem_flatten.mp hmem
  obtain ⟨t, ht⟩ := List.mem_iff_getElem?.mp hrow
  obtain ⟨htlt, -⟩ := List.getElem?_eq_some_iff.mp ht
  exact ⟨t, h.split.length_map ▸ htlt, row, ht, hin⟩

/-- Every child stream is read at exactly one task and partition. -/
theorem Placed.once {i : ℕ} (hchild : self.children[c]? = some child)
    (hn : self.childTaskCounts[c]? = some n) (hi : i < n) (hq : q < ops.partitionCount child) :
    ∃! cell : ℕ × ℕ, cell.1 < tasks ∧ cell.2 < self.partitionCount ∧
      self.execute ops cell.2 ⟨cell.1, tasks⟩ = .ok (.child c child ⟨i, n⟩ q) := by
  obtain ⟨t, htlt, row, ht, hin⟩ := h.exists_row_of_lt hn hi
  obtain ⟨p, hlt, hexec⟩ := h.exists_execute ⟨t, tasks⟩ ht hin hchild hq
  have hp := hexec
  rw [h.execute_eq ht] at hp
  obtain ⟨hp, -⟩ := streamOf_eq_child_iff.mp (Except.ok.inj hp)
  refine ⟨(t, p), ⟨htlt, hlt, hexec⟩, ?_⟩
  rintro ⟨t', p'⟩ ⟨ht', -, hexec⟩
  dsimp only at ht' hexec
  obtain ⟨row', hrow'⟩ := h.exists_row ht'
  rw [h.execute_eq hrow'] at hexec
  obtain ⟨hp', -⟩ := streamOf_eq_child_iff.mp (Except.ok.inj hexec)
  -- The context names its row, and the walk of a row reaches a cell only once.
  have hsame : t' = t := bucket_unique h.nodup_flatten hrow' ht (locate_some _ hp').1 hin
  subst hsame
  rw [ht] at hrow'
  cases hrow'
  have hrownodup := (List.nodup_flatten.mp h.nodup_flatten).1 row (List.mem_of_getElem? ht)
  rw [locate_inj _ hrownodup hp' hp]

theorem Placed.only (ht : t < tasks) (p : ℕ) :
    self.execute ops p ⟨t, tasks⟩ = .ok .empty ∨
      ∃ c child n i q, self.children[c]? = some child ∧ self.childTaskCounts[c]? = some n ∧
        i < n ∧ q < ops.partitionCount child ∧
        self.execute ops p ⟨t, tasks⟩ = .ok (.child c child ⟨i, n⟩ q) := by
  obtain ⟨row, hrow⟩ := h.exists_row ht
  rcases h.execute_cases ⟨t, tasks⟩ hrow p with hempty |
    ⟨c, child, ⟨i, n⟩, q, hin, hchild, hq, hexec⟩
  · exact .inl hempty
  · have hmem : (c, ⟨i, n⟩) ∈ self.taskIdxMap.flatten :=
      List.mem_flatten.mpr ⟨row, List.mem_of_getElem? hrow, hin⟩
    obtain ⟨hn, hi⟩ := h.mem_flatten_iff.mp hmem
    exact .inr ⟨c, child, n, i, q, hchild, hn, hi, hq, hexec⟩

theorem Placed.exactCover : ExactCover ops self tasks where
  length_counts := by
    rw [h.childTaskCounts_eq, List.length_map, length_childTaskCounts, h.length_children]
  counts_pos := by
    intro count hcount
    rw [h.childTaskCounts_eq] at hcount
    obtain ⟨n, -, rfl⟩ := List.mem_map.mp hcount
    exact Nat.lt_of_lt_of_le Nat.zero_lt_one (le_max_right _ _)
  once := fun _ _ _ hchild hn _ hi _ hq => h.once hchild hn hi hq
  only := fun _ ht p _ => h.only ht p

end Placed

/-! ## One task of the union -/

theorem executeFrom_congr {children' : List α} (p : ℕ)
    (h : ∀ task ∈ row, children'[task.1]? = children[task.1]?) :
    executeFrom ops children' row p = executeFrom ops children row p := by
  induction row generalizing p with
  | nil => rfl
  | cons task row ih =>
    have hrest := fun p => ih p fun task htask => h task (List.mem_cons_of_mem _ htask)
    simp only [executeFrom, h task List.mem_cons_self, hrest]

theorem getElem?_specializedChildren {task : ChildTask} (htask : task ∈ row) :
    (specializedChildren ops children row)[task.1]? = children[task.1]? := by
  have hkeep : (row.map Prod.fst).contains task.1 = true := by
    rw [List.contains_iff_mem]
    exact List.mem_map_of_mem htask
  rw [specializedChildren, List.getElem?_map, List.getElem?_zipIdx]
  cases children[task.1]? with
  | none => rfl
  | some child => simp only [Option.map_some, Nat.zero_add, hkeep, if_true]

/-- The specialised plan of a task reads what the task reads from the whole union. -/
theorem toTaskSpecialized_execute (ops : ChildOps α) (ht : t < self.taskIdxMap.length) :
    ∃ special, toTaskSpecialized ops self t = .ok special ∧
      special.partitionCount = self.partitionCount ∧
      ∀ p tasks, special.execute ops p ⟨t, tasks⟩ = self.execute ops p ⟨t, tasks⟩ := by
  have hrow := List.getElem?_eq_getElem ht
  refine ⟨{ self with children := specializedChildren ops self.children self.taskIdxMap[t] },
    ?_, rfl, ?_⟩
  · simp only [toTaskSpecialized, hrow]
  · intro p tasks
    simp only [execute, hrow]
    exact executeFrom_congr p fun task htask => getElem?_specializedChildren htask

end ChildrenIsolatorUnionExec

open ChildrenIsolatorUnionExec in
/-- Exact cover of a union: whatever children replace the original ones, over all outer tasks
and all advertised partitions every partition of every context of every child is read exactly
once, and every other partition is empty. A task reads the same from its specialised plan. -/
theorem union_exact_cover {α : Type} (ops : ChildOps α) {children : List α}
    {anns : List TaskCountAnnotation} {tasks : ℕ} {built : ChildrenIsolatorUnionExec α}
    (hbuilt : fromChildrenAndAnnotations ops children anns tasks = .ok built)
    {replacements : List (List α)} {self : ChildrenIsolatorUnionExec α}
    (hself : replacements.foldlM (withNewChildren ops) built = .ok self) :
    ExactCover ops self tasks ∧
      ∀ t < tasks, ∃ special, toTaskSpecialized ops self t = .ok special ∧
        special.partitionCount = self.partitionCount ∧
        ∀ p, special.execute ops p ⟨t, tasks⟩ = self.execute ops p ⟨t, tasks⟩ := by
  have hplaced : Placed ops self tasks :=
    foldlM_invariant (fun _ _ _ _ h hnext => h.withNewChildren hnext)
      (fromChildrenAndAnnotations_placed hbuilt).1 hself
  refine ⟨hplaced.exactCover, fun t ht => ?_⟩
  rw [← hplaced.split.length_map] at ht
  obtain ⟨special, hspecial, hcount, hexec⟩ := toTaskSpecialized_execute ops ht
  exact ⟨special, hspecial, hcount, fun p => hexec p tasks⟩

/-- Children given by their partition counts alone. -/
def countedChildren : ChildOps ℕ where
  partitionCount := id
  unionTryNew := fun _ => .ok ()
  emptyExec := id

open ChildrenIsolatorUnionExec in
/-- Three children over two tasks, the second one pinned to two contexts, with the children
replaced once by wider ones. -/
theorem union_exact_cover_of_three :
    ∃ built self,
      fromChildrenAndAnnotations countedChildren [1, 2, 3]
        [.ofSoft 1, .ofExact 2 1, .ofSoft (1 / 2)] 2 = .ok built ∧
      [[4, 1, 2]].foldlM (withNewChildren countedChildren) built = .ok self ∧
      self.childTaskCounts = [1, 2, 1] ∧ self.partitionCount = 7 ∧
      ExactCover countedChildren self 2 := by
  let tasks : ℕ → UnionTasks := fun partitionCount =>
    { partitionCount
      childAnnotations := [.ofSoft 1, .ofExact 2 1, .ofSoft (1 / 2)]
      taskIdxMap := [[(0, ⟨0, 1⟩), (1, ⟨1, 2⟩), (2, ⟨0, 1⟩)], [(1, ⟨0, 2⟩)]] }
  have hbuilt : fromChildrenAndAnnotations countedChildren [1, 2, 3]
      [.ofSoft 1, .ofExact 2 1, .ofSoft (1 / 2)] 2 = .ok ⟨tasks 6, [1, 2, 3]⟩ := by
    decide +kernel
  have hself : [[4, 1, 2]].foldlM (withNewChildren countedChildren) ⟨tasks 6, [1, 2, 3]⟩ =
      .ok ⟨tasks 7, [4, 1, 2]⟩ := by
    decide +kernel
  exact ⟨_, _, hbuilt, hself, by decide, rfl, (union_exact_cover countedChildren hbuilt hself).1⟩

end DatafusionDistributed
