import DatafusionDistributed.DistributedPlanner.PartialReduceBelowNetworkShuffles

/-!
# The results of a partially reduced aggregation

An aggregate emits every row that it reads once for each mask of its group-by. Aggregate states
form a commutative monoid. `partial_reduce_results_iff` compares the groups of the final
aggregate above a shuffle before and after the pass. The rows of several masks are emitted once
more for each mask, with a new grouping id, so every state is counted several times.
-/

namespace DatafusionDistributed

open Library Plan

variable {κ Row V Value M R : Type}

/-! ## Aggregation -/

namespace PhysicalGroupBy

section Keys

variable (groupingId : List (List Bool) → ℕ → V)

/-- The column that tells the grouping sets apart. It depends on the masks and on which of them
a row is emitted for. -/
def idColumns (self : PhysicalGroupBy) (index : ℕ) : List V :=
  if self.hasGroupingSet then [groupingId self.groups index] else []

theorem length_idColumns (self : PhysicalGroupBy) (index : ℕ) :
    (self.idColumns groupingId index).length = if self.hasGroupingSet then 1 else 0 := by
  unfold idColumns
  split <;> rfl

variable [Inhabited V]

/-- `evaluate_group_by` for one mask: masked columns take the null expressions. -/
def groupKey (self : PhysicalGroupBy) (eval : GroupExpr → R → V) (row : R)
    (mask : List Bool × ℕ) : List V :=
  let values := self.expr.map fun expr => eval expr.1 row
  let nullValues := self.nullExpr.map fun expr => eval expr.1 row
  (mask.1.zipIdx.map fun isNull =>
    if isNull.1 then nullValues.getD isNull.2 default else values.getD isNull.2 default) ++
      self.idColumns groupingId mask.2

/-- Every row once for each mask. -/
def emit (self : PhysicalGroupBy) (eval : GroupExpr → R → V) (state : R → M)
    (rows : Multiset R) : Multiset (List V × M) :=
  rows.bind fun row =>
    (self.groups.zipIdx.map fun mask => (self.groupKey groupingId eval row mask, state row) :)

/-- The groups that an aggregate makes of the rows of one partition. -/
def aggregate [DecidableEq V] [AddCommMonoid M] (self : PhysicalGroupBy)
    (eval : GroupExpr → R → V) (state : R → M) (rows : Multiset R) : Multiset (List V × M) :=
  if self.isTrueNoGrouping then {([], (rows.map state).sum)}
  else groupSum (self.emit groupingId eval state rows)

/-- The value of an expression on a partial row, whose first columns are its key. -/
def partialColumn : GroupExpr → List V × M → V
  | .column _ index, row => row.1.getD index default
  | .expr _, _ => default

/-- The keys of the rows that a partial aggregate emits. -/
def Emitted (self : PhysicalGroupBy) (key : List V) : Prop :=
  ∃ mask ∈ self.groups.zipIdx, ∃ values : List V,
    values.length = self.expr.length ∧ key = values ++ self.idColumns groupingId mask.2

variable {self : PhysicalGroupBy} {mask : List Bool × ℕ} {row : List V × M}
  {rows : Multiset (List V × M)}

theorem length_of_mem_zipIdx (h : mask ∈ self.groups.zipIdx) : mask.1.length = self.expr.length :=
  self.length_of_mem _ (List.fst_mem_of_mem_zipIdx h)

theorem emitted_of_mem_emit {eval : GroupExpr → R → V} {state : R → M} {rows : Multiset R}
    (h : row ∈ self.emit groupingId eval state rows) :
    self.Emitted groupingId row.1 := by
  obtain ⟨source, -, h⟩ := Multiset.mem_bind.mp h
  obtain ⟨mask, hmask, rfl⟩ := List.mem_map.mp (Multiset.mem_coe.mp h)
  refine ⟨mask, hmask, _, ?_, rfl⟩
  rw [List.length_map, List.length_zipIdx]
  exact length_of_mem_zipIdx hmask

theorem getD_columns {names : List String} {index : ℕ} (h : index < names.length)
    (row : List V × M) :
    ((columns names).map fun expr => partialColumn expr.1 row).getD index default =
      row.1.getD index default := by
  simp [columns, partialColumn, h]

theorem map_getD_zipIdx (mask : List Bool) {key : List V} (h : mask.length ≤ key.length) :
    (mask.zipIdx.map fun isNull => key.getD isNull.2 default) = key.take mask.length := by
  apply List.ext_getElem
  · simp [h]
  · intro i hi hi'
    have hlt : i < key.length := by
      rw [List.length_take] at hi'
      omega
    simp [hlt]

/-- Only grouping sets mask columns, and they have a null expression for each. -/
theorem lt_length_nullExpr (hmask : mask ∈ self.groups.zipIdx) (htrue : true ∈ mask.1) {index : ℕ}
    (h : index < self.expr.length) : index < self.nullExpr.length := by
  cases hsets : self.hasGroupingSet with
  | true => rwa [self.length_nullExpr hsets]
  | false =>
    rcases self.groups_single hsets with hgroups | ⟨-, hgroups⟩
    · have hmem := List.fst_mem_of_mem_zipIdx hmask
      rw [hgroups, List.mem_singleton] at hmem
      simp [hmem] at htrue
    · simp [hgroups] at hmask

/-- A group-by over columns keeps the columns of a key, masked or not, and renews its grouping
id. -/
theorem groupKey_columns (names nullNames : List String) (hexpr : self.expr = columns names)
    (hnull : self.nullExpr = columns nullNames) (hmask : mask ∈ self.groups.zipIdx)
    (hrow : self.expr.length ≤ row.1.length) :
    self.groupKey groupingId partialColumn row mask =
      row.1.take self.expr.length ++ self.idColumns groupingId mask.2 := by
  have hlength := length_of_mem_zipIdx hmask
  dsimp only [groupKey]
  rw [← hlength, ← map_getD_zipIdx mask.1 (by rwa [hlength])]
  congr 1
  apply List.map_congr_left
  intro isNull hisNull
  have hindex : isNull.2 < self.expr.length := by
    rw [← hlength]
    simpa using List.snd_lt_of_mem_zipIdx hisNull
  cases hflag : isNull.1 with
  | false =>
    rw [hexpr]
    rw [hexpr, length_columns] at hindex
    exact getD_columns hindex row
  | true =>
    have hmem := List.fst_mem_of_mem_zipIdx hisNull
    rw [hflag] at hmem
    have hlt := lt_length_nullExpr hmask hmem hindex
    rw [hnull]
    rw [hnull, length_columns] at hlt
    exact getD_columns hlt row

theorem groupKey_partialReduce (hmask : mask ∈ self.groups.zipIdx)
    (hrow : self.expr.length ≤ row.1.length) :
    self.partialReduce.groupKey groupingId partialColumn row mask =
      row.1.take self.expr.length ++ self.idColumns groupingId mask.2 := by
  have hlength : self.partialReduce.expr.length = self.expr.length := by
    simp [partialReduce]
  rw [← hlength] at hrow ⊢
  exact groupKey_columns groupingId _ _ rfl rfl (by exact hmask) hrow

/-- With one mask that keeps the keys, the rows stay as they are. -/
theorem emit_single {mask : List Bool} (hgroups : self.groups = [mask])
    (hkeys : ∀ row ∈ rows, self.groupKey groupingId partialColumn row (mask, 0) = row.1) :
    self.emit groupingId partialColumn Prod.snd rows = rows := by
  calc self.emit groupingId partialColumn Prod.snd rows
      = rows.bind fun row => {row} := by
        apply Multiset.bind_congr
        intro row hrow
        rw [hgroups]
        exact congrArg (fun key => ({(key, row.2)} : Multiset (List V × M))) (hkeys row hrow)
    _ = rows := (Multiset.bind_singleton rows id).trans (Multiset.map_id rows)

theorem emit_asFinal (hrows : ∀ row ∈ rows, self.Emitted groupingId row.1) :
    self.asFinal.emit groupingId partialColumn Prod.snd rows = rows := by
  apply emit_single groupingId rfl
  intro row hrow
  obtain ⟨mask, hmask, values, hvalues, hkey⟩ := hrows row hrow
  have hlength : self.asFinal.expr.length = row.1.length := by
    rw [hkey, List.length_append, length_idColumns, hvalues, asFinal, length_columns]
    cases self.hasGroupingSet <;> simp
  rw [groupKey_columns groupingId _ [] rfl rfl (by exact List.mem_singleton.mpr rfl) hlength.le,
    hlength, List.take_length]
  exact List.append_nil _

/-- With one mask, the inserted aggregate keeps the whole key, as the final one does. -/
theorem emit_partialReduce (hgroups : self.groups.length ≤ 1)
    (hrows : ∀ row ∈ rows, self.Emitted groupingId row.1) :
    self.partialReduce.emit groupingId partialColumn Prod.snd rows = rows := by
  match hmasks : self.groups with
  | [] =>
    have hnone : rows = 0 := by
      apply Multiset.eq_zero_of_forall_notMem
      intro row hrow
      obtain ⟨mask, hmask, -⟩ := hrows row hrow
      simp [hmasks] at hmask
    rw [hnone]
    rfl
  | [mask] =>
    apply emit_single groupingId (by exact hmasks)
    intro row hrow
    obtain ⟨other, hother, values, hvalues, hkey⟩ := hrows row hrow
    have hzero : other = (mask, 0) := by simpa [hmasks] using hother
    subst hzero
    have hle : self.expr.length ≤ row.1.length := by
      rw [hkey, List.length_append]
      omega
    rw [groupKey_partialReduce groupingId hother hle, hkey, ← hvalues, List.take_left]
  | _ :: _ :: _ =>
    rw [hmasks] at hgroups
    simp at hgroups

end Keys

section Groups

variable [DecidableEq V] [Inhabited V] [AddCommMonoid M]
  (groupingId : List (List Bool) → ℕ → V)

/-- The keys of the rows of an aggregate. -/
def PartialKey (self : PhysicalGroupBy) (key : List V) : Prop :=
  if self.isTrueNoGrouping then key = [] else self.Emitted groupingId key

variable {self : PhysicalGroupBy} {rows : Multiset (List V × M)}

theorem partialKey_of_mem {eval : GroupExpr → R → V} {state : R → M} {rows : Multiset R}
    {row : List V × M} (h : row ∈ self.aggregate groupingId eval state rows) :
    self.PartialKey groupingId row.1 := by
  unfold PartialKey
  unfold aggregate at h
  split at h
  · rename_i hnone
    rw [if_pos hnone, Multiset.mem_singleton.mp h]
  · rename_i hnone
    rw [if_neg hnone]
    have hkey := mem_keys_groupSum.mp (Multiset.mem_map_of_mem Prod.fst h)
    obtain ⟨emitted, hemitted, hsame⟩ := Multiset.mem_map.mp hkey
    rw [← hsame]
    exact emitted_of_mem_emit groupingId hemitted

/-- The states of partial rows, merged by key. -/
def mergeStates (self : PhysicalGroupBy) (rows : Multiset (List V × M)) :
    Multiset (List V × M) :=
  if self.isTrueNoGrouping then {([], (rows.map Prod.snd).sum)} else groupSum rows

@[simp] theorem isTrueNoGrouping_partialReduce (self : PhysicalGroupBy) :
    self.partialReduce.isTrueNoGrouping = self.isTrueNoGrouping := by
  cases h : self.expr <;> simp [isTrueNoGrouping, partialReduce, columns, h]

@[simp] theorem isTrueNoGrouping_asFinal (self : PhysicalGroupBy) :
    self.asFinal.isTrueNoGrouping = self.isTrueNoGrouping := by
  cases h : self.expr <;> cases hsets : self.hasGroupingSet <;>
    simp [isTrueNoGrouping, asFinal, columns, h, hsets]

theorem aggregate_asFinal (hrows : ∀ row ∈ rows, self.PartialKey groupingId row.1) :
    self.asFinal.aggregate groupingId partialColumn Prod.snd rows = self.mergeStates rows := by
  unfold aggregate mergeStates
  rw [isTrueNoGrouping_asFinal]
  split
  · rfl
  · rename_i hnone
    simp only [PartialKey, if_neg hnone] at hrows
    rw [emit_asFinal groupingId hrows]

/-- With one mask, the inserted aggregate merges the states of its keys, as the final one does. -/
theorem aggregate_partialReduce (hgroups : self.groups.length ≤ 1)
    (hrows : ∀ row ∈ rows, self.PartialKey groupingId row.1) :
    self.partialReduce.aggregate groupingId partialColumn Prod.snd rows =
      self.mergeStates rows := by
  unfold aggregate mergeStates
  rw [isTrueNoGrouping_partialReduce]
  split
  · rfl
  · rename_i hnone
    simp only [PartialKey, if_neg hnone] at hrows
    rw [emit_partialReduce groupingId hgroups hrows]

omit [Inhabited V] in
theorem regroups_mergeStates (hrows : ∀ row ∈ rows, self.PartialKey groupingId row.1) :
    Regroups (self.isTrueNoGrouping = false) rows (self.mergeStates rows) := by
  unfold mergeStates
  split
  · rename_i hnone
    simp only [PartialKey, if_pos hnone] at hrows
    refine ⟨fun key => ?_, fun hkeyed => by rw [hnone] at hkeyed; cases hkeyed⟩
    -- All rows have the empty key.
    by_cases hkey : key = []
    · rw [hkey, sumAt_of_forall hrows]
      exact (sumAt_cons _ 0 _).trans (by simp)
    · rw [sumAt_of_not_mem, sumAt_of_not_mem]
      · intro hmem
        obtain ⟨row, hrow, rfl⟩ := Multiset.mem_map.mp hmem
        exact hkey (hrows row hrow)
      · simpa using hkey
  · exact Regroups.groupSum rows

omit [Inhabited V] in
/-- Merging yields the same for rows that were merged in pieces before. -/
theorem mergeStates_eq {others : Multiset (List V × M)}
    (h : Regroups (self.isTrueNoGrouping = false) rows others)
    (hrows : ∀ row ∈ rows, self.PartialKey groupingId row.1)
    (hothers : ∀ row ∈ others, self.PartialKey groupingId row.1) :
    self.mergeStates others = self.mergeStates rows := by
  unfold mergeStates
  split
  · rename_i hnone
    simp only [PartialKey, if_pos hnone] at hrows hothers
    rw [h.sum_eq hrows hothers]
  · rename_i hnone
    exact h.groupSum_eq (by simpa using hnone)

omit [Inhabited V] in
theorem partialKey_mergeStates (hrows : ∀ row ∈ rows, self.PartialKey groupingId row.1) :
    ∀ row ∈ self.mergeStates rows, self.PartialKey groupingId row.1 := by
  intro row hrow
  unfold mergeStates at hrow
  split at hrow
  · rename_i hnone
    rw [PartialKey, if_pos hnone, Multiset.mem_singleton.mp hrow]
  · have hkey := mem_keys_groupSum.mp (Multiset.mem_map_of_mem Prod.fst hrow)
    obtain ⟨source, hsource, hsame⟩ := Multiset.mem_map.mp hkey
    rw [← hsame]
    exact hrows source hsource

/-! ## The sum of all states -/

omit [DecidableEq V] in
theorem total_emit (self : PhysicalGroupBy) (eval : GroupExpr → R → V) (state : R → M)
    (rows : Multiset R) :
    total (self.emit groupingId eval state rows) = self.groups.length • (rows.map state).sum := by
  show ((self.emit groupingId eval state rows).map Prod.snd).sum = _
  rw [emit, Multiset.map_bind, ← Multiset.sum_map_nsmul]
  simp [Function.comp_def]

/-- Every row counts once for each mask. -/
theorem total_aggregate (hgroups : self.isTrueNoGrouping = false) (eval : GroupExpr → R → V)
    (state : R → M) (pieces : List (Multiset R)) :
    total (pieces.map (self.aggregate groupingId eval state)).sum =
      self.groups.length • (pieces.sum.map state).sum := by
  induction pieces with
  | nil => simp
  | cons rows pieces ih =>
    have hrows : total (self.aggregate groupingId eval state rows) =
        self.groups.length • (rows.map state).sum := by
      rw [aggregate, hgroups, if_neg Bool.false_ne_true, total_groupSum, total_emit]
    rw [List.map_cons, List.sum_cons, map_add, ih, hrows, List.sum_cons, Multiset.map_add,
      Multiset.sum_add, nsmul_add]

theorem isTrueNoGrouping_of_lt (h : 1 < self.groups.length) :
    self.isTrueNoGrouping = false := by
  cases hsets : self.hasGroupingSet with
  | true => simp [isTrueNoGrouping, hsets]
  | false =>
    rcases self.groups_single hsets with hgroups | ⟨-, hgroups⟩
    · simp [hgroups] at h
    · simp [hgroups] at h

end Groups

end PhysicalGroupBy

/-! ## The plan of the producer stage -/

/-- Routing of rows by their key. -/
def RowRouting.onKeys {K : Type} (routing : RowRouting κ K Value) : RowRouting κ (K × M) Value where
  eval := fun id row => routing.eval id row.1
  literal := routing.literal
  hash := routing.hash
  route := fun partitioning row => routing.route partitioning row.1
  route_hash := fun exprs n row => routing.route_hash exprs n row.1
  route_lt := fun partitioning row => routing.route_lt partitioning row.1

/-- A hash shuffle between an aggregation in two steps, as it runs: how keys are evaluated, routed
and shuffled. -/
structure ShuffledAggregate (κ Row V Value : Type) where
  nodes : AggregateNodes
  eval : GroupExpr → Row → V
  groupingId : List (List Bool) → ℕ → V
  routing : RowRouting κ (List V) Value
  scale : RangeScale κ
  fanoutThreshold : ℕ
  taskCount : ℕ
  producers : ℕ
  consumers : ℕ
  partitions : ℕ
  exprs : List PhysicalExpr
  properties : PlanProperties κ
  exec : NetworkShuffleExec κ
  producers_pos : 0 < producers
  consumers_pos : 0 < consumers
  partitions_pos : 0 < partitions
  partitioning : properties.partitioning = .hash exprs partitions
  planned : NetworkShuffleExec.Planned fanoutThreshold taskCount producers properties exec

namespace ShuffledAggregate

variable [DecidableEq V] [Inhabited V] [AddCommMonoid M] (self : ShuffledAggregate κ Row V Value)
  (accumulate : Row → M)

/-- The partial rows of the partitions of a plan in one task, if `input` holds the rows of the
partitions below the partial aggregate. Plans of other nodes are not evaluated. -/
def partialRows (input : List (Multiset Row)) : Plan κ → Result (List (Multiset (List V × M)))
  | node (.other op) _ [child] =>
    match self.nodes.downcast op with
    | none => .error (.notImplemented "not an aggregate")
    | some agg =>
      match agg.mode with
      | .partialMode =>
        .ok (input.map (agg.groupBy.aggregate self.groupingId self.eval accumulate))
      | .partialReduce => do
        let rows ← partialRows input child
        return rows.map
          (agg.groupBy.aggregate self.groupingId PhysicalGroupBy.partialColumn Prod.snd)
      | _ => .error (.notImplemented "not a partial aggregate")
  | node (.repartition (.hash exprs n) _) _ [child] => do
    let rows ← partialRows input child
    return (List.range n).map (self.routing.onKeys.repartition (.hash exprs n) rows.sum)
  | _ => .error (.notImplemented "not an aggregate")

/-- The shuffle, if `staged` holds the rows of the producer tasks. -/
def shuffle (staged : List (List (Multiset (List V × M)))) : HashShuffle κ (List V × M) where
  exprs := self.exprs
  producers := self.producers
  inputs := fun i => ⟨"AggregateExec", staged.getD i []⟩
  node := self.exec.withInputStage (.remoteStage self.exec.inputStage.num self.producers)
  elided := false

/-- The places where the final aggregate runs: the partitions of every consumer task. -/
def cells : List (ℕ × ℕ) :=
  List.range self.consumers ×ˢ List.range self.partitions

/-- The groups of the final aggregate over the shuffle of a stage, from all its tasks and
partitions. A worker replaces the `RepartitionExec` on top of the stage by the one that it is
asked for. -/
def groupsOver (groupBy : PhysicalGroupBy) (inputs : ℕ → List (Multiset Row)) (staged : Plan κ) :
    Result (Multiset (List V × M)) := do
  let rows ← (List.range self.producers).mapM fun i =>
    self.partialRows accumulate (inputs i) staged.withoutHead
  let groups ← self.cells.mapM fun cell => do
    let received ← (self.shuffle rows).rowsAt self.routing.onKeys self.scale
      ⟨cell.1, self.consumers⟩ cell.2
    return groupBy.asFinal.aggregate self.groupingId PhysicalGroupBy.partialColumn Prod.snd received
  return groups.sum

/-- The groups of the final aggregate above a plan with the shuffle on top. -/
def finalGroups (groupBy : PhysicalGroupBy) (inputs : ℕ → List (Multiset Row)) :
    Plan κ → Result (Multiset (List V × M))
  | node (.networkShuffle _) _ [staged] => self.groupsOver accumulate groupBy inputs staged
  | _ => .error (.notImplemented "not a shuffle")

omit [DecidableEq V] [Inhabited V] [AddCommMonoid M] in
theorem shuffle_feeds (staged : List (List (Multiset (List V × M)))) :
    (self.shuffle staged).Feeds self.fanoutThreshold self.taskCount self.consumers
      self.partitions where
  producers_pos := self.producers_pos
  planned := ⟨self.properties, self.partitioning, .attached self.planned rfl⟩
  remote := fun _ => ⟨self.exec.inputStage.num, rfl⟩
  single := by
    intro h
    cases h

/-- Where the rows of a key are sent. -/
def place (key : List V) : ℕ × ℕ :=
  landing self.routing self.fanoutThreshold self.taskCount self.consumers self.partitions
    self.exprs key

omit [DecidableEq V] [Inhabited V] in
theorem place_mem_cells (key : List V) : self.place key ∈ self.cells := by
  obtain ⟨htask, hpartition⟩ := landing_lt self.exprs self.consumers_pos self.partitions_pos key
  exact List.mem_product.mpr ⟨List.mem_range.mpr htask, List.mem_range.mpr hpartition⟩

/-- All rows that the producer tasks send. -/
def sentRows (sent : ℕ → List (Multiset (List V × M))) : Multiset (List V × M) :=
  ((List.range self.producers).map fun i => (sent i).sum).sum

/-- Those that arrive at one place. -/
def received (rows : Multiset (List V × M)) (cell : ℕ × ℕ) : Multiset (List V × M) :=
  rows.filter fun row => self.place row.1 = cell

omit [DecidableEq V] [Inhabited V] in
theorem nodup_cells : self.cells.Nodup :=
  List.nodup_range.product List.nodup_range

omit [DecidableEq V] [Inhabited V] [AddCommMonoid M] in
theorem sum_received (rows : Multiset (List V × M)) :
    (self.cells.map (self.received rows)).sum = rows := by
  exact sum_map_fibers (fun row => self.place row.1) self.nodup_cells rows
    fun row _ => self.place_mem_cells row.1

omit [DecidableEq V] [Inhabited V] [AddCommMonoid M] in
theorem rows_shuffle (sent : ℕ → List (Multiset (List V × M))) :
    (self.shuffle ((List.range self.producers).map sent)).rows = self.sentRows sent := by
  unfold HashShuffle.rows producedRows sentRows
  congr 1
  apply List.map_congr_left
  intro i hi
  have hlt : i < self.producers := List.mem_range.mp hi
  simp [shuffle, StageInput.rows, List.getElem?_range hlt]

theorem groupsOver_eq {accumulate : Row → M} {groupBy : PhysicalGroupBy}
    {inputs : ℕ → List (Multiset Row)} {staged : Plan κ}
    {sent : ℕ → List (Multiset (List V × M))}
    (h : ∀ i, self.partialRows accumulate (inputs i) staged.withoutHead = .ok (sent i)) :
    self.groupsOver accumulate groupBy inputs staged =
      .ok ((self.cells.map (self.received (self.sentRows sent))).map
        (groupBy.asFinal.aggregate self.groupingId PhysicalGroupBy.partialColumn
          Prod.snd)).sum := by
  have hstaged : (List.range self.producers).mapM (fun i =>
      self.partialRows accumulate (inputs i) staged.withoutHead) =
      .ok ((List.range self.producers).map sent) := by
    rw [mapM_ok_iff, List.forall₂_map_right_iff, List.forall₂_same]
    exact fun i _ => h i
  have hcells : self.cells.mapM (fun cell => do
      let received ← (self.shuffle ((List.range self.producers).map sent)).rowsAt
        self.routing.onKeys self.scale ⟨cell.1, self.consumers⟩ cell.2
      return groupBy.asFinal.aggregate self.groupingId PhysicalGroupBy.partialColumn Prod.snd
        received) =
      .ok ((self.cells.map (self.received (self.sentRows sent))).map
        (groupBy.asFinal.aggregate self.groupingId PhysicalGroupBy.partialColumn Prod.snd)) := by
    rw [mapM_ok_iff, List.map_map, List.forall₂_map_right_iff, List.forall₂_same]
    rintro ⟨j, p⟩ hcell
    obtain ⟨hj, hp⟩ := List.mem_product.mp hcell
    rw [HashShuffle.rowsAt_eq (self.shuffle_feeds _) (List.mem_range.mp hj) (List.mem_range.mp hp),
      self.rows_shuffle]
    rfl
  unfold groupsOver
  rw [hstaged]
  simp only [bind, Except.bind] at hcells ⊢
  rw [hcells]
  rfl

/-! ## With and without the inserted aggregate -/

section Inserted

variable {self} {agg : AggregateExec} {accumulate : Row → M} {input : List (Multiset Row)}
  {exprs : List PhysicalExpr} {n op : ℕ} {preserveOrder : Bool} {below : Plan κ}
  {repartitionTasks aggregateTasks reduceTasks : Option TaskCountAnnotation}

/-- The rows of the partial aggregate in one task. -/
def partialGroups (self : ShuffledAggregate κ Row V Value) (agg : AggregateExec)
    (accumulate : Row → M) (input : List (Multiset Row)) : Multiset (List V × M) :=
  (input.map (agg.groupBy.aggregate self.groupingId self.eval accumulate)).sum

/-- The partitions of the `RepartitionExec` above it. -/
def repartitioned (self : ShuffledAggregate κ Row V Value) (agg : AggregateExec)
    (accumulate : Row → M) (exprs : List PhysicalExpr) (n : ℕ) (input : List (Multiset Row)) :
    List (Multiset (List V × M)) :=
  (List.range n).map (self.routing.onKeys.repartition (.hash exprs n)
    (self.partialGroups agg accumulate input))

/-- The rows of the aggregate that the pass inserts above it. -/
def reduced (self : ShuffledAggregate κ Row V Value) (agg : AggregateExec) (accumulate : Row → M)
    (exprs : List PhysicalExpr) (n : ℕ) (input : List (Multiset Row)) :
    List (Multiset (List V × M)) :=
  (self.repartitioned agg accumulate exprs n input).map
    (agg.groupBy.partialReduce.aggregate self.groupingId PhysicalGroupBy.partialColumn Prod.snd)

theorem partialRows_unreduced (hop : self.nodes.downcast op = some agg)
    (hmode : agg.mode = .partialMode) :
    self.partialRows accumulate input
      (node (.repartition (.hash exprs n) preserveOrder) repartitionTasks
        [node (.other op) aggregateTasks [below]]).withoutHead =
      .ok (input.map (agg.groupBy.aggregate self.groupingId self.eval accumulate)) := by
  simp [withoutHead, partialRows, hop, hmode]

theorem partialRows_reduced {reduceOp : ℕ} (hop : self.nodes.downcast op = some agg)
    (hmode : agg.mode = .partialMode)
    (hreduce : self.nodes.downcast reduceOp = some agg.partialReduce) :
    self.partialRows accumulate input
      (node (.other reduceOp) reduceTasks
        [node (.repartition (.hash exprs n) preserveOrder) repartitionTasks
          [node (.other op) aggregateTasks [below]]]).withoutHead =
      .ok (self.reduced agg accumulate exprs n input) := by
  simp [withoutHead, partialRows, hop, hmode, hreduce, AggregateExec.partialReduce, reduced,
    repartitioned, partialGroups]

theorem sum_repartitioned (hn : 0 < n) :
    (self.repartitioned agg accumulate exprs n input).sum =
      self.partialGroups agg accumulate input :=
  self.routing.onKeys.sum_repartition (by exact hn) _

theorem partialKey_partialGroups :
    ∀ row ∈ self.partialGroups agg accumulate input,
      agg.groupBy.PartialKey self.groupingId row.1 := by
  intro row hrow
  obtain ⟨groups, hgroups, hrow⟩ := mem_list_sum.mp hrow
  obtain ⟨rows, -, rfl⟩ := List.mem_map.mp hgroups
  exact PhysicalGroupBy.partialKey_of_mem self.groupingId hrow

theorem partialKey_repartitioned :
    ∀ rows ∈ self.repartitioned agg accumulate exprs n input, ∀ row ∈ rows,
      agg.groupBy.PartialKey self.groupingId row.1 := by
  intro rows hrows row hrow
  obtain ⟨p, -, rfl⟩ := List.mem_map.mp hrows
  exact partialKey_partialGroups row (Multiset.mem_of_mem_filter hrow)

/-- With one mask, the inserted aggregate regroups the rows of the partial aggregate. -/
theorem regroups_reduced (hn : 0 < n) (hgroups : agg.groupBy.groups.length ≤ 1) :
    Regroups (agg.groupBy.isTrueNoGrouping = false) (self.partialGroups agg accumulate input)
      (self.reduced agg accumulate exprs n input).sum := by
  have hsum : (self.repartitioned agg accumulate exprs n input).sum =
      self.partialGroups agg accumulate input := sum_repartitioned hn
  rw [← hsum]
  apply Regroups.listSum
  unfold reduced
  rw [List.forall₂_map_right_iff, List.forall₂_same]
  intro rows hrows
  have hkeys := partialKey_repartitioned rows hrows
  rw [PhysicalGroupBy.aggregate_partialReduce self.groupingId hgroups hkeys]
  exact PhysicalGroupBy.regroups_mergeStates self.groupingId hkeys

theorem partialKey_reduced (hgroups : agg.groupBy.groups.length ≤ 1) :
    ∀ row ∈ (self.reduced agg accumulate exprs n input).sum,
      agg.groupBy.PartialKey self.groupingId row.1 := by
  intro row hrow
  obtain ⟨groups, hmem, hrow⟩ := mem_list_sum.mp hrow
  obtain ⟨rows, hrows, rfl⟩ := List.mem_map.mp hmem
  have hkeys := partialKey_repartitioned rows hrows
  rw [PhysicalGroupBy.aggregate_partialReduce self.groupingId hgroups hkeys] at hrow
  exact PhysicalGroupBy.partialKey_mergeStates self.groupingId hkeys row hrow

end Inserted

section Sent

variable {self} {groupBy : PhysicalGroupBy} {inputs : ℕ → List (Multiset Row)}
  {staged newStaged : Plan κ} {accumulate : Row → M}
  {sent newSent : ℕ → List (Multiset (List V × M))}

/-- Rows that were regrouped in every producer task have the same final groups. -/
theorem groupsOver_regrouped
    (h : ∀ i, self.partialRows accumulate (inputs i) staged.withoutHead = .ok (sent i))
    (hnew : ∀ i, self.partialRows accumulate (inputs i) newStaged.withoutHead = .ok (newSent i))
    (hsent : ∀ i, ∀ row ∈ (sent i).sum, groupBy.PartialKey self.groupingId row.1)
    (hnewSent : ∀ i, ∀ row ∈ (newSent i).sum, groupBy.PartialKey self.groupingId row.1)
    (hregroups : ∀ i, Regroups (groupBy.isTrueNoGrouping = false) (sent i).sum (newSent i).sum) :
    self.groupsOver accumulate groupBy inputs newStaged =
      self.groupsOver accumulate groupBy inputs staged := by
  have hkeys : ∀ {sent : ℕ → List (Multiset (List V × M))},
      (∀ i, ∀ row ∈ (sent i).sum, groupBy.PartialKey self.groupingId row.1) →
      ∀ cell, ∀ row ∈ self.received (self.sentRows sent) cell,
        groupBy.PartialKey self.groupingId row.1 := by
    intro sent hsent cell row hrow
    obtain ⟨rows, hrows, hrow⟩ := mem_list_sum.mp (Multiset.mem_of_mem_filter hrow)
    obtain ⟨i, -, rfl⟩ := List.mem_map.mp hrows
    exact hsent i row hrow
  have hall : Regroups (groupBy.isTrueNoGrouping = false) (self.sentRows sent)
      (self.sentRows newSent) := by
    apply Regroups.listSum
    rw [List.forall₂_map_left_iff, List.forall₂_map_right_iff, List.forall₂_same]
    exact fun i _ => hregroups i
  rw [self.groupsOver_eq h, self.groupsOver_eq hnew, List.map_map, List.map_map]
  congr 2
  apply List.map_congr_left
  intro cell _
  show groupBy.asFinal.aggregate _ _ _ _ = groupBy.asFinal.aggregate _ _ _ _
  rw [PhysicalGroupBy.aggregate_asFinal self.groupingId (hkeys hsent cell),
    PhysicalGroupBy.aggregate_asFinal self.groupingId (hkeys hnewSent cell)]
  exact PhysicalGroupBy.mergeStates_eq self.groupingId
    (hall.filter fun key => self.place key = cell)
    (hkeys hsent cell) (hkeys hnewSent cell)

/-- The states of the final groups sum up to all states that were sent. -/
theorem total_groupsOver (hgroups : groupBy.isTrueNoGrouping = false)
    (h : ∀ i, self.partialRows accumulate (inputs i) staged.withoutHead = .ok (sent i))
    {groups : Multiset (List V × M)}
    (hrun : self.groupsOver accumulate groupBy inputs staged = .ok groups) :
    total groups = ((List.range self.producers).map fun i => total (sent i).sum).sum := by
  rw [self.groupsOver_eq h] at hrun
  obtain rfl := Except.ok.inj hrun
  rw [PhysicalGroupBy.total_aggregate self.groupingId (by rwa [groupBy.isTrueNoGrouping_asFinal]),
    self.sum_received]
  show 1 • total (self.sentRows sent) = _
  rw [one_nsmul, sentRows, map_list_sum, List.map_map]
  rfl

end Sent

/-- Counting the rows of several masks: the inserted aggregate counts each once more for every
mask. -/
theorem exists_different [Nonempty Row] {agg : AggregateExec} {exprs : List PhysicalExpr} {n : ℕ}
    {staged newStaged : Plan κ} (hn : 0 < n) (hgroups : 1 < agg.groupBy.groups.length)
    (h : ∀ (accumulate : Row → ℕ) input, self.partialRows accumulate input staged.withoutHead =
      .ok (input.map (agg.groupBy.aggregate self.groupingId self.eval accumulate)))
    (hnew : ∀ (accumulate : Row → ℕ) input,
      self.partialRows accumulate input newStaged.withoutHead =
        .ok (self.reduced agg accumulate exprs n input)) :
    ∃ (accumulate : Row → ℕ) (inputs : ℕ → List (Multiset Row)), ∀ groups,
      self.groupsOver accumulate agg.groupBy inputs staged = .ok groups →
      self.groupsOver accumulate agg.groupBy inputs newStaged ≠ .ok groups := by
  obtain ⟨row⟩ := ‹Nonempty Row›
  have hnone := PhysicalGroupBy.isTrueNoGrouping_of_lt hgroups
  refine ⟨fun _ => 1, fun _ => [{row}], fun groups hbefore hafter => ?_⟩
  have hbase : total (self.partialGroups agg (fun _ => 1) [{row}]) =
      agg.groupBy.groups.length := by
    rw [partialGroups, PhysicalGroupBy.total_aggregate self.groupingId hnone]
    simp
  have hreduced : total (self.reduced agg (fun _ => 1) exprs n [{row}]).sum =
      agg.groupBy.groups.length * agg.groupBy.groups.length := by
    rw [reduced, PhysicalGroupBy.total_aggregate self.groupingId
      (by rwa [PhysicalGroupBy.isTrueNoGrouping_partialReduce]), sum_repartitioned hn]
    exact congrArg (agg.groupBy.groups.length * ·) hbase
  have hfew : total groups = ((List.range self.producers).map fun _ =>
      total (self.partialGroups agg (fun _ => 1) [{row}])).sum :=
    total_groupsOver hnone (fun _ => h _ _) hbefore
  have hmany := total_groupsOver hnone (fun _ => hnew _ _) hafter
  simp only [List.map_const', List.sum_replicate, List.length_range] at hfew
  simp only [List.map_const', List.sum_replicate, List.length_range] at hmany
  rw [hfew] at hmany
  have hsquare := Nat.eq_of_mul_eq_mul_left self.producers_pos hmany
  nlinarith

end ShuffledAggregate

open ShuffledAggregate in
/-- The groups of the final aggregate above a shuffle with and without the aggregate that the
pass inserts below it: they are the same for all states and inputs if and only if the partial
aggregate has at most one mask, as a plain group-by has. -/
theorem partial_reduce_results_iff [DecidableEq V] [Inhabited V] [Nonempty Row]
    (shuffled : ShuffledAggregate κ Row V Value) {df : DataFusion κ} {agg : AggregateExec}
    {exprs : List PhysicalExpr} {n op : ℕ} {preserveOrder : Bool} {below out : Plan κ}
    {shuffleTasks repartitionTasks aggregateTasks : Option TaskCountAnnotation} (hn : 0 < n)
    (hop : shuffled.nodes.downcast op = some agg) (hmode : agg.mode = .partialMode)
    (hreduce : shuffled.nodes.downcast (shuffled.nodes.op agg.partialReduce) =
      some agg.partialReduce)
    (h : partialReduceBelowNetworkShuffles df shuffled.nodes true
      (node (.networkShuffle shuffled.exec) shuffleTasks
        [node (.repartition (.hash exprs n) preserveOrder) repartitionTasks
          [node (.other op) aggregateTasks [below]]]) = .ok out) :
    (∀ (M : Type) [AddCommMonoid M] (accumulate : Row → M) (inputs : ℕ → List (Multiset Row)),
      ∃ groups,
        shuffled.finalGroups accumulate agg.groupBy inputs
          (node (.networkShuffle shuffled.exec) shuffleTasks
            [node (.repartition (.hash exprs n) preserveOrder) repartitionTasks
              [node (.other op) aggregateTasks [below]]]) = .ok groups ∧
        shuffled.finalGroups accumulate agg.groupBy inputs out = .ok groups) ↔
      agg.groupBy.groups.length ≤ 1 := by
  obtain ⟨newRepartitionTasks, newAggregateTasks, newBelow, rfl⟩ :=
    partialReduce_shuffle hop hmode h
  constructor
  · intro hsame
    by_contra hgroups
    obtain ⟨accumulate, inputs, hdifferent⟩ := shuffled.exists_different hn (by omega)
      (fun accumulate input => partialRows_unreduced hop hmode)
      (fun accumulate input => partialRows_reduced hop hmode hreduce)
    obtain ⟨groups, hbefore, hafter⟩ := hsame ℕ accumulate inputs
    exact hdifferent groups hbefore hafter
  · intro hgroups M _ accumulate inputs
    have hbefore : ∀ i, shuffled.partialRows accumulate (inputs i)
        (node (.repartition (.hash exprs n) preserveOrder) repartitionTasks
          [node (.other op) aggregateTasks [below]]).withoutHead =
        .ok ((inputs i).map (agg.groupBy.aggregate shuffled.groupingId shuffled.eval accumulate)) :=
      fun i => partialRows_unreduced hop hmode
    refine ⟨_, shuffled.groupsOver_eq hbefore, ?_⟩
    refine (groupsOver_regrouped hbefore (fun i => partialRows_reduced hop hmode hreduce)
      (fun i => ?_) (fun i => ?_) (fun i => ?_)).trans (shuffled.groupsOver_eq hbefore)
    · exact partialKey_partialGroups
    · exact partialKey_reduced hgroups
    · exact regroups_reduced hn hgroups

/-! ## A count by one column, and its rollup -/

def groupByColumn : PhysicalGroupBy where
  expr := [(.column "a" 0, "a")]
  nullExpr := []
  groups := [[false]]
  hasGroupingSet := false
  length_of_mem := by decide
  length_nullExpr := by decide
  groups_single := fun _ => .inl rfl

def groupByRollup : PhysicalGroupBy where
  expr := [(.column "a" 0, "a")]
  nullExpr := [(.expr 0, "a")]
  groups := [[false], [true]]
  hasGroupingSet := true
  length_of_mem := by decide
  length_nullExpr := by decide
  groups_single := by decide

def countBy (groupBy : PhysicalGroupBy) : AggregateExec where
  mode := .partialMode
  groupBy := groupBy
  aggrExpr := [0]
  filterExpr := [none]
  inputSchema := 0

/-- Keys are hashed to the sum of the values of the expressions. -/
def routingByKey : RowRouting ℕ (List ℕ) ℕ where
  eval := fun id key => key.getD id 0
  literal := id
  hash := List.sum
  route := fun partitioning key =>
    match partitioning with
    | .hash exprs n =>
      (exprs.map fun e => match e with
        | .expr id => key.getD id 0
        | .literal value => value).sum % n
    | _ => 0
  route_hash := fun _ _ _ => rfl
  route_lt := by
    intro partitioning row hpos
    cases partitioning with
    | hash exprs n => exact Nat.mod_lt _ hpos
    | _ => exact hpos

/-- Two producer tasks and two consumer tasks of two partitions. Rows are their own value, the
null expression is zero, and the grouping sets are numbered. -/
def shuffledCount (groupBy : PhysicalGroupBy) : ShuffledAggregate ℕ ℕ ℕ ℕ where
  nodes :=
    { downcast := fun op =>
        match op with
        | 1 => some (countBy groupBy)
        | 2 => some (countBy groupBy).partialReduce
        | _ => none
      op := fun _ => 2 }
  eval := fun expr row =>
    match expr with
    | .column _ _ => row
    | .expr _ => 0
  groupingId := fun _ index => index
  routing := routingByKey
  scale := fun range _ => .ok range
  fanoutThreshold := 100
  taskCount := 2
  producers := 2
  consumers := 2
  partitions := 2
  exprs := [.expr 0]
  properties := ⟨{}, .hash [.expr 0] 2⟩
  exec := NetworkShuffleExec.fromStage (.localStage 1 2) ⟨{}, .hash [.expr 0] 2⟩
  producers_pos := by decide
  consumers_pos := by decide
  partitions_pos := by decide
  partitioning := rfl
  planned := .direct rfl (by decide)

def countPlan (groupBy : PhysicalGroupBy) : Plan ℕ :=
  node (.networkShuffle (shuffledCount groupBy).exec) none
    [node (.repartition (.hash [.expr 0] 4) false) none
      [node (.other 1) none [node (.other 0) none []]]]

/-- The plan after the pass. -/
def reducedCountPlan (groupBy : PhysicalGroupBy) : Plan ℕ :=
  node (.networkShuffle (shuffledCount groupBy).exec) none
    [node (.other 2) none
      [node (.repartition (.hash [.expr 0] 4) false) none
        [node (.other 1) none [node (.other 0) none []]]]]

theorem countPlan_reduced (groupBy : PhysicalGroupBy) :
    partialReduceBelowNetworkShuffles (DataFusion.ofLeaves fun _ => 1)
      (shuffledCount groupBy).nodes true (countPlan groupBy) = .ok (reducedCountPlan groupBy) :=
  rfl

theorem partial_reduce_results_column :
    partialReduceBelowNetworkShuffles (DataFusion.ofLeaves fun _ => 1)
      (shuffledCount groupByColumn).nodes true (countPlan groupByColumn) =
        .ok (reducedCountPlan groupByColumn) ∧
    ∀ inputs : ℕ → List (Multiset ℕ), ∃ groups : Multiset (List ℕ × ℕ),
      (shuffledCount groupByColumn).finalGroups (fun _ => 1) groupByColumn inputs
        (countPlan groupByColumn) = .ok groups ∧
      (shuffledCount groupByColumn).finalGroups (fun _ => 1) groupByColumn inputs
        (reducedCountPlan groupByColumn) = .ok groups := by
  refine ⟨countPlan_reduced groupByColumn, fun inputs => ?_⟩
  have hop : (shuffledCount groupByColumn).nodes.downcast 1 = some (countBy groupByColumn) := rfl
  have hreduce : (shuffledCount groupByColumn).nodes.downcast
      ((shuffledCount groupByColumn).nodes.op (countBy groupByColumn).partialReduce) =
        some (countBy groupByColumn).partialReduce := rfl
  have hsame := partial_reduce_results_iff (shuffledCount groupByColumn) (by decide) hop rfl hreduce
    (countPlan_reduced groupByColumn)
  exact hsame.mpr (by decide) ℕ (fun _ => 1) inputs

/-- One row, counted by column `a` and in total. The inserted aggregate turns two groups into
four. -/
theorem rollup_counted_twice :
    partialReduceBelowNetworkShuffles (DataFusion.ofLeaves fun _ => 1)
      (shuffledCount groupByRollup).nodes true (countPlan groupByRollup) =
        .ok (reducedCountPlan groupByRollup) ∧
    (shuffledCount groupByRollup).finalGroups (fun _ => 1) groupByRollup
      (fun i => if i = 0 then [{5}] else []) (countPlan groupByRollup) =
        .ok {([5, 0], 1), ([0, 1], 1)} ∧
    (shuffledCount groupByRollup).finalGroups (fun _ => 1) groupByRollup
      (fun i => if i = 0 then [{5}] else []) (reducedCountPlan groupByRollup) =
        .ok {([5, 0], 1), ([5, 1], 1), ([0, 0], 1), ([0, 1], 1)} := by
  refine ⟨countPlan_reduced groupByRollup, ?_, ?_⟩
  · exact eq_ok_of_toOption (by decide +kernel)
  · exact eq_ok_of_toOption (by decide +kernel)

end DatafusionDistributed
