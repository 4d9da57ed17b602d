import DatafusionDistributed.DistributedPlanner.CollectJoins
import DatafusionDistributed.Library.Joins
import DatafusionDistributed.Worker.ExecuteTask

/-!
# The rows of a converted join

`normalize_collect_joins` converts a hash join that collects its build side into one that joins
partition by partition, with both sides repartitioned by the hash of their keys. This module says
which rows a `HashJoinExec` may emit in either mode, over inputs that may be truncated by a fetch
in any way, and proves that the converted join may emit the same ones.
-/

namespace DatafusionDistributed

open Library Plan

variable {κ Row V : Type} {session : Session κ} {df : DataFusion κ}

/-! ## `HashJoinExec` -/

inductive NullEquality where
  | nullEqualsNull
  | nullEqualsNothing
  deriving DecidableEq, Repr

/-- Whether two key values are equal; `none` is a null. -/
def NullEquality.keyEquals (equal : V → V → Bool) : NullEquality → Option V → Option V → Bool
  | _, some left, some right => equal left right
  | nullEqualsNull, none, none => true
  | _, _, _ => false

/-- The part of a `HashJoinExec` that its builder carries over: the null equality, the residual
filter, and how the columns of an emitted row are put together, projection included. -/
structure JoinSettings (Row : Type) where
  nullEquality : NullEquality
  filter : Row → Row → Bool
  pair : Row → Row → Row
  unmatchedLeft : Row → Row
  unmatchedRight : Row → Row
  leftRow : Row → Row
  rightRow : Row → Row
  leftMark : Row → Bool → Row
  rightMark : Row → Bool → Row

namespace JoinSettings

/-- What a build row emits once all probe rows were seen, if it was visited by one or not. -/
def emitBuild (self : JoinSettings Row) (joinType : JoinType) (row : Row) (visited : Bool) :
    Multiset Row :=
  match joinType with
  | .left | .full => if visited then 0 else {self.unmatchedLeft row}
  | .leftSemi => if visited then {self.leftRow row} else 0
  | .leftAnti => if visited then 0 else {self.leftRow row}
  | .leftMark => {self.leftMark row visited}
  | .inner | .right | .rightSemi | .rightAnti | .rightMark => 0

/-- What a probe row emits, given the build rows it matches. -/
def emitProbe (self : JoinSettings Row) (joinType : JoinType) (row : Row)
    (buildRows : Multiset Row) : Multiset Row :=
  let unmatched := buildRows.card = 0
  match joinType with
  | .inner | .left => buildRows.map (self.pair · row)
  | .right | .full =>
    if unmatched then {self.unmatchedRight row} else buildRows.map (self.pair · row)
  | .rightSemi => if unmatched then 0 else {self.rightRow row}
  | .rightAnti => if unmatched then {self.rightRow row} else 0
  | .rightMark => {self.rightMark row (!decide unmatched)}
  | .leftSemi | .leftAnti | .leftMark => 0

/-- The two as a join: a build row was visited if a probe row matches it. -/
def emitted (self : JoinSettings Row) (joinType : JoinType) : JoinOutput Row Row Row where
  left row probeRows := self.emitBuild joinType row (decide (probeRows.card ≠ 0))
  right row buildRows := self.emitProbe joinType row buildRows

end JoinSettings

/-! ## Execution -/

/-- How the rows of a plan come about: the values of the keys and their hash, which agrees on keys
that a join takes for equal, and the rows that the inputs without a meaning of their own here may
yield in their partitions. -/
structure JoinExecution (df : DataFusion κ) (Row V : Type) where
  routing : RowRouting κ Row (Option V)
  equal : V → V → Bool
  hash_agrees : ∀ (nullEquality : NullEquality) (left right : List (Option V)),
    left.isEqv right (nullEquality.keyEquals equal) = true → routing.hash left = routing.hash right
  source : Plan κ → List (Multiset Row) → Prop
  source_length : ∀ plan partitions, source plan partitions →
    partitions.length = plan.partitionCount df

/-- The rows that are left of `total` by a fetch: all of them, or any as many as it asks for. -/
def Fetched (fetch : Option ℕ) (total rows : Multiset Row) : Prop :=
  rows ≤ total ∧ rows.card = fetch.elim total.card fun n => min n total.card

variable {rows : Multiset Row} {n : ℕ} {next : Plan κ} {changed : Bool}

@[simp] theorem fetched_none {total : Multiset Row} :
    Fetched none total rows ↔ rows = total := by
  constructor
  · rintro ⟨hle, hcard⟩
    exact Multiset.eq_of_le_of_card_le hle hcard.ge
  · rintro rfl
    exact ⟨le_refl _, rfl⟩

/-- The nodes that are not a `CoalescePartitionsExec` nor a hash `RepartitionExec`. -/
def NodeKind.isSource : NodeKind κ → Bool
  | .coalescePartitions _ | .repartition (.hash _ _) _ => false
  | _ => true

/-- The rows that an input of a join may yield in each of its partitions. -/
inductive Yields (exec : JoinExecution df Row V) : Plan κ → List (Multiset Row) → Prop
  | coalescePartitions {fetch : Option ℕ} {recorded : Option TaskCountAnnotation} {input : Plan κ}
      {partitions : List (Multiset Row)} {rows : Multiset Row} :
    Yields exec input partitions → Fetched fetch partitions.sum rows →
    Yields exec (node (.coalescePartitions fetch) recorded [input]) [rows]
  | repartition {exprs : List PhysicalExpr} {n : ℕ} {order : Bool}
      {recorded : Option TaskCountAnnotation} {input : Plan κ} {partitions : List (Multiset Row)} :
    Yields exec input partitions →
    Yields exec (node (.repartition (.hash exprs n) order) recorded [input])
      ((List.range n).map (exec.routing.repartition (.hash exprs n) partitions.sum))
  | source {plan : Plan κ} {partitions : List (Multiset Row)} :
    plan.kind.isSource = true → exec.source plan partitions → Yields exec plan partitions

/-- Two rows match if their keys are equal and the residual filter accepts them. -/
def JoinExecution.rowsMatch (exec : JoinExecution df Row V) (settings : JoinSettings Row)
    (join : HashJoin) (left right : Row) : Bool :=
  (exec.routing.keyValues join.leftKeys left).isEqv (exec.routing.keyValues join.rightKeys right)
    (settings.nullEquality.keyEquals exec.equal) && settings.filter left right

/-- The join of two inputs. -/
def JoinExecution.joined (exec : JoinExecution df Row V) (settings : JoinSettings Row)
    (join : HashJoin) (build probe : Multiset Row) : Multiset Row :=
  (settings.emitted join.joinType).join (exec.rowsMatch settings join) build probe

/-- The rows that a `HashJoinExec` may emit in each of its partitions. In `CollectLeft` mode the
whole build side is probed by every partition, and the partition that finishes `last` emits what is
left to emit of the build side. In `Partitioned` mode every partition has its own build side. A
null-aware join has no meaning here. -/
inductive JoinYields (exec : JoinExecution df Row V) (settings : JoinSettings Row) :
    Plan κ → List (Multiset Row) → Prop
  | collectLeft {join : HashJoin} {recorded : Option TaskCountAnnotation} {left right : Plan κ}
      {build probe : List (Multiset Row)} (last : ℕ) :
    join.mode = .collectLeft → join.nullAware = false →
    Yields exec left build → Yields exec right probe → last < probe.length →
    JoinYields exec settings (node (.hashJoin join) recorded [left, right])
      ((probe.map fun rows => rows.bind fun row => settings.emitProbe join.joinType row
          (build.sum.filter fun buildRow => exec.rowsMatch settings join buildRow row)).modify last
        (· + build.sum.bind fun row => settings.emitBuild join.joinType row
          (decide ((probe.sum.filter fun probeRow =>
            exec.rowsMatch settings join row probeRow).card ≠ 0))))
  | partitioned {join : HashJoin} {recorded : Option TaskCountAnnotation} {left right : Plan κ}
      {build probe : List (Multiset Row)} :
    join.mode = .partitioned → join.nullAware = false →
    Yields exec left build → Yields exec right probe → build.length = probe.length →
    JoinYields exec settings (node (.hashJoin join) recorded [left, right])
      (List.zipWith (exec.joined settings join) build probe)

def Emits (exec : JoinExecution df Row V) (settings : JoinSettings Row) (plan : Plan κ)
    (rows : Multiset Row) : Prop :=
  ∃ partitions, JoinYields exec settings plan partitions ∧ partitions.sum = rows

variable {exec : JoinExecution df Row V} {settings : JoinSettings Row} {join : HashJoin}
  {recorded : Option TaskCountAnnotation} {left right : Plan κ}

theorem Yields.length_eq {plan : Plan κ} {partitions : List (Multiset Row)}
    (h : Yields exec plan partitions) : partitions.length = plan.partitionCount df := by
  cases h with
  | coalescePartitions => rfl
  | repartition => simp [partitionCount, properties, nodeProperties]
  | source _ h => exact exec.source_length _ _ h

def YieldsTotal (exec : JoinExecution df Row V) (plan : Plan κ) (rows : Multiset Row) : Prop :=
  ∃ partitions, Yields exec plan partitions ∧ partitions.sum = rows

/-- The rows are the join of what the inputs may yield in total. -/
def JoinsTotals (exec : JoinExecution df Row V) (settings : JoinSettings Row) (join : HashJoin)
    (left right : Plan κ) (rows : Multiset Row) : Prop :=
  join.nullAware = false ∧ ∃ build probe, YieldsTotal exec left build ∧
    YieldsTotal exec right probe ∧ rows = exec.joined settings join build probe

/-- A build side yields the same rows, whether they are collected or not. -/
theorem yieldsTotal_withoutCoalesce :
    YieldsTotal exec left.withoutCoalesce rows ↔ YieldsTotal exec left rows := by
  unfold withoutCoalesce
  split
  · constructor
    · rintro ⟨partitions, h, rfl⟩
      exact ⟨_, .coalescePartitions h (fetched_none.mpr rfl), List.sum_singleton⟩
    · rintro ⟨partitions, h, rfl⟩
      cases h with
      | coalescePartitions h hrows =>
        exact ⟨_, h, by rw [List.sum_singleton, fetched_none.mp hrows]⟩
      | source hkind _ => cases hkind
  · rfl

/-! ## The two modes -/

/-- What a join that collects its build side emits is decided by its inputs in total. -/
theorem emits_collectLeft (hmode : join.mode = .collectLeft)
    (hright : 0 < right.partitionCount df) :
    Emits exec settings (node (.hashJoin join) recorded [left, right]) rows ↔
      JoinsTotals exec settings join left right rows := by
  -- the rows that are emitted by the last partition count once, and the probe rows of all
  -- partitions emit what they emit together
  have htotal : ∀ (build : Multiset Row) (probe : List (Multiset Row)) (last : ℕ),
      last < probe.length →
      ((probe.map fun rows => rows.bind fun row => settings.emitProbe join.joinType row
          (build.filter fun buildRow => exec.rowsMatch settings join buildRow row)).modify last
        (· + build.bind fun row => settings.emitBuild join.joinType row
          (decide ((probe.sum.filter fun probeRow =>
            exec.rowsMatch settings join row probeRow).card ≠ 0)))).sum =
        exec.joined settings join build probe.sum := by
    intro build probe last hlast
    rw [sum_modify_add (by rwa [List.length_map]), sum_map_bind, add_comm]
    rfl
  constructor
  · rintro ⟨partitions, h, rfl⟩
    cases h with
    | collectLeft last _ haware hbuild hprobe hlast =>
      exact ⟨haware, _, _, ⟨_, hbuild, rfl⟩, ⟨_, hprobe, rfl⟩, htotal _ _ _ hlast⟩
    | partitioned hpartitioned =>
      rw [hmode] at hpartitioned
      cases hpartitioned
  · rintro ⟨haware, _, _, ⟨build, hbuild, rfl⟩, ⟨probe, hprobe, rfl⟩, rfl⟩
    have hlast : 0 < probe.length := by rwa [hprobe.length_eq]
    exact ⟨_, .collectLeft 0 hmode haware hbuild hprobe hlast, htotal _ _ _ hlast⟩

theorem route_of_rowsMatch (l r : Row) (h : exec.rowsMatch settings join l r = true) :
    exec.routing.route (.hash join.leftKeys n) l =
      exec.routing.route (.hash join.rightKeys n) r := by
  have hkeys := (Bool.and_eq_true_iff.mp h).1
  rw [RowRouting.route_hash_eq, RowRouting.route_hash_eq, RowRouting.hashRow, RowRouting.hashRow,
    exec.hash_agrees _ _ _ hkeys]

theorem sum_zipWith_repartition (hn : 0 < n) (build probe : Multiset Row) :
    (List.zipWith (exec.joined settings join)
      ((List.range n).map (exec.routing.repartition (.hash join.leftKeys n) build))
      ((List.range n).map (exec.routing.repartition (.hash join.rightKeys n) probe))).sum =
      exec.joined settings join build probe := by
  have hlt : ∀ (exprs : List PhysicalExpr) (row : Row),
      exec.routing.route (.hash exprs n) row ∈ List.range n := fun exprs row =>
    List.mem_range.mpr (exec.routing.route_lt (.hash exprs n) row hn)
  rw [List.zipWith_map, List.zipWith_self]
  exact JoinOutput.sum_join_cells _ route_of_rowsMatch List.nodup_range
    (fun row _ => hlt join.leftKeys row) (fun row _ => hlt join.rightKeys row)

theorem yields_repartition {exprs : List PhysicalExpr} {order : Bool} {input : Plan κ}
    {partitions : List (Multiset Row)} :
    Yields exec (node (.repartition (.hash exprs n) order) recorded [input]) partitions ↔
      ∃ rows, YieldsTotal exec input rows ∧
        partitions = (List.range n).map (exec.routing.repartition (.hash exprs n) rows) := by
  constructor
  · intro h
    cases h with
    | repartition h => exact ⟨_, ⟨_, h, rfl⟩, rfl⟩
    | source hkind _ => cases hkind
  · rintro ⟨_, ⟨partitions, h, rfl⟩, rfl⟩
    exact .repartition h

/-- So is what a join of repartitioned inputs emits. -/
theorem emits_partitioned (hn : 0 < n) {leftRecorded rightRecorded : Option TaskCountAnnotation}
    {leftOrder rightOrder : Bool} (hmode : join.mode = .partitioned) :
    Emits exec settings (node (.hashJoin join) recorded
        [node (.repartition (.hash join.leftKeys n) leftOrder) leftRecorded [left],
          node (.repartition (.hash join.rightKeys n) rightOrder) rightRecorded [right]]) rows ↔
      JoinsTotals exec settings join left right rows := by
  constructor
  · rintro ⟨partitions, h, rfl⟩
    cases h with
    | collectLeft _ hcollect =>
      rw [hmode] at hcollect
      cases hcollect
    | partitioned _ haware hbuild hprobe _ =>
      obtain ⟨build, hleft, rfl⟩ := yields_repartition.mp hbuild
      obtain ⟨probe, hright, rfl⟩ := yields_repartition.mp hprobe
      exact ⟨haware, build, probe, hleft, hright, sum_zipWith_repartition hn build probe⟩
  · rintro ⟨haware, build, probe, hbuild, hprobe, rfl⟩
    refine ⟨_, .partitioned hmode haware (yields_repartition.mpr ⟨build, hbuild, rfl⟩)
      (yields_repartition.mpr ⟨probe, hprobe, rfl⟩) ?_, sum_zipWith_repartition hn build probe⟩
    rw [List.length_map, List.length_map]

/-! ## The rewrite -/

/-- A rewritten hash join emits what it has emitted before. -/
theorem normalizeCollectJoin_emits (htarget : 1 ≤ session.targetPartitions)
    (h : normalizeCollectJoin session df (node (.hashJoin join) recorded [left, right]) =
      .ok (next, changed)) (rows : Multiset Row) :
    Emits exec settings next rows ↔
      Emits exec settings (node (.hashJoin join) recorded [left, right]) rows := by
  rcases normalizeCollectJoin_ok h with ⟨rfl, -⟩ |
    ⟨_, _, _, _, ⟨⟩, hmode, ⟨hprobe, rfl⟩, -⟩ | ⟨_, _, _, _, ⟨⟩, -⟩
  · rfl
  · rw [emits_collectLeft hmode (by omega)]
    refine (emits_partitioned htarget rfl).trans ?_
    simp only [JoinsTotals, yieldsTotal_withoutCoalesce]
    rfl

/-- The constructors of DataFusion accept the nodes of the converted join. -/
structure AcceptsConverted (session : Session κ) (df : DataFusion κ) (join : HashJoin)
    (left right : Plan κ) : Prop where
  repartitionLeft : df.check (.repartition (.hash join.leftKeys session.targetPartitions) false)
    [left.withoutCoalesce.properties df] = .ok ()
  repartitionRight : df.check (.repartition (.hash join.rightKeys session.targetPartitions) false)
    [right.properties df] = .ok ()
  hashJoin : df.check (.hashJoin { join with mode := .partitioned })
    [(node (.repartition (.hash join.leftKeys session.targetPartitions) false) none
        [left.withoutCoalesce]).properties df,
      (node (.repartition (.hash join.rightKeys session.targetPartitions) false) none
        [right]).properties df] = .ok ()

/-- The rewrite of a hash join does not fail if the probe side has several partitions, or both sides
have one. -/
theorem normalizeCollectJoin_succeeds (haccepts : AcceptsConverted session df join left right)
    (hpartitions : bothSidesUseSinglePartition df left right = true ∨
      1 < right.partitionCount df) :
    ∃ next changed, normalizeCollectJoin session df (node (.hashJoin join) recorded [left, right]) =
      .ok (next, changed) := by
  unfold normalizeCollectJoin
  dsimp only
  split
  · rename_i hjoin
    have hprobe : ¬right.partitionCount df ≤ 1 := by
      rcases hpartitions with hsingle | hmany
      · rw [hjoin.2.2.2] at hsingle
        cases hsingle
      · omega
    have hconverted : ∃ out,
        collectLeftToPartitioned df join left right session.targetPartitions = .ok out := by
      unfold collectLeftToPartitioned repartitionTryNew
      simp only [if_neg hprobe, haccepts.repartitionLeft, haccepts.repartitionRight,
        haccepts.hashJoin, bind, Except.bind, pure, Except.pure, Bool.false_and]
      exact ⟨_, rfl⟩
    obtain ⟨out, hout⟩ := hconverted
    exact ⟨out, true, by rw [hout]; rfl⟩
  · exact ⟨_, _, rfl⟩

/-- The pass has nothing to rewrite in the plan. -/
def Plan.IsNormalized (session : Session κ) (df : DataFusion κ) (plan : Plan κ) : Prop :=
  plan.Everywhere fun plan => normalizeCollectJoin session df plan = .ok (plan, false)

theorem Plan.IsNormalized.withoutCoalesce (h : left.IsNormalized session df) :
    left.withoutCoalesce.IsNormalized session df := by
  unfold Plan.withoutCoalesce
  split
  · exact (everywhere_iff.mp h).2 _ (List.mem_singleton_self _)
  · exact h

theorem normalizeCollectJoin_children (hleft : left.IsNormalized session df)
    (hright : right.IsNormalized session df)
    (h : normalizeCollectJoin session df (node (.hashJoin join) recorded [left, right]) =
      .ok (next, changed)) :
    ∀ child ∈ next.children, child.IsNormalized session df := by
  rcases normalizeCollectJoin_ok h with ⟨rfl, -⟩ |
    ⟨_, _, _, _, ⟨⟩, -, ⟨-, rfl⟩, -⟩ | ⟨_, _, _, _, ⟨⟩, -⟩
  · simp only [children_node, List.forall_mem_cons]
    exact ⟨hleft, hright, fun _ hnil => absurd hnil List.not_mem_nil⟩
  · simp only [children_node, List.forall_mem_cons]
    exact ⟨everywhere_unary rfl hleft.withoutCoalesce, everywhere_unary rfl hright,
      fun _ hnil => absurd hnil List.not_mem_nil⟩

/-- `normalize_collect_joins` of a hash join emits what that one emits. -/
theorem normalized_join_rows (exec : JoinExecution df Row V) (settings : JoinSettings Row)
    {join : HashJoin} {recorded : Option TaskCountAnnotation} {left right : Plan κ}
    (htarget : 1 ≤ session.targetPartitions)
    (haccepts : AcceptsConverted session df join left right)
    (hpartitions : bothSidesUseSinglePartition df left right = true ∨
      1 < right.partitionCount df)
    (hleft : left.IsNormalized session df) (hright : right.IsNormalized session df) :
    ∃ out, normalizeCollectJoins session df (node (.hashJoin join) recorded [left, right]) =
        .ok out ∧
      ∀ rows, Emits exec settings out rows ↔
        Emits exec settings (node (.hashJoin join) recorded [left, right]) rows := by
  obtain ⟨next, changed, hnext⟩ := normalizeCollectJoin_succeeds haccepts hpartitions
  have hout : normalizeCollectJoins session df (node (.hashJoin join) recorded [left, right]) =
      .ok next :=
    transformDown_of_step normalizeCollectJoin_lighter hnext
      (normalizeCollectJoin_children hleft hright hnext)
  exact ⟨next, hout, normalizeCollectJoin_emits htarget hnext⟩

/-! A left join with a residual filter, over the first row of a table with a null key. -/

/-- Rows of two columns; keys are hashed to the sum of their values, with nulls as zeros. -/
def hashedColumns : RowRouting ℕ (List (Option ℕ)) (Option ℕ) where
  eval := fun id row => row.getD id none
  literal := some
  hash := fun values => (values.map (·.getD 0)).sum
  route := fun partitioning row =>
    match partitioning with
    | .hash exprs n =>
      ((exprs.map fun e => match e with
        | .expr id => row.getD id none
        | .literal value => some value).map (·.getD 0)).sum % n
    | _ => 0
  route_hash := fun _ _ _ => rfl
  route_lt := by
    intro partitioning row hpos
    cases partitioning with
    | hash exprs n => exact Nat.mod_lt _ hpos
    | _ => exact hpos

theorem hashedColumns_agrees (nullEquality : NullEquality) (left right : List (Option ℕ))
    (h : left.isEqv right (nullEquality.keyEquals (· == ·)) = true) :
    hashedColumns.hash left = hashedColumns.hash right := by
  have hkey : ∀ a b : Option ℕ, nullEquality.keyEquals (· == ·) a b = true → a = b := by
    intro a b hab
    cases nullEquality <;> cases a <;> cases b <;> simp_all [NullEquality.keyEquals]
  induction left generalizing right with
  | nil =>
    cases right with
    | nil => rfl
    | cons b right => cases h
  | cons a left ih =>
    cases right with
    | nil => cases h
    | cons b right =>
      obtain ⟨hhead, htail⟩ := Bool.and_eq_true_iff.mp h
      have hrest : (left.map (·.getD 0)).sum = (right.map (·.getD 0)).sum := ih right htail
      simp [hashedColumns, hkey a b hhead, hrest]

/-- The inputs are tables of two partitions with any rows. -/
def columnsExecution :
    JoinExecution (DataFusion.ofLeaves fun _ => 2 : DataFusion ℕ) (List (Option ℕ)) ℕ where
  routing := hashedColumns
  equal := (· == ·)
  hash_agrees := hashedColumns_agrees
  source plan partitions := partitions.length = plan.partitionCount (DataFusion.ofLeaves fun _ => 2)
  source_length _ _ h := h

def columnsSettings : JoinSettings (List (Option ℕ)) where
  nullEquality := .nullEqualsNull
  filter left right := left.getD 1 none != right.getD 1 none
  pair left right := left ++ right
  unmatchedLeft left := left ++ [none, none]
  unmatchedRight right := [none, none] ++ right
  leftRow := id
  rightRow := id
  leftMark left mark := left ++ [some mark.toNat]
  rightMark right mark := right ++ [some mark.toNat]

def firstRowJoin : Plan ℕ :=
  node (.hashJoin ⟨.collectLeft, .left, false, [.expr 0], [.expr 0]⟩) none
    [node (.coalescePartitions (some 1)) none [node (.other 0) none []], node (.other 1) none []]

/-- The join after the pass. The fetch is still below the repartition. -/
def convertedFirstRowJoin : Plan ℕ :=
  node (.hashJoin ⟨.partitioned, .left, false, [.expr 0], [.expr 0]⟩) none
    [node (.repartition (.hash [.expr 0] 2) false) none
      [node (.coalescePartitions (some 1)) none [node (.other 0) none []]],
    node (.repartition (.hash [.expr 0] 2) false) none [node (.other 1) none []]]

/-- The null key meets a null key that the filter rejects, and one that it accepts. -/
theorem firstRowJoin_emits : Emits columnsExecution columnsSettings firstRowJoin
    {[none, some 1, none, some 2]} := by
  have htable : Yields columnsExecution (node (.other 0) none [])
      [{[none, some 1]}, {[some 3, some 1]}] := .source rfl rfl
  have hbuild : Yields columnsExecution
      (node (.coalescePartitions (some 1)) none [node (.other 0) none []]) [{[none, some 1]}] :=
    .coalescePartitions htable ⟨by decide, rfl⟩
  have hprobe : Yields columnsExecution (node (.other 1) none [])
      [{[none, some 1]}, {[none, some 2]}] := .source rfl rfl
  exact ⟨_, .collectLeft 1 rfl rfl hbuild hprobe (by decide), by decide⟩

theorem convertedFirstRowJoin_emits :
    normalizeCollectJoins (Session.ofEstimates {} fun _ => 1) (DataFusion.ofLeaves fun _ => 2)
        firstRowJoin = .ok convertedFirstRowJoin ∧
      Emits columnsExecution columnsSettings convertedFirstRowJoin
        {[none, some 1, none, some 2]} := by
  have hleaf : ∀ op, (node (.other op) none [] : Plan ℕ).IsNormalized
      (Session.ofEstimates {} fun _ => 1) (DataFusion.ofLeaves fun _ => 2) := by
    intro op
    exact .node rfl fun _ hnil => absurd hnil List.not_mem_nil
  have haccepts : AcceptsConverted (Session.ofEstimates {} fun _ => 1)
      (DataFusion.ofLeaves fun _ => 2 : DataFusion ℕ)
      ⟨.collectLeft, .left, false, [.expr 0], [.expr 0]⟩
      (node (.coalescePartitions (some 1)) none [node (.other 0) none []])
      (node (.other 1) none []) :=
    ⟨rfl, rfl, rfl⟩
  obtain ⟨out, hout, hrows⟩ := normalized_join_rows columnsExecution
    columnsSettings (by decide) haccepts (.inr (by decide)) (everywhere_unary rfl (hleaf 0))
    (hleaf 1)
  cases hout
  exact ⟨rfl, (hrows _).mpr firstRowJoin_emits⟩

end DatafusionDistributed
