import DatafusionDistributed.DistributedPlanner.Injected

/-!
# The passes before the boundaries are injected

`normalize_collect_joins` rewrites joins that emit rows of their build side, so that they need not
run in one task. `insert_broadcast_execs` puts a `BroadcastExec` below the joins that may run with
a copy of the build side in every task. `insert_children_isolator_unions` replaces the unions.
All three are `transform_down` rewrites.
-/

namespace DatafusionDistributed

open Library Plan

variable {κ : Type} {session : Session κ} {df : DataFusion κ}

/-! ## `normalize_collect_joins` -/

def JoinType.swap : JoinType → JoinType
  | inner => inner
  | left => right
  | right => left
  | full => full
  | leftSemi => rightSemi
  | rightSemi => leftSemi
  | leftAnti => rightAnti
  | rightAnti => leftAnti
  | leftMark => rightMark
  | rightMark => leftMark

def bothSidesUseSinglePartition (df : DataFusion κ) (left right : Plan κ) : Bool :=
  left.partitionCount df = 1 && right.partitionCount df = 1

/-- The plan without a `CoalescePartitionsExec` on top, unless that one has a fetch. -/
def Plan.withoutCoalesce : Plan κ → Plan κ
  | node (.coalescePartitions none) _ [input] => input
  | plan => plan

def collectLeftToPartitioned (df : DataFusion κ) (join : HashJoin) (left right : Plan κ)
    (targetPartitions : ℕ) : Result (Plan κ) := do
  if right.partitionCount df ≤ 1 then
    .error (.internal
      "Single-partition joins are safe and can actually be made incorrect by repartitioning them")
  else
    let left ← left.withoutCoalesce.repartitionTryNew df (.hash join.leftKeys targetPartitions)
      false
    let right ← right.repartitionTryNew df (.hash join.rightKeys targetPartitions) false
    let kind := NodeKind.hashJoin { join with mode := .partitioned }
    df.check kind [left.properties df, right.properties df]
    return node kind none [left, right]

/-- `NestedLoopJoinExec::swap_inputs`, with the projection that restores the columns. -/
def swapInputs (df : DataFusion κ) (joinType : JoinType) (left right : Plan κ) :
    Result (Plan κ) := do
  df.check (.nestedLoopJoin joinType.swap) [right.properties df, left.properties df]
  let join := node (.nestedLoopJoin joinType.swap) none [right, left]
  match df.reorderAfterSwap joinType with
  | none => return join
  | some op =>
    df.check (.other op) [join.properties df]
    return node (.other op) none [join]

/-- The rewrite of `normalize_collect_joins` at one node. -/
def normalizeCollectJoin (session : Session κ) (df : DataFusion κ) (plan : Plan κ) :
    Result (Plan κ × Bool) :=
  match plan with
  | node (.hashJoin join) taskCount [left, right] =>
    if join.mode = .collectLeft ∧ join.joinType.isLeftBroadcastSafe = false ∧
        join.nullAware = false ∧ bothSidesUseSinglePartition df left right = false then do
      let plan ← collectLeftToPartitioned df join left right session.targetPartitions
      return (plan, true)
    else .ok (node (.hashJoin join) taskCount [left, right], false)
  | node (.nestedLoopJoin joinType) taskCount [left, right] =>
    if session.config.broadcastJoins = true ∧ joinType.isLeftBroadcastSafe = false ∧
        joinType ≠ .full ∧ bothSidesUseSinglePartition df left right = false then do
      match left with
      | node (.coalescePartitions none) _ [input] =>
        let _ ← (node (.nestedLoopJoin joinType) taskCount [left, right]).replaceChildren df
          [input, right]
        let swapped ← swapInputs df joinType input right
        return (swapped, true)
      | left =>
        let swapped ← swapInputs df joinType left right
        return (swapped, true)
    else .ok (node (.nestedLoopJoin joinType) taskCount [left, right], false)
  | plan => .ok (plan, false)

/-- How deep the rewrite reaches below a node: a converted join has repartitions below it, and a
swapped one is below a projection. -/
def normalizeWeight : NodeKind κ → ℕ
  | .hashJoin join => if join.mode = .collectLeft then 3 else 1
  | .nestedLoopJoin joinType => if joinType.isLeftBroadcastSafe then 1 else 3
  | _ => 1

def normalizeCollectJoins (session : Session κ) (df : DataFusion κ) (plan : Plan κ) :
    Result (Plan κ) :=
  transformDown df (normalizeCollectJoin session df) normalizeWeight plan

/-! ## `insert_broadcast_execs` -/

def canBroadcastLeftInput : NodeKind κ → Bool
  | .hashJoin join => join.mode = .collectLeft && join.joinType.isLeftBroadcastSafe
  | .nestedLoopJoin joinType => joinType.isLeftBroadcastSafe
  | .crossJoin => true
  | _ => false

variable {kind : NodeKind κ} {joinType : JoinType} {left right buildChild : Plan κ}

theorem canBroadcastLeftInput_join (h : canBroadcastLeftInput kind = true) :
    kind.isTransparent = true ∧ ∀ n, kind.Arity n → n = 2 := by
  cases kind with
  | hashJoin join | nestedLoopJoin joinType | crossJoin => exact ⟨rfl, fun _ harity => harity⟩
  | _ => cases h

def coalescedBroadcast (input : Plan κ) : Plan κ :=
  node (.coalescePartitions none) none [node (.broadcast 1) none [input]]

/-- The build side below a join that is going to be broadcast, or nothing if it already is. -/
def newBuildChild (buildChild : Plan κ) : Option (Plan κ) :=
  match buildChild with
  | node (.coalescePartitions none) _ [node (.broadcast _) _ _] => none
  | node (.coalescePartitions none) _ [input] => some (coalescedBroadcast input)
  | node (.broadcast n) taskCount inputs =>
    some (node (.coalescePartitions none) none [node (.broadcast n) taskCount inputs])
  | buildChild => some (coalescedBroadcast buildChild)

/-- The rewrite of `insert_broadcast_execs` at one node. -/
def insertBroadcastExec (df : DataFusion κ) (plan : Plan κ) : Result (Plan κ × Bool) :=
  if canBroadcastLeftInput plan.kind then
    match plan.children with
    | [] => .ok (plan, false)
    | buildChild :: children =>
      match newBuildChild buildChild with
      | none => .ok (plan, false)
      | some newBuildChild => do
        let plan ← plan.replaceChildren df (newBuildChild :: children)
        return (plan, true)
  else .ok (plan, false)

def broadcastWeight (kind : NodeKind κ) : ℕ :=
  if canBroadcastLeftInput kind then 3 else 1

def insertBroadcastExecs (session : Session κ) (df : DataFusion κ) (plan : Plan κ) :
    Result (Plan κ) :=
  if session.config.broadcastJoins then
    transformDown df (insertBroadcastExec df) broadcastWeight plan
  else .ok plan

/-! ## `insert_children_isolator_unions` -/

/-- The rewrite of `insert_children_isolator_unions` at one node. -/
def insertChildrenIsolatorUnion (df : DataFusion κ) (plan : Plan κ) : Result (Plan κ × Bool) :=
  match plan with
  | node .union _ children => do
    let union ← ChildrenIsolatorUnionExec.newSingleTask (childOps df) children
    return (node (.childrenIsolatorUnion union.toUnionTasks) none union.children, true)
  | plan => .ok (plan, false)

def insertChildrenIsolatorUnions (session : Session κ) (df : DataFusion κ) (plan : Plan κ) :
    Result (Plan κ) :=
  if session.config.childrenIsolatorUnions then
    transformDown df (insertChildrenIsolatorUnion df) (fun _ => 1) plan
  else .ok plan

/-- The root of a plan with several partitions is coalesced. -/
def coalesceRoot (df : DataFusion κ) (plan : Plan κ) : Plan κ :=
  if 1 < plan.partitionCount df then node (.coalescePartitions none) none [plan] else plan

/-! ## The recursion is deep enough -/

theorem height_withoutCoalesce_le (weight : NodeKind κ → ℕ) (plan : Plan κ) :
    plan.withoutCoalesce.height weight ≤ plan.height weight := by
  unfold withoutCoalesce
  split
  · simp only [height, heightAll]
    omega
  · exact le_rfl

variable {plan out next : Plan κ} {changed : Bool} {f : Plan κ → Result (Plan κ × Bool)} {depth : ℕ}

theorem withoutCoalesce_of_ne (h : ∀ recorded input,
    plan = node (.coalescePartitions none) recorded [input] → False) :
    plan.withoutCoalesce = plan := by
  unfold withoutCoalesce
  split
  · exact (h _ _ rfl).elim
  · rfl

theorem normalizeWeight_pos (kind : NodeKind κ) : 0 < normalizeWeight kind := by
  unfold normalizeWeight
  repeat' split
  all_goals omega

theorem JoinType.isLeftBroadcastSafe_swap (hsafe : joinType.isLeftBroadcastSafe = false)
    (hfull : joinType ≠ .full) :
    joinType.swap.isLeftBroadcastSafe = true := by
  cases joinType <;> first | rfl | exact absurd rfl hfull | cases hsafe

theorem collectLeftToPartitioned_ok {join : HashJoin} {targetPartitions : ℕ}
    (h : collectLeftToPartitioned df join left right targetPartitions = .ok out) :
    1 < right.partitionCount df ∧
      out = node (.hashJoin { join with mode := .partitioned }) none
        [node (.repartition (.hash join.leftKeys targetPartitions) false) none
            [left.withoutCoalesce],
          node (.repartition (.hash join.rightKeys targetPartitions) false) none [right]] := by
  obtain ⟨hcheck, h⟩ := ite_error_ok_iff.mp h
  refine ⟨by omega, ?_⟩
  obtain ⟨newLeft, hleft, h⟩ := bind_ok_iff.mp h
  obtain ⟨newRight, hright, h⟩ := bind_ok_iff.mp h
  obtain ⟨-, -, h⟩ := bind_ok_iff.mp h
  cases h
  rw [repartitionTryNew_ok hleft, repartitionTryNew_ok hright]
  rfl

theorem swapInputs_ok (h : swapInputs df joinType left right = .ok out) :
    out = node (.nestedLoopJoin joinType.swap) none [right, left] ∨
      ∃ op, df.reorderAfterSwap joinType = some op ∧ out = node (.other op) none
        [node (.nestedLoopJoin joinType.swap) none [right, left]] := by
  obtain ⟨-, -, h⟩ := bind_ok_iff.mp h
  split at h
  · cases h
    exact .inl rfl
  · rename_i op hop
    obtain ⟨-, -, h⟩ := bind_ok_iff.mp h
    cases h
    exact .inr ⟨op, hop, rfl⟩

/-- What `normalize_collect_joins` does at one node. -/
theorem normalizeCollectJoin_ok (h : normalizeCollectJoin session df plan = .ok (next, changed)) :
    (next = plan ∧ changed = false) ∨
      (∃ join recorded left right, plan = node (.hashJoin join) recorded [left, right] ∧
        join.mode = .collectLeft ∧ (1 < right.partitionCount df ∧
          next = node (.hashJoin { join with mode := .partitioned }) none
            [node (.repartition (.hash join.leftKeys session.targetPartitions) false) none
                [left.withoutCoalesce],
              node (.repartition (.hash join.rightKeys session.targetPartitions) false) none
                [right]]) ∧ changed = true) ∨
      (∃ joinType recorded left right,
        plan = node (.nestedLoopJoin joinType) recorded [left, right] ∧
        joinType.isLeftBroadcastSafe = false ∧ joinType ≠ .full ∧
        (next = node (.nestedLoopJoin joinType.swap) none [right, left.withoutCoalesce] ∨
          ∃ op, df.reorderAfterSwap joinType = some op ∧ next = node (.other op) none
            [node (.nestedLoopJoin joinType.swap) none [right, left.withoutCoalesce]]) ∧
        changed = true) := by
  unfold normalizeCollectJoin at h
  split at h
  · split at h
    · rename_i join recorded left right hjoin
      obtain ⟨converted, hconverted, h⟩ := bind_ok_iff.mp h
      cases h
      exact .inr (.inl ⟨join, recorded, left, right, rfl, hjoin.1,
        collectLeftToPartitioned_ok hconverted, rfl⟩)
    · cases h
      exact .inl ⟨rfl, rfl⟩
  · split at h
    · rename_i joinType recorded left right hjoin
      refine .inr (.inr ⟨joinType, recorded, left, right, rfl, hjoin.2.1, hjoin.2.2.1, ?_⟩)
      split at h
      · obtain ⟨-, -, h⟩ := bind_ok_iff.mp h
        obtain ⟨swapped, hswapped, h⟩ := bind_ok_iff.mp h
        cases h
        exact ⟨swapInputs_ok hswapped, rfl⟩
      · rename_i hnot
        obtain ⟨swapped, hswapped, h⟩ := bind_ok_iff.mp h
        cases h
        rw [withoutCoalesce_of_ne hnot]
        exact ⟨swapInputs_ok hswapped, rfl⟩
    · cases h
      exact .inl ⟨rfl, rfl⟩
  · cases h
    exact .inl ⟨rfl, rfl⟩

theorem normalizeCollectJoin_unchanged (plan next : Plan κ)
    (h : normalizeCollectJoin session df plan = .ok (next, false)) : next = plan := by
  simpa using normalizeCollectJoin_ok h

theorem normalizeCollectJoin_lighter (plan next : Plan κ) (changed : Bool)
    (h : normalizeCollectJoin session df plan = .ok (next, changed)) :
    ∀ child ∈ next.children, child.height normalizeWeight < plan.height normalizeWeight := by
  rcases normalizeCollectJoin_ok h with ⟨rfl, -⟩ |
    ⟨join, recorded, left, right, rfl, hmode, ⟨-, rfl⟩, -⟩ |
    ⟨joinType, recorded, left, right, rfl, hsafe, hfull, hnext, -⟩
  · exact fun child hchild => height_child_lt normalizeWeight_pos hchild
  · have hleft := height_withoutCoalesce_le normalizeWeight left
    have hweight : normalizeWeight (NodeKind.hashJoin join : NodeKind κ) = 3 := if_pos hmode
    have hrepartition : ∀ partitioning : Partitioning κ,
        normalizeWeight (.repartition partitioning false) = 1 := fun _ => rfl
    simp only [children_node, List.mem_cons, List.not_mem_nil, or_false, forall_eq_or_imp,
      forall_eq, height, heightAll, hrepartition]
    omega
  · have hleft := height_withoutCoalesce_le normalizeWeight left
    have hweight : normalizeWeight (NodeKind.nestedLoopJoin joinType : NodeKind κ) = 3 :=
      if_neg (by rw [hsafe]; exact Bool.false_ne_true)
    have hswapped : normalizeWeight (NodeKind.nestedLoopJoin joinType.swap : NodeKind κ) = 1 :=
      if_pos (JoinType.isLeftBroadcastSafe_swap hsafe hfull)
    rcases hnext with rfl | ⟨op, -, rfl⟩
    · simp only [children_node, List.mem_cons, List.not_mem_nil, or_false, forall_eq_or_imp,
        forall_eq, height, heightAll]
      omega
    · simp only [children_node, List.forall_mem_singleton, height, heightAll]
      omega

theorem newBuildChild_some {newChild : Plan κ} (h : newBuildChild buildChild = some newChild) :
    (∃ n recorded inputs, buildChild = node (.broadcast n) recorded inputs ∧
        newChild = node (.coalescePartitions none) none [buildChild]) ∨
      (newChild = coalescedBroadcast buildChild.withoutCoalesce) := by
  unfold newBuildChild at h
  split at h
  · cases h
  · cases h
    exact .inr rfl
  · rename_i n recorded inputs
    cases h
    exact .inl ⟨n, recorded, inputs, rfl, rfl⟩
  · rename_i hbroadcast hcoalesce hnot
    cases h
    rw [withoutCoalesce_of_ne hcoalesce]
    exact .inr rfl

/-- What `insert_broadcast_execs` does at one node. -/
theorem insertBroadcastExec_ok (h : insertBroadcastExec df plan = .ok (next, changed)) :
    (next = plan ∧ changed = false ∧ (canBroadcastLeftInput plan.kind = true →
        ∀ buildChild rest, plan.children = buildChild :: rest → newBuildChild buildChild = none)) ∨
      (∃ buildChild rest newChild, canBroadcastLeftInput plan.kind = true ∧
        plan.children = buildChild :: rest ∧ newBuildChild buildChild = some newChild ∧
        next = node plan.kind none (newChild :: rest) ∧ changed = true) := by
  unfold insertBroadcastExec at h
  split at h
  · rename_i hcan
    have htransparent := (canBroadcastLeftInput_join hcan).1
    split at h
    · rename_i hchildren
      cases h
      exact .inl ⟨rfl, rfl, by simp [hchildren]⟩
    · rename_i buildChild rest hchildren
      split at h
      · rename_i hnone
        cases h
        exact .inl ⟨rfl, rfl, by simp [hchildren, hnone]⟩
      · rename_i newChild hsome
        obtain ⟨rebuilt, hrebuilt, h⟩ := bind_ok_iff.mp h
        cases h
        exact .inr ⟨buildChild, rest, newChild, hcan, hchildren, hsome,
          replaceChildren_transparent htransparent hrebuilt, rfl⟩
  · rename_i hcan
    cases h
    exact .inl ⟨rfl, rfl, fun htrue => absurd htrue hcan⟩

theorem insertBroadcastExec_unchanged (plan next : Plan κ)
    (h : insertBroadcastExec df plan = .ok (next, false)) : next = plan := by
  simpa using (insertBroadcastExec_ok h).imp_left And.left

theorem insertBroadcastExec_keeps (hcan : canBroadcastLeftInput plan.kind = false)
    (h : insertBroadcastExec df plan = .ok (next, changed)) : next = plan := by
  simpa [hcan] using (insertBroadcastExec_ok h).imp_left And.left

theorem insertBroadcastExec_lighter (plan next : Plan κ) (changed : Bool)
    (h : insertBroadcastExec df plan = .ok (next, changed)) :
    ∀ child ∈ next.children, child.height broadcastWeight < plan.height broadcastWeight := by
  have hpos : ∀ kind : NodeKind κ, 0 < broadcastWeight kind := by
    intro kind
    unfold broadcastWeight
    split <;> omega
  intro child hchild
  rcases insertBroadcastExec_ok h with ⟨rfl, -, -⟩ |
    ⟨buildChild, rest, newChild, hcan, hchildren, hnew, rfl, -⟩
  · exact height_child_lt hpos hchild
  · obtain ⟨kind, recorded, children⟩ := plan
    subst hchildren
    have hweight : broadcastWeight kind = 3 := if_pos hcan
    rcases List.mem_cons.mp hchild with rfl | hmem
    · have hbuild := height_withoutCoalesce_le broadcastWeight buildChild
      have hcoalesce : broadcastWeight (NodeKind.coalescePartitions none : NodeKind κ) = 1 := rfl
      have hbroadcast : broadcastWeight (NodeKind.broadcast 1 : NodeKind κ) = 1 := rfl
      rcases newBuildChild_some hnew with ⟨n, recorded, inputs, -, rfl⟩ | rfl
      · simp only [height, heightAll]
        omega
      · simp only [coalescedBroadcast, height, heightAll]
        omega
    · exact height_child_lt hpos (List.mem_cons_of_mem _ hmem)

/-- What `insert_children_isolator_unions` does at one node. -/
theorem insertChildrenIsolatorUnion_ok
    (h : insertChildrenIsolatorUnion df plan = .ok (next, changed)) :
    (next = plan ∧ changed = false) ∨
      (∃ union, plan.kind = .union ∧
        next = node (.childrenIsolatorUnion union) none plan.children ∧ changed = true) := by
  unfold insertChildrenIsolatorUnion at h
  split at h
  · obtain ⟨union, hunion, h⟩ := bind_ok_iff.mp h
    cases h
    right
    refine ⟨union.toUnionTasks, rfl, ?_, rfl⟩
    rw [(ChildrenIsolatorUnionExec.fromChildrenAndAnnotations_placed hunion).2.1]
    rfl
  · cases h
    exact .inl ⟨rfl, rfl⟩

theorem insertChildrenIsolatorUnion_unchanged (plan next : Plan κ)
    (h : insertChildrenIsolatorUnion df plan = .ok (next, false)) : next = plan := by
  simpa using insertChildrenIsolatorUnion_ok h

theorem insertChildrenIsolatorUnion_keeps (hkind : plan.kind ≠ .union)
    (h : insertChildrenIsolatorUnion df plan = .ok (next, changed)) : next = plan := by
  simpa [hkind] using (insertChildrenIsolatorUnion_ok h).imp_left And.left

theorem insertChildrenIsolatorUnion_lighter (plan next : Plan κ) (changed : Bool)
    (h : insertChildrenIsolatorUnion df plan = .ok (next, changed)) :
    ∀ child ∈ next.children, child.height (fun _ => 1) < plan.height (fun _ => 1) := by
  intro child hchild
  have hmem : child ∈ plan.children := by
    rcases insertChildrenIsolatorUnion_ok h with ⟨rfl, -⟩ | ⟨union, -, rfl, -⟩ <;> exact hchild
  exact height_child_lt (fun _ => Nat.one_pos) hmem

/-- The three passes end on every plan: their recursions never come to depth zero, since their
results are the same whatever stands there and whatever depth is added. -/
theorem passes_depth (session : Session κ) (df : DataFusion κ) (plan : Plan κ)
    (bottom : Plan κ → Result (Plan κ × Bool)) (extra : ℕ) :
    transformDownOr bottom df (normalizeCollectJoin session df)
        (plan.height normalizeWeight + 1 + extra) plan =
      transformDownWithin df (normalizeCollectJoin session df)
        (plan.height normalizeWeight + 1) plan ∧
    transformDownOr bottom df (insertBroadcastExec df) (plan.height broadcastWeight + 1 + extra)
        plan =
      transformDownWithin df (insertBroadcastExec df) (plan.height broadcastWeight + 1) plan ∧
    transformDownOr bottom df (insertChildrenIsolatorUnion df)
        (plan.height (fun _ => 1) + 1 + extra) plan =
      transformDownWithin df (insertChildrenIsolatorUnion df) (plan.height (fun _ => 1) + 1) plan :=
  ⟨transformDownOr_eq bottom normalizeCollectJoin_lighter (by omega) (by omega),
    transformDownOr_eq bottom insertBroadcastExec_lighter (by omega) (by omega),
    transformDownOr_eq bottom insertChildrenIsolatorUnion_lighter (by omega) (by omega)⟩

/-! ## Plans of a single node stay so -/

theorem rebuilt_isLocal {newChildren : List (Plan κ)} (hnext : next.IsLocal)
    (hlength : newChildren.length = next.children.length)
    (h : next.replaceChildren df newChildren = .ok out ∨ out = next ∧ newChildren = next.children) :
    out.IsLocal ∧ out.children = newChildren ∧
      (next.kind.isTransparent = true → out.kind = next.kind) ∧
      (next.kind.isTransparent = false → out.kind.isTransparent = false) := by
  rcases h with hrebuilt | ⟨rfl, rfl⟩
  · rcases hnext.union_or_transparent with ⟨union, hunion⟩ | htransparent
    · obtain ⟨rebuilt, -, rfl⟩ := replaceChildren_union hunion hrebuilt
      refine ⟨⟨rfl, ?_⟩, rfl, ?_, fun _ => rfl⟩
      · have harity := hnext.arity
        rw [hunion, ← hlength] at harity
        exact harity
      · intro htrue
        rw [hunion] at htrue
        cases htrue
    · rw [replaceChildren_transparent htransparent hrebuilt]
      refine ⟨⟨hnext.not_boundary, ?_⟩, rfl, fun _ => rfl, ?_⟩
      · rw [children_node, hlength]
        exact hnext.arity
      · intro hfalse
        rw [htransparent] at hfalse
        cases hfalse
  · exact ⟨hnext, rfl, fun _ => rfl, fun h => h⟩

/-- A rewrite that makes plans of a single node from such plans does so down the whole plan. -/
theorem transformDownWithin_singleNode (hf : ∀ plan next, f plan = .ok (next, false) → next = plan)
    (hstep : ∀ plan next changed, plan.SingleNode → f plan = .ok (next, changed) →
      next.SingleNode) (hplan : plan.SingleNode)
    (h : transformDownWithin df f depth plan = .ok (out, changed)) : out.SingleNode := by
  induction depth generalizing plan out changed with
  | zero => cases h
  | succ depth ih =>
    obtain ⟨-, rest, next, flag, newChildren, hdepth, hnext, hchildren, hrebuilt⟩ :=
      transformDownWithin_ok hf h
    cases hdepth
    obtain ⟨hlocal, hall⟩ := everywhere_iff.mp (hstep plan next flag hplan hnext)
    obtain ⟨hout, hsame, -, -⟩ := rebuilt_isLocal hlocal hchildren.length_eq.symm hrebuilt
    refine everywhere_iff.mpr ⟨hout, ?_⟩
    rw [hsame]
    intro newChild hnew
    obtain ⟨child, hchild, flag, hrun⟩ := exists_of_forall₂ hchildren hnew
    exact ih (hall child hchild) hrun

theorem singleNode_withoutCoalesce (h : plan.SingleNode) :
    plan.withoutCoalesce.SingleNode := by
  unfold Plan.withoutCoalesce
  split
  · exact (singleNode_node.mp h).2 _ List.mem_cons_self
  · exact h

theorem normalizeCollectJoin_singleNode (plan next : Plan κ) (changed : Bool)
    (hplan : plan.SingleNode) (h : normalizeCollectJoin session df plan = .ok (next, changed)) :
    next.SingleNode := by
  rcases normalizeCollectJoin_ok h with ⟨rfl, -⟩ |
    ⟨join, recorded, left, right, rfl, -, ⟨-, rfl⟩, -⟩ |
    ⟨joinType, recorded, left, right, rfl, -, -, hnext, -⟩
  · exact hplan
  · have hchildren := (singleNode_node.mp hplan).2
    have hleft : left.SingleNode := hchildren left (by simp)
    have hright : right.SingleNode := hchildren right (by simp)
    exact singleNode_binary rfl (by rfl) (singleNode_unary rfl (by rfl)
      (singleNode_withoutCoalesce hleft) _)
      (singleNode_unary rfl (by rfl) hright _) _
  · have hchildren := (singleNode_node.mp hplan).2
    have hleft : left.SingleNode := hchildren left (by simp)
    have hright : right.SingleNode := hchildren right (by simp)
    have hswapped : (node (.nestedLoopJoin joinType.swap) none
        [right, left.withoutCoalesce]).SingleNode :=
      singleNode_binary rfl (by rfl) hright (singleNode_withoutCoalesce hleft) _
    rcases hnext with rfl | ⟨op, -, rfl⟩
    · exact hswapped
    · exact singleNode_unary rfl (by trivial) hswapped _

theorem normalizeCollectJoins_singleNode (hplan : plan.SingleNode)
    (h : normalizeCollectJoins session df plan = .ok out) : out.SingleNode := by
  obtain ⟨⟨result, changed⟩, hrun, h⟩ := bind_ok_iff.mp h
  cases h
  exact transformDownWithin_singleNode normalizeCollectJoin_unchanged
    normalizeCollectJoin_singleNode hplan hrun

theorem coalesceRoot_singleNode (hplan : plan.SingleNode) :
    (coalesceRoot df plan).SingleNode := by
  unfold coalesceRoot
  split
  · exact singleNode_unary rfl (by rfl) hplan _
  · exact hplan

/-! ## Broadcast build sides -/

/-- The build side is a fetch-less `CoalescePartitionsExec` over a `BroadcastExec`. -/
def Plan.BroadcastsBuild (plan : Plan κ) : Prop :=
  ∃ outer n inner inputs rest, plan.children =
    node (.coalescePartitions none) outer [node (.broadcast n) inner inputs] :: rest

/-- A node of a plan that is ready for injection: every join that may be broadcast is. -/
structure Plan.BuildReady (session : Session κ) (plan : Plan κ) : Prop extends plan.IsLocal where
  broadcasts : session.config.broadcastJoins = true → canBroadcastLeftInput plan.kind = true →
    plan.BroadcastsBuild

theorem transformDownWithin_kept (hf : ∀ plan next, f plan = .ok (next, false) → next = plan)
    {recorded : Option TaskCountAnnotation} {children : List (Plan κ)}
    (hkind : kind.isTransparent = true)
    (hsame : ∀ next changed, f (node kind recorded children) = .ok (next, changed) →
      next = node kind recorded children)
    (h : transformDownWithin df f depth (node kind recorded children) = .ok (out, changed)) :
    ∃ rest newRecorded newChildren, out = node kind newRecorded newChildren ∧
      (newRecorded = none ∨ newRecorded = recorded) ∧
      List.Forall₂ (fun child newChild => ∃ flag,
        transformDownWithin df f rest child = .ok (newChild, flag)) children newChildren := by
  obtain ⟨-, rest, next, flag, newChildren, -, hnext, hchildren, hrebuilt⟩ :=
    transformDownWithin_ok hf h
  rw [hsame next flag hnext] at hchildren hrebuilt
  rcases hrebuilt with hrebuilt | ⟨rfl, rfl⟩
  · exact ⟨rest, none, newChildren, replaceChildren_transparent (by exact hkind) hrebuilt,
      .inl rfl, hchildren⟩
  · exact ⟨rest, recorded, _, rfl, .inr rfl, hchildren⟩

/-- A rewrite that leaves coalesces and broadcasts alone. -/
structure KeepsBroadcasts (f : Plan κ → Result (Plan κ × Bool)) : Prop where
  unchanged : ∀ plan next, f plan = .ok (next, false) → next = plan
  coalesce : ∀ recorded children next changed,
    f (node (.coalescePartitions none) recorded children) = .ok (next, changed) →
    next = node (.coalescePartitions none) recorded children
  broadcast : ∀ n recorded children next changed,
    f (node (.broadcast n) recorded children) = .ok (next, changed) →
    next = node (.broadcast n) recorded children

/-- It keeps them on top of each other. -/
theorem KeepsBroadcasts.transformDownWithin (hf : KeepsBroadcasts f) {n : ℕ}
    {outer inner : Option TaskCountAnnotation} {inputs : List (Plan κ)}
    (h : transformDownWithin df f depth
      (node (.coalescePartitions none) outer [node (.broadcast n) inner inputs])
        = .ok (out, changed)) :
    ∃ newOuter newInner newInputs, out = node (.coalescePartitions none) newOuter
      [node (.broadcast n) newInner newInputs] := by
  obtain ⟨rest, newOuter, newChildren, rfl, -, hchildren⟩ :=
    transformDownWithin_kept hf.unchanged rfl (hf.coalesce outer _) h
  obtain ⟨newChild, rfl, flag, hchild⟩ := forall₂_singleton_left.mp hchildren
  obtain ⟨-, newInner, newInputs, rfl, -, -⟩ :=
    transformDownWithin_kept hf.unchanged rfl (hf.broadcast n inner _) hchild
  exact ⟨newOuter, newInner, newInputs, rfl⟩

theorem newBuildChild_none (h : newBuildChild buildChild = none) :
    ∃ outer n inner inputs, buildChild =
      node (.coalescePartitions none) outer [node (.broadcast n) inner inputs] := by
  unfold newBuildChild at h
  split at h
  · exact ⟨_, _, _, _, rfl⟩
  all_goals cases h

/-- A rewrite whose every step leaves a broadcast build side leaves one everywhere. -/
theorem transformDownWithin_buildReady {R : Plan κ → Prop} (hf : KeepsBroadcasts f)
    (hstep : ∀ plan next changed, R plan → f plan = .ok (next, changed) →
      next.BuildReady session ∧ ∀ child ∈ next.children, R child) (hplan : R plan)
    (h : transformDownWithin df f depth plan = .ok (out, changed)) :
    out.Everywhere (BuildReady session) := by
  induction depth generalizing plan out changed with
  | zero => cases h
  | succ depth ih =>
    obtain ⟨-, rest, next, flag, newChildren, hdepth, hnext, hchildren, hrebuilt⟩ :=
      transformDownWithin_ok hf.unchanged h
    cases hdepth
    obtain ⟨hready, hall⟩ := hstep plan next flag hplan hnext
    obtain ⟨hlocal, hsame, hkind, hunion⟩ :=
      rebuilt_isLocal hready.toIsLocal hchildren.length_eq.symm hrebuilt
    refine everywhere_iff.mpr ⟨⟨hlocal, ?_⟩, ?_⟩
    · intro hjoins hcan
      have htransparent : next.kind.isTransparent = true := by
        by_contra hnot
        have hout := hunion (Bool.eq_false_iff.mpr hnot)
        rw [(canBroadcastLeftInput_join hcan).1] at hout
        cases hout
      rw [hkind htransparent] at hcan
      obtain ⟨outer, n, inner, inputs, others, hshape⟩ := hready.broadcasts hjoins hcan
      rw [hshape, List.forall₂_cons_left_iff] at hchildren
      obtain ⟨newBuild, newOthers, ⟨flag, hbuild⟩, -, hcons⟩ := hchildren
      obtain ⟨newOuter, newInner, newInputs, rfl⟩ :=
        hf.transformDownWithin hbuild
      exact ⟨newOuter, n, newInner, newInputs, newOthers, by rw [hsame, hcons]⟩
    · rw [hsame]
      intro newChild hnew
      obtain ⟨child, hchild, flag, hrun⟩ := exists_of_forall₂ hchildren hnew
      exact ih (hall child hchild) hrun

theorem insertBroadcastExec_buildReady (plan next : Plan κ) (changed : Bool)
    (hplan : plan.SingleNode) (h : insertBroadcastExec df plan = .ok (next, changed)) :
    next.BuildReady session ∧ ∀ child ∈ next.children, child.SingleNode := by
  obtain ⟨kind, recorded, children⟩ := plan
  obtain ⟨⟨hkind, harity⟩, hchildren⟩ := singleNode_node.mp hplan
  rcases insertBroadcastExec_ok h with ⟨rfl, -, hnone⟩ |
    ⟨buildChild, rest, newChild, hcan, hcons, hnew, rfl, -⟩
  · refine ⟨⟨⟨hkind, harity⟩, ?_⟩, hchildren⟩
    intro _ hcan
    have hne : children ≠ [] := by
      intro hnil
      have htwo := (canBroadcastLeftInput_join hcan).2 _ harity
      rw [hnil] at htwo
      cases htwo
    obtain ⟨buildChild, rest, rfl⟩ := List.exists_cons_of_ne_nil hne
    obtain ⟨outer, n, inner, inputs, rfl⟩ := newBuildChild_none (hnone hcan buildChild rest rfl)
    exact ⟨outer, n, inner, inputs, rest, rfl⟩
  · subst hcons
    have hbuild : buildChild.SingleNode := hchildren _ List.mem_cons_self
    have hshape : newChild.SingleNode ∧ ∃ outer n inner inputs, newChild =
        node (.coalescePartitions none) outer [node (.broadcast n) inner inputs] := by
      rcases newBuildChild_some hnew with ⟨n, inner, inputs, rfl, rfl⟩ | rfl
      · exact ⟨singleNode_unary rfl (by rfl) hbuild _, none, n, inner, inputs, rfl⟩
      · exact ⟨singleNode_unary rfl (by rfl) (singleNode_unary rfl (by rfl)
          (singleNode_withoutCoalesce hbuild) _) _, none, 1, none, _, rfl⟩
    obtain ⟨hnewChild, outer, n, inner, inputs, rfl⟩ := hshape
    refine ⟨⟨⟨hkind, harity⟩, ?_⟩, ?_⟩
    · intro _ _
      exact ⟨outer, n, inner, inputs, rest, rfl⟩
    · exact List.forall_mem_cons.mpr ⟨hnewChild, (List.forall_mem_cons.mp hchildren).2⟩

theorem insertBroadcastExecs_buildReady (hplan : plan.SingleNode)
    (h : insertBroadcastExecs session df plan = .ok out) :
    out.Everywhere (BuildReady session) := by
  unfold insertBroadcastExecs at h
  split at h
  · obtain ⟨⟨result, changed⟩, hrun, h⟩ := bind_ok_iff.mp h
    cases h
    refine transformDownWithin_buildReady ⟨insertBroadcastExec_unchanged, ?_, ?_⟩
      insertBroadcastExec_buildReady hplan hrun
    · intro recorded children next changed hnext
      exact insertBroadcastExec_keeps (by rfl) hnext
    · intro n recorded children next changed hnext
      exact insertBroadcastExec_keeps (by rfl) hnext
  · rename_i hjoins
    cases h
    exact hplan.imp fun plan hlocal => ⟨hlocal, fun htrue => absurd htrue hjoins⟩

/-- After the pass, no join is left to broadcast, so a second one changes nothing. -/
theorem insert_broadcast_idempotent (hplan : plan.SingleNode)
    (h : insertBroadcastExecs session df plan = .ok out) :
    insertBroadcastExecs session df out = .ok out := by
  have hready := insertBroadcastExecs_buildReady hplan h
  unfold insertBroadcastExecs
  split
  · rename_i hjoins
    have hdone : out.Everywhere fun plan => insertBroadcastExec df plan = .ok (plan, false) := by
      refine hready.imp fun plan hnode => ?_
      unfold insertBroadcastExec
      split
      · rename_i hcan
        obtain ⟨outer, n, inner, inputs, rest, hchildren⟩ := hnode.broadcasts hjoins hcan
        rw [hchildren]
        rfl
      · rfl
    rw [transformDown, transformDownWithin_of_everywhere insertBroadcastExec_lighter hdone
      (Nat.lt_succ_self _)]
    rfl
  · rfl

theorem insert_broadcast_idempotent_of_crossJoin :
    let scan : Plan ℕ := node (.other 1) none []
    let once := node .crossJoin none [coalescedBroadcast scan, scan]
    insertBroadcastExecs (.ofEstimates {} fun _ => 3) (.ofLeaves fun _ => 2) once = .ok once := by
  intro scan once
  have hplan : (node .crossJoin none [scan, scan]).SingleNode :=
    singleNode_binary rfl (by rfl) (singleNode_leaf 1 none) (singleNode_leaf 1 none) none
  exact insert_broadcast_idempotent hplan rfl

/-- Replacing a union keeps the joins around it. -/
theorem insertChildrenIsolatorUnion_buildReady (plan next : Plan κ) (changed : Bool)
    (hplan : plan.Everywhere (BuildReady session))
    (h : insertChildrenIsolatorUnion df plan = .ok (next, changed)) :
    next.BuildReady session ∧ ∀ child ∈ next.children, child.Everywhere (BuildReady session) := by
  obtain ⟨hnode, hchildren⟩ := everywhere_iff.mp hplan
  rcases insertChildrenIsolatorUnion_ok h with ⟨rfl, -⟩ | ⟨union, hkind, rfl, -⟩
  · exact ⟨hnode, hchildren⟩
  · refine ⟨⟨⟨rfl, ?_⟩, ?_⟩, hchildren⟩
    · have harity := hnode.arity
      rw [hkind] at harity
      exact harity
    · intro _ hcan
      cases hcan

theorem insertChildrenIsolatorUnions_buildReady (hplan : plan.Everywhere (BuildReady session))
    (h : insertChildrenIsolatorUnions session df plan = .ok out) :
    out.Everywhere (BuildReady session) := by
  unfold insertChildrenIsolatorUnions at h
  split at h
  · obtain ⟨⟨result, changed⟩, hrun, h⟩ := bind_ok_iff.mp h
    cases h
    refine transformDownWithin_buildReady ⟨insertChildrenIsolatorUnion_unchanged, ?_, ?_⟩
      insertChildrenIsolatorUnion_buildReady hplan hrun
    · intro recorded children next changed hnext
      exact insertChildrenIsolatorUnion_keeps (by rintro ⟨⟩) hnext
    · intro n recorded children next changed hnext
      exact insertChildrenIsolatorUnion_keeps (by rintro ⟨⟩) hnext
  · cases h
    exact hplan

end DatafusionDistributed
