import DatafusionDistributed.Recursion

/-!
# `push_fetch_into_network_coalesce`

A node with a fetch that stands directly above a `NetworkCoalesceExec` passes its fetch on to the
plan of the stage below, so that the producer tasks can stop early. The pass takes the fetch of any
node for a number of rows that the node needs of its input.
-/

namespace DatafusionDistributed

open Library Plan

variable {κ : Type}

/-- The nodes without a constructor of their own that the pass looks at, or that have a fetch. -/
inductive FetchNode where
  | globalLimit (skip : ℕ) (fetch : Option ℕ)
  | localLimit (fetch : ℕ)
  | sort (ordering : List PhysicalExpr) (fetch : Option ℕ)
  | projection
  | unknown (fetch : Option ℕ)
  deriving DecidableEq, Repr

/-- `fetch` of these nodes. -/
def FetchNode.fetch : FetchNode → Option ℕ
  | globalLimit _ fetch => fetch
  | localLimit fetch => some fetch
  | sort _ fetch => fetch
  | projection => none
  | unknown fetch => fetch

/-- The nodes by their number: what they are, the number of a `LocalLimitExec`, and that of the
node that `with_fetch` returns, if it returns one. -/
structure FetchNodes where
  downcast : ℕ → FetchNode
  localLimit : ℕ → ℕ
  withFetch : ℕ → ℕ → Option ℕ
  downcast_localLimit : ∀ fetch, downcast (localLimit fetch) = .localLimit fetch

/-- `ExecutionPlan::fetch`. -/
def NodeKind.fetch (nodes : FetchNodes) : NodeKind κ → Option ℕ
  | .coalescePartitions fetch => fetch
  | .sortPreservingMerge _ fetch => fetch
  | .other op => (nodes.downcast op).fetch
  | _ => none

/-- `ExecutionPlan::with_fetch`. -/
def NodeKind.withFetch (nodes : FetchNodes) (fetch : ℕ) : NodeKind κ → Option (NodeKind κ)
  | .coalescePartitions _ => some (.coalescePartitions (some fetch))
  | .sortPreservingMerge ordering _ => some (.sortPreservingMerge ordering (some fetch))
  | .other op => (nodes.withFetch op fetch).map .other
  | _ => none

/-- `usize::checked_add`. -/
def checkedAdd (a b : ℕ) : Option ℕ :=
  if a + b < 2 ^ 64 then some (a + b) else none

def NodeKind.fetchRequiredFromChild (nodes : FetchNodes) (kind : NodeKind κ) : Option ℕ :=
  match kind with
  | .other op =>
    match nodes.downcast op with
    | .globalLimit skip fetch => fetch.bind fun fetch => checkedAdd fetch skip
    | fetchNode => fetchNode.fetch
  | kind => kind.fetch nodes

namespace Plan

/-- The plan with a fetch, in a `LocalLimitExec` if its root does not take one. -/
def withFetchOrLimit (nodes : FetchNodes) (fetch : ℕ) (plan : Plan κ) : Plan κ :=
  match plan.kind.withFetch nodes fetch with
  | some kind => node kind none plan.children
  | none => node (.other (nodes.localLimit fetch)) none [plan]

/-- The plan has a fetch that is at most the given one. -/
def isFetched (nodes : FetchNodes) (fetch : ℕ) (plan : Plan κ) : Bool :=
  (plan.kind.fetch nodes).any (· ≤ fetch)

/-- The input of a `ProjectionExec`. -/
def projectionInput (nodes : FetchNodes) : Plan κ → Option (Plan κ)
  | node (.other op) _ [input] => if nodes.downcast op = .projection then some input else none
  | _ => none

def applyFetchThroughProjection (nodes : FetchNodes) (df : DataFusion κ) (plan : Plan κ)
    (fetch : ℕ) : Result (Plan κ) :=
  match plan.projectionInput nodes with
  | some input =>
    if input.isFetched nodes fetch then .ok plan
    else plan.replaceChildren df [input.withFetchOrLimit nodes fetch]
  | none =>
    if plan.isFetched nodes fetch then .ok plan else .ok (plan.withFetchOrLimit nodes fetch)

def isNetworkCoalesce : Plan κ → Bool
  | node (.networkCoalesce _) _ _ => true
  | _ => false

/-- `with_fetch_on_input_stage`. Only a local stage has a plan. -/
def withFetchOnInputStage (nodes : FetchNodes) (df : DataFusion κ) (fetch : ℕ) :
    Plan κ → Result (Plan κ)
  | node (.networkCoalesce exec) recorded [staged] => do
    let staged ← staged.applyFetchThroughProjection nodes df fetch
    return node (.networkCoalesce exec) recorded [staged]
  | plan => .ok plan

end Plan

/-- The rewrite of one child: `with_fetch_on_input_stage` for a `NetworkCoalesceExec`. -/
def pushFetchIntoChild (nodes : FetchNodes) (df : DataFusion κ) (fetch : ℕ) (child : Plan κ) :
    Result (Plan κ) :=
  if child.isNetworkCoalesce then child.withFetchOnInputStage nodes df fetch else .ok child

/-- The rewrite of `push_fetch_into_network_coalesce` at one node. -/
def pushFetch (nodes : FetchNodes) (df : DataFusion κ) (plan : Plan κ) : Result (Plan κ × Bool) :=
  match plan.kind.fetchRequiredFromChild nodes with
  | none => .ok (plan, false)
  | some fetch => do
    let newChildren ← plan.children.mapM (pushFetchIntoChild nodes df fetch)
    if plan.children.any isNetworkCoalesce then do
      let plan ← plan.replaceChildren df newChildren
      return (plan, true)
    else .ok (plan, false)

/-- How deep the rewrite reaches below a node: a limit may be put below a `NetworkCoalesceExec`. -/
def pushFetchWeight : NodeKind κ → ℕ
  | .networkCoalesce _ => 2
  | _ => 1

variable {nodes : FetchNodes} {df : DataFusion κ} {fetch : ℕ} {plan out : Plan κ}

/-- The plan of a stage has the fetch already, or a smaller one. -/
def Plan.hasFetch (nodes : FetchNodes) (fetch : ℕ) (staged : Plan κ) : Bool :=
  ((staged.projectionInput nodes).getD staged).isFetched nodes fetch

/-- A stage whose plan was given a fetch: its root or the input of its projection has it now. -/
inductive StageFetched (nodes : FetchNodes) (fetch : ℕ) : Plan κ → Plan κ → Prop
  | given {plan : Plan κ} : plan.isFetched nodes fetch = false →
    StageFetched nodes fetch plan (plan.withFetchOrLimit nodes fetch)
  | throughProjection {op : ℕ} {recorded newRecorded : Option TaskCountAnnotation}
      {input newInput : Plan κ} :
    nodes.downcast op = .projection → StageFetched nodes fetch input newInput →
    StageFetched nodes fetch (node (.other op) recorded [input])
      (node (.other op) newRecorded [newInput])

theorem projectionInput_eq_some {input : Plan κ} (h : plan.projectionInput nodes = some input) :
    ∃ op recorded, plan = node (.other op) recorded [input] ∧
      nodes.downcast op = .projection := by
  unfold projectionInput at h
  split at h
  · split at h
    · rename_i op recorded input' hop
      cases h
      exact ⟨op, recorded, rfl, hop⟩
    · cases h
  · cases h

theorem applyFetchThroughProjection_ok
    (h : plan.applyFetchThroughProjection nodes df fetch = .ok out) :
    (plan.hasFetch nodes fetch = true ∧ out = plan) ∨
      (plan.hasFetch nodes fetch = false ∧ StageFetched nodes fetch plan out) := by
  unfold applyFetchThroughProjection at h
  unfold hasFetch
  cases hinput : plan.projectionInput nodes with
  | some input =>
    obtain ⟨op, recorded, rfl, hop⟩ := projectionInput_eq_some hinput
    simp only [hinput] at h
    cases hfetched : input.isFetched nodes fetch with
    | true =>
      rw [if_pos hfetched] at h
      cases h
      exact .inl ⟨hfetched, rfl⟩
    | false =>
      rw [hfetched, if_neg Bool.false_ne_true] at h
      rw [replaceChildren_transparent rfl h]
      exact .inr ⟨hfetched, .throughProjection hop (.given hfetched)⟩
  | none =>
    simp only [hinput] at h
    cases hfetched : plan.isFetched nodes fetch with
    | true =>
      rw [if_pos hfetched] at h
      cases h
      exact .inl ⟨hfetched, rfl⟩
    | false =>
      rw [hfetched, if_neg Bool.false_ne_true] at h
      cases h
      exact .inr ⟨hfetched, .given hfetched⟩

/-- A child after the rewrite: a `NetworkCoalesceExec` has a fetch in its stage. -/
inductive ChildFetched (nodes : FetchNodes) (fetch : ℕ) : Plan κ → Plan κ → Prop
  | same {child : Plan κ} : ChildFetched nodes fetch child child
  | coalesce {exec : NetworkCoalesceExec κ} {recorded : Option TaskCountAnnotation}
      {staged newStaged : Plan κ} : staged.hasFetch nodes fetch = false →
    StageFetched nodes fetch staged newStaged →
    ChildFetched nodes fetch (node (.networkCoalesce exec) recorded [staged])
      (node (.networkCoalesce exec) recorded [newStaged])

theorem pushFetchIntoChild_ok {child : Plan κ}
    (h : pushFetchIntoChild nodes df fetch child = .ok out) :
    ChildFetched nodes fetch child out := by
  unfold pushFetchIntoChild withFetchOnInputStage at h
  split at h
  · split at h
    · obtain ⟨staged, hstaged, h⟩ := bind_ok_iff.mp h
      cases h
      rcases applyFetchThroughProjection_ok hstaged with ⟨-, rfl⟩ | ⟨hnew, hfetched⟩
      · exact .same
      · exact .coalesce hnew hfetched
    · cases h
      exact .same
  · cases h
    exact .same

theorem isTransparent_of_fetchRequired {kind : NodeKind κ}
    (h : kind.fetchRequiredFromChild nodes = some fetch) : kind.isTransparent = true := by
  cases kind with
  | other op | coalescePartitions fetch | sortPreservingMerge ordering fetch => rfl
  | _ => cases h

/-- The rewrite of one node: nothing, or its fetch is passed on to its children. -/
theorem pushFetch_ok {next : Plan κ} {changed : Bool}
    (h : pushFetch nodes df plan = .ok (next, changed)) :
    (next = plan ∧ changed = false) ∨
      ∃ kind recorded children fetch newChildren, plan = node kind recorded children ∧
        kind.fetchRequiredFromChild nodes = some fetch ∧ children.any isNetworkCoalesce = true ∧
        List.Forall₂ (ChildFetched nodes fetch) children newChildren ∧
        next = node kind none newChildren ∧ changed = true := by
  unfold pushFetch at h
  split at h
  · cases h
    exact .inl ⟨rfl, rfl⟩
  · rename_i fetch hfetch
    obtain ⟨newChildren, hchildren, h⟩ := bind_ok_iff.mp h
    split at h
    · rename_i hany
      obtain ⟨replaced, hreplaced, h⟩ := bind_ok_iff.mp h
      cases h
      obtain ⟨kind, recorded, children⟩ := plan
      refine .inr ⟨kind, recorded, children, fetch, newChildren, rfl, hfetch, hany, ?_, ?_, rfl⟩
      · exact (mapM_ok_iff.mp hchildren).imp fun _ _ hchild => pushFetchIntoChild_ok hchild
      · exact replaceChildren_transparent (isTransparent_of_fetchRequired hfetch) hreplaced
    · cases h
      exact .inl ⟨rfl, rfl⟩

/-- The measure of the recursion. By the time it comes to a `NetworkCoalesceExec`, a limit was put
below it if there is to be one. -/
def pushFetchDepth : Plan κ → ℕ
  | node (.networkCoalesce _) _ children => 1 + heightAll pushFetchWeight children
  | plan => plan.height pushFetchWeight

theorem heightAll_singleton (weight : NodeKind κ → ℕ) (child : Plan κ) :
    heightAll weight [child] = child.height weight := by
  rw [heightAll, heightAll, Nat.max_zero]

theorem pushFetchDepth_le_height (plan : Plan κ) :
    pushFetchDepth plan ≤ plan.height pushFetchWeight := by
  unfold pushFetchDepth
  split
  · rw [height, pushFetchWeight]
    omega
  · exact le_refl _

theorem heightAll_lt_pushFetchDepth (plan : Plan κ) :
    heightAll pushFetchWeight plan.children < pushFetchDepth plan := by
  unfold pushFetchDepth
  split
  · rw [children_node]
    omega
  · obtain ⟨kind, recorded, children⟩ := plan
    rw [height, children_node]
    have hpos : 0 < pushFetchWeight kind := by
      unfold pushFetchWeight
      split <;> omega
    omega

theorem pushFetchWeight_withFetch {kind newKind : NodeKind κ}
    (h : kind.withFetch nodes fetch = some newKind) :
    pushFetchWeight newKind = pushFetchWeight kind := by
  cases kind with
  | coalescePartitions old | sortPreservingMerge ordering old =>
    cases h
    rfl
  | other op =>
    obtain ⟨newOp, -, rfl⟩ := Option.map_eq_some_iff.mp h
    rfl
  | _ => cases h

/-- A stage grows by a limit at most. -/
theorem StageFetched.height_le (h : StageFetched nodes fetch plan out) :
    out.height pushFetchWeight ≤ plan.height pushFetchWeight + 1 := by
  induction h with
  | @given plan _ =>
    unfold withFetchOrLimit
    split
    · rename_i kind hkind
      obtain ⟨oldKind, recorded, children⟩ := plan
      rw [height, height, pushFetchWeight_withFetch hkind, children_node, kind_node]
      omega
    · rw [height, heightAll_singleton]
      exact (Nat.add_comm _ _).le
  | throughProjection _ _ ih =>
    rw [height, height, heightAll_singleton, heightAll_singleton]
    omega

theorem ChildFetched.depth_le {child : Plan κ} (h : ChildFetched nodes fetch child out) :
    pushFetchDepth out ≤ child.height pushFetchWeight := by
  cases h with
  | same => exact pushFetchDepth_le_height _
  | coalesce _ hstaged =>
    have hle := hstaged.height_le
    rw [pushFetchDepth, heightAll_singleton, height, heightAll_singleton, pushFetchWeight]
    omega

theorem pushFetch_lighter (plan next : Plan κ) (changed : Bool)
    (h : pushFetch nodes df plan = .ok (next, changed)) :
    ∀ child ∈ next.children, pushFetchDepth child < pushFetchDepth plan := by
  intro child hchild
  have hplan := heightAll_lt_pushFetchDepth plan
  rcases pushFetch_ok h with ⟨rfl, -⟩ |
    ⟨kind, recorded, children, fetch, newChildren, rfl, -, -, hchildren, rfl, -⟩
  · exact lt_of_le_of_lt ((pushFetchDepth_le_height child).trans
      (height_le_heightAll pushFetchWeight hchild)) hplan
  · obtain ⟨old, hold, hfetched⟩ := exists_of_forall₂ hchildren hchild
    exact lt_of_le_of_lt (hfetched.depth_le.trans (height_le_heightAll pushFetchWeight hold)) hplan

/-- The pass ends on every plan, though it follows the limits that it puts in: its recursion never
comes to depth zero, since its result is the same whatever stands there and whatever depth is
added. -/
theorem pushFetch_depth (nodes : FetchNodes) (df : DataFusion κ) (plan : Plan κ)
    (bottom : Plan κ → Result (Plan κ × Bool)) (extra : ℕ) :
    transformDownOr bottom df (pushFetch nodes df) (plan.height pushFetchWeight + 1 + extra) plan =
      transformDownWithin df (pushFetch nodes df) (plan.height pushFetchWeight + 1) plan := by
  have hle := pushFetchDepth_le_height plan
  exact transformDownOr_eq bottom pushFetch_lighter (by omega) (by omega)

end DatafusionDistributed
