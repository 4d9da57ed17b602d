import Mathlib.Data.List.Chain
import DatafusionDistributed.Library.HashMap
import DatafusionDistributed.Plan

/-!
# Finding dynamic filters in plans

Which nodes of a plan produce a dynamic filter, which ones consume it, and which network boundaries
hold one as an anchor. A boundary whose stage has been sent to workers has no children; its anchors
stand for the consumers that were moved away with the stage.
-/

namespace DatafusionDistributed

open Library

/-- A physical expression, as far as dynamic filters go: the children of a dynamic filter are the
expressions it is over. -/
inductive FilterExpr where
  | dynamicFilter (id : Option ℕ) (children : List FilterExpr)
  | other (id : Option ℕ) (children : List FilterExpr)

namespace FilterExpr

def expressionId : FilterExpr → Option ℕ
  | dynamicFilter id _ | other id _ => id

def isDynamicFilter : FilterExpr → Bool
  | dynamicFilter _ _ => true
  | other _ _ => false

mutual

/-- The dynamic filters that `apply` visits. -/
def dynamicFilters : FilterExpr → List FilterExpr
  | dynamicFilter id children => dynamicFilter id children :: dynamicFiltersAll children
  | other _ children => dynamicFiltersAll children

def dynamicFiltersAll : List FilterExpr → List FilterExpr
  | [] => []
  | expr :: exprs => dynamicFilters expr ++ dynamicFiltersAll exprs

end

def Flat (expr : FilterExpr) : Prop :=
  ∀ filter ∈ expr.dynamicFilters, filter.dynamicFilters = [filter]

end FilterExpr

/-- The nodes that decide how the filters they produce are merged. -/
inductive FilterNodeKind where
  | hashJoin (mode : PartitionMode)
  | sort
  | aggregate
  | other
  deriving DecidableEq, Repr

/-- What is read of a plan node: the expressions it produces dynamically, and those it evaluates. -/
structure FilterNode (S : Type) where
  kind : FilterNodeKind
  name : String
  schema : S
  produced : List FilterExpr
  expressions : List FilterExpr

/-- A plan of one stage. The plan of a local stage below a boundary is its child. -/
inductive FilterPlan (S : Type) where
  | node (info : FilterNode S) (children : List (FilterPlan S))
  | localBoundary (schema : S) (input : FilterPlan S)
  | remoteBoundary (schema : S) (anchors : List FilterExpr)

namespace FilterPlan

variable {S : Type}

def schema : FilterPlan S → S
  | node info _ => info.schema
  | localBoundary schema _ | remoteBoundary schema _ => schema

/-- `dynamic_expressions_produced`; boundaries produce none. -/
def dynamicExpressionsProduced : FilterPlan S → List FilterExpr
  | node info _ => info.produced
  | localBoundary _ _ | remoteBoundary _ _ => []

/-- The roots that `apply_expressions` visits; those of a boundary are the anchors of its stage,
and a local stage has none. -/
def expressionRoots : FilterPlan S → List FilterExpr
  | node info _ => info.expressions
  | localBoundary _ _ => []
  | remoteBoundary _ anchors => anchors

def isNetworkBoundary : FilterPlan S → Bool
  | node _ _ => false
  | localBoundary _ _ | remoteBoundary _ _ => true

def name : FilterPlan S → String
  | node info _ => info.name
  | localBoundary _ _ | remoteBoundary _ _ => "NetworkBoundary"

mutual

/-- The nodes in the order in which `apply` visits them. -/
def preorder : FilterPlan S → List (FilterPlan S)
  | node info children => node info children :: preorderAll children
  | localBoundary schema input => localBoundary schema input :: preorder input
  | remoteBoundary schema anchors => [remoteBoundary schema anchors]

def preorderAll : List (FilterPlan S) → List (FilterPlan S)
  | [] => []
  | plan :: plans => preorder plan ++ preorderAll plans

end

theorem preorderAll_eq_flatMap (plans : List (FilterPlan S)) :
    preorderAll plans = plans.flatMap preorder := by
  induction plans with
  | nil => rfl
  | cons plan plans ih => rw [preorderAll, List.flatMap_cons, ih]

def dynamicFilterProducerSchema : FilterPlan S → Result S
  | node info children =>
    match info.kind, children with
    | .hashJoin _, [_, right] => .ok right.schema
    | _, [input] => .ok input.schema
    | _, [] => .ok info.schema
    | _, _ =>
      .error (.internal s!"cannot determine dynamic filter producer schema for {info.name}")
  | localBoundary _ input => .ok input.schema
  | remoteBoundary schema _ => .ok schema

/-- The identifier that a dynamic filter needs. -/
def requireId (message : String) (expr : FilterExpr) : Result (ℕ × FilterExpr) :=
  match expr.expressionId with
  | some id => .ok (id, expr)
  | none => .error (.internal message)

variable {expr : FilterExpr} {found : List (ℕ × FilterExpr)} {id : ℕ}

theorem requireId_ok {message : String} {found : ℕ × FilterExpr} :
    requireId message expr = .ok found ↔ expr.expressionId = some found.1 ∧ found.2 = expr := by
  obtain ⟨id, other⟩ := found
  cases h : expr.expressionId <;> simp [requireId, h, eq_comm]

def missingId : String :=
  "DynamicFilterPhysicalExpr did not have an expression ID"

/-- The consumers and the anchors found at one node. -/
structure FoundFilters where
  consumers : List (ℕ × FilterExpr)
  anchors : List (ℕ × FilterExpr)

/-- What `discover_dynamic_filter_consumers` does at a node. -/
def consumersAt (plan : FilterPlan S) : Result FoundFilters := do
  let produced ← plan.dynamicExpressionsProduced.mapM (requireId
    s!"{plan.name}::dynamic_expressions_produced returned an expression without an expression ID")
  let found ← (plan.expressionRoots.flatMap FilterExpr.dynamicFilters).mapM (requireId missingId)
  if plan.isNetworkBoundary then
    return { consumers := [], anchors := found }
  return {
    consumers := found.filter fun entry => !(produced.map Prod.fst).contains entry.1
    anchors := [] }

/-- Keeps the first expression of every identifier, in the order of the identifiers. -/
def byId (found : List (ℕ × FilterExpr)) : List (ℕ × FilterExpr) :=
  (HashMap.collectFirst found).sortedEntries (· ≤ ·)

def discoverDynamicFilterConsumers (plan : FilterPlan S) : Result FoundFilters := do
  let found ← plan.preorder.mapM consumersAt
  return {
    consumers := byId (found.flatMap FoundFilters.consumers)
    anchors := byId (found.flatMap FoundFilters.anchors) }

/-- `DiscoveredDynamicFilterProducer`. -/
structure FoundProducer (S : Type) where
  expression : FilterExpr
  inputSchema : S

/-- What `discover_dynamic_filter_producers` does with one expression that a node produces. -/
def producerOf (plan : FilterPlan S) (expr : FilterExpr) : Result (ℕ × FoundProducer S) := do
  let (id, expression) ← requireId missingId expr
  let inputSchema ← plan.dynamicFilterProducerSchema
  return (id, { expression, inputSchema })

def producersAt (plan : FilterPlan S) : Result (List (ℕ × FoundProducer S)) :=
  (plan.dynamicExpressionsProduced.filter FilterExpr.isDynamicFilter).mapM plan.producerOf

def discoverDynamicFilterProducers (plan : FilterPlan S) :
    Result (List (ℕ × FoundProducer S)) := do
  let found ← plan.preorder.mapM producersAt
  return (HashMap.collectFirst found.flatten).sortedEntries (· ≤ ·)

def dynamicFilterRemoteProducerIds (plan : FilterPlan S) : Result (List ℕ) := do
  let producers ← plan.discoverDynamicFilterProducers
  let discovered ← plan.discoverDynamicFilterConsumers
  let producerIds := producers.map Prod.fst
  let anchorIds := discovered.anchors.map Prod.fst
  return (producerIds.filter fun id => anchorIds.contains id).insertionSort (· ≤ ·)

def orphanDynamicFilterConsumers (plan : FilterPlan S) : Result (List FilterExpr) := do
  let producers ← plan.discoverDynamicFilterProducers
  let producedHere := producers.map Prod.fst
  let discovered ← plan.discoverDynamicFilterConsumers
  -- the anchors come last, so the anchor of an identifier stays and not its consumer
  let orphaned := HashMap.collect ((discovered.consumers ++ discovered.anchors).filter
    fun entry => !producedHere.contains entry.1)
  return (orphaned.sortedEntries (· ≤ ·)).map Prod.snd

/-! ## What is found -/

variable {plan : FilterPlan S}

/-- The node holds the dynamic filter in one of its expressions. -/
def HoldsAt (plan : FilterPlan S) (id : ℕ) : Prop :=
  ∃ expr ∈ plan.expressionRoots.flatMap FilterExpr.dynamicFilters, expr.expressionId = some id

/-- The node consumes the filter: it holds it and does not produce it. -/
def ConsumesAt (plan : FilterPlan S) (id : ℕ) : Prop :=
  plan.isNetworkBoundary = false ∧ plan.HoldsAt id ∧
    ∀ expr ∈ plan.dynamicExpressionsProduced, expr.expressionId ≠ some id

/-- The filter is an anchor of the boundary. -/
def AnchorsAt (plan : FilterPlan S) (id : ℕ) : Prop :=
  plan.isNetworkBoundary = true ∧ plan.HoldsAt id

def ProducesAt (plan : FilterPlan S) (id : ℕ) : Prop :=
  ∃ expr ∈ plan.dynamicExpressionsProduced,
    expr.isDynamicFilter = true ∧ expr.expressionId = some id

theorem mem_ids_byId :
    id ∈ (byId found).map Prod.fst ↔ id ∈ found.map Prod.fst := by
  rw [byId, HashMap.mem_keys_sortedEntries, HashMap.mem_collectFirst]

theorem mem_of_mem_byId {entry : ℕ × FilterExpr} (h : entry ∈ byId found) : entry ∈ found :=
  HashMap.mem_of_lookup_collectFirst (HashMap.mem_sortedEntries.mp h)

theorem mem_mapM_requireId {message : String} {exprs : List FilterExpr}
    (h : exprs.mapM (requireId message) = .ok found) :
    (id, expr) ∈ found ↔ expr ∈ exprs ∧ expr.expressionId = some id := by
  simp [mem_of_mapM_ok h, requireId_ok]

theorem consumersAt_ok {found : FoundFilters} (h : plan.consumersAt = .ok found) (id : ℕ)
    (expr : FilterExpr) :
    ((id, expr) ∈ found.consumers ↔ plan.isNetworkBoundary = false ∧
      (expr ∈ plan.expressionRoots.flatMap FilterExpr.dynamicFilters ∧
        expr.expressionId = some id) ∧
      ∀ expr ∈ plan.dynamicExpressionsProduced, expr.expressionId ≠ some id) ∧
    ((id, expr) ∈ found.anchors ↔ plan.isNetworkBoundary = true ∧
      expr ∈ plan.expressionRoots.flatMap FilterExpr.dynamicFilters ∧
        expr.expressionId = some id) := by
  obtain ⟨produced, hproduced, h⟩ := bind_ok_iff.mp h
  obtain ⟨all, hall, h⟩ := bind_ok_iff.mp h
  have hids : id ∈ produced.map Prod.fst ↔
      ∃ expr ∈ plan.dynamicExpressionsProduced, expr.expressionId = some id := by
    simp [mem_mapM_requireId hproduced]
  cases hboundary : plan.isNetworkBoundary with
  | true =>
    rw [hboundary] at h
    cases h
    simp [mem_mapM_requireId hall]
  | false =>
    rw [hboundary] at h
    cases h
    have hnot : (!(produced.map Prod.fst).contains id) = true ↔
        ∀ expr ∈ plan.dynamicExpressionsProduced, expr.expressionId ≠ some id := by
      rw [Bool.not_eq_true', ← Bool.not_eq_true, List.contains_iff_mem, hids]
      simp
    rw [List.mem_filter, mem_mapM_requireId hall, hnot]
    simp

/-- The consumers and anchors of a plan are those of its nodes. -/
theorem discoverDynamicFilterConsumers_ok {found : FoundFilters}
    (h : plan.discoverDynamicFilterConsumers = .ok found) (id : ℕ) :
    (id ∈ found.consumers.map Prod.fst ↔ ∃ sub ∈ plan.preorder, sub.ConsumesAt id) ∧
      (id ∈ found.anchors.map Prod.fst ↔ ∃ sub ∈ plan.preorder, sub.AnchorsAt id) := by
  obtain ⟨nodes, hnodes, h⟩ := bind_ok_iff.mp h
  cases h
  rw [mem_ids_byId, mem_ids_byId, List.map_flatMap, List.map_flatMap, List.mem_flatMap,
    List.mem_flatMap]
  constructor
  · apply exists_mem_mapM_iff hnodes
    intro sub _ node hat
    simp [(consumersAt_ok hat id _).1, ConsumesAt, HoldsAt]
  · apply exists_mem_mapM_iff hnodes
    intro sub _ node hat
    simp [(consumersAt_ok hat id _).2, AnchorsAt, HoldsAt]

theorem expr_of_discovered {found : FoundFilters}
    (h : plan.discoverDynamicFilterConsumers = .ok found)
    (hentry : (id, expr) ∈ found.consumers ++ found.anchors) :
    expr.expressionId = some id ∧ ∃ sub ∈ plan.preorder,
      expr ∈ sub.expressionRoots.flatMap FilterExpr.dynamicFilters := by
  obtain ⟨nodes, hnodes, h⟩ := bind_ok_iff.mp h
  cases h
  rcases List.mem_append.mp hentry with hentry | hentry
  · obtain ⟨node, hnode, hentry⟩ := List.mem_flatMap.mp (mem_of_mem_byId hentry)
    obtain ⟨sub, hsub, hat⟩ := (mem_of_mapM_ok hnodes).mp hnode
    obtain ⟨-, ⟨hexpr, hid⟩, -⟩ := (consumersAt_ok hat id expr).1.mp hentry
    exact ⟨hid, sub, hsub, hexpr⟩
  · obtain ⟨node, hnode, hentry⟩ := List.mem_flatMap.mp (mem_of_mem_byId hentry)
    obtain ⟨sub, hsub, hat⟩ := (mem_of_mapM_ok hnodes).mp hnode
    obtain ⟨-, hexpr, hid⟩ := (consumersAt_ok hat id expr).2.mp hentry
    exact ⟨hid, sub, hsub, hexpr⟩

theorem producersAt_ok {found : List (ℕ × FoundProducer S)} (h : plan.producersAt = .ok found) :
    id ∈ found.map Prod.fst ↔ plan.ProducesAt id := by
  have hproducer : ∀ expr entry, plan.producerOf expr = .ok entry →
      expr.expressionId = some entry.1 := by
    intro expr entry hentry
    obtain ⟨⟨known, other⟩, hid, hentry⟩ := bind_ok_iff.mp hentry
    obtain ⟨schema, -, hentry⟩ := bind_ok_iff.mp hentry
    cases hentry
    exact (requireId_ok.mp hid).1
  rw [List.mem_map, exists_mem_mapM_iff (Q := fun expr => expr.expressionId = some id) h]
  · simp [ProducesAt, and_assoc]
  · intro expr _ entry hat
    rw [hproducer expr entry hat, Option.some.injEq]

/-- The producers of a plan are those of its nodes. -/
theorem discoverDynamicFilterProducers_ok {found : List (ℕ × FoundProducer S)}
    (h : plan.discoverDynamicFilterProducers = .ok found) (id : ℕ) :
    id ∈ found.map Prod.fst ↔ ∃ sub ∈ plan.preorder, sub.ProducesAt id := by
  obtain ⟨nodes, hnodes, h⟩ := bind_ok_iff.mp h
  cases h
  rw [HashMap.mem_keys_sortedEntries, HashMap.mem_collectFirst, List.map_flatten,
    ← List.flatMap_def, List.mem_flatMap]
  exact exists_mem_mapM_iff hnodes fun sub _ entries => producersAt_ok

/-- A scan that is pruned by filter 1. -/
def filteredScan : FilterNode Unit :=
  { kind := .other, name := "DataSourceExec", schema := (), produced := []
    expressions := [.other none [.dynamicFilter (some 1) [.other none []]]] }

/-- A join that produces filter 1 and holds it. -/
def filteringJoin : FilterNode Unit :=
  { kind := .hashJoin .partitioned, name := "HashJoinExec", schema := ()
    produced := [.dynamicFilter (some 1) []], expressions := [.dynamicFilter (some 1) []] }

def plainNode : FilterNode Unit :=
  { kind := .other, name := "RepartitionExec", schema := (), produced := [], expressions := [] }

end FilterPlan

end DatafusionDistributed
