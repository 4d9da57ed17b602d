import DatafusionDistributed.DynamicFiltering.Discovery

/-!
# Anchors of dynamic filters

When a stage is sent to workers, its boundary keeps the filters that the stage consumes and does
not produce as anchors, and the anchors of the boundaries inside the stage with them. The producers
of a stage whose filter is an anchor in it are those with a consumer in another stage below.
-/

namespace DatafusionDistributed

open Library

namespace FilterNode

variable {S : Type}

def Produces (self : FilterNode S) (id : ℕ) : Prop :=
  ∃ expr ∈ self.produced, expr.isDynamicFilter = true ∧ expr.expressionId = some id

/-- The node holds the filter and does not produce it. -/
def Consumes (self : FilterNode S) (id : ℕ) : Prop :=
  (∃ expr ∈ self.expressions.flatMap FilterExpr.dynamicFilters, expr.expressionId = some id) ∧
    ∀ expr ∈ self.produced, expr.expressionId ≠ some id

end FilterNode

namespace FilterPlan

variable {S : Type}

mutual

/-- `prepare_static_plan`, as far as the anchors go: the boundaries become remote from the leaves
up, each with the orphans of the stage below it. -/
def prepareStages : FilterPlan S → Result (FilterPlan S)
  | node info children => do return node info (← prepareStagesAll children)
  | localBoundary schema input => do
    let input ← prepareStages input
    return remoteBoundary schema (← input.orphanDynamicFilterConsumers)
  | remoteBoundary _ _ =>
    .error (.execution "Input stage from network boundary was not in Local state")

def prepareStagesAll : List (FilterPlan S) → Result (List (FilterPlan S))
  | [] => return []
  | plan :: plans => do return (← prepareStages plan) :: (← prepareStagesAll plans)

end

mutual

/-- The nodes of the stage at the top of a plan. -/
def stageNodes : FilterPlan S → List (FilterNode S)
  | node info children => info :: stageNodesAll children
  | localBoundary _ _ | remoteBoundary _ _ => []

def stageNodesAll : List (FilterPlan S) → List (FilterNode S)
  | [] => []
  | plan :: plans => stageNodes plan ++ stageNodesAll plans

end

mutual

/-- The stages right below the stage at the top of a plan. -/
def inputStages : FilterPlan S → List (FilterPlan S)
  | node _ children => inputStagesAll children
  | localBoundary _ input => [input]
  | remoteBoundary _ _ => []

def inputStagesAll : List (FilterPlan S) → List (FilterPlan S)
  | [] => []
  | plan :: plans => inputStages plan ++ inputStagesAll plans

end

def StageProduces (plan : FilterPlan S) (id : ℕ) : Prop :=
  ∃ info ∈ plan.stageNodes, info.Produces id

/-- A node of the stage consumes the filter without producing it. -/
def StageConsumes (plan : FilterPlan S) (id : ℕ) : Prop :=
  ∃ info ∈ plan.stageNodes, info.Consumes id

theorem induction {motive : FilterPlan S → Prop}
    (node : ∀ info children, (∀ child ∈ children, motive child) → motive (node info children))
    (localBoundary : ∀ schema input, motive input → motive (localBoundary schema input))
    (remoteBoundary : ∀ schema anchors, motive (remoteBoundary schema anchors))
    (plan : FilterPlan S) : motive plan :=
  FilterPlan.rec (motive_2 := fun children => ∀ child ∈ children, motive child) node
    localBoundary remoteBoundary (by simp)
    (fun _ _ hhead htail => by simpa using ⟨hhead, htail⟩) plan

theorem prepareStagesAll_eq_mapM (plans : List (FilterPlan S)) :
    prepareStagesAll plans = plans.mapM prepareStages := by
  induction plans with
  | nil => rfl
  | cons plan plans ih =>
    rw [prepareStagesAll, List.mapM_cons, ih]

theorem stageNodesAll_eq_flatMap (plans : List (FilterPlan S)) :
    stageNodesAll plans = plans.flatMap stageNodes := by
  induction plans with
  | nil => rfl
  | cons plan plans ih => rw [stageNodesAll, List.flatMap_cons, ih]

theorem inputStagesAll_eq_flatMap (plans : List (FilterPlan S)) :
    inputStagesAll plans = plans.flatMap inputStages := by
  induction plans with
  | nil => rfl
  | cons plan plans ih => rw [inputStagesAll, List.flatMap_cons, ih]

/-- Induction over stages: a property that passes from the stages right below a stage to it. -/
theorem stageInduction {motive : FilterPlan S → Prop}
    (step : ∀ plan : FilterPlan S, (∀ input ∈ plan.inputStages, motive input) → motive plan)
    (plan : FilterPlan S) : motive plan := by
  apply step
  induction plan using induction with
  | node info children ih =>
    intro input hinput
    rw [inputStages, inputStagesAll_eq_flatMap] at hinput
    obtain ⟨child, hchild, hinput⟩ := List.mem_flatMap.mp hinput
    exact ih child hchild input hinput
  | localBoundary schema input ih =>
    intro other hother
    obtain rfl := List.mem_singleton.mp hother
    exact step other ih
  | remoteBoundary schema anchors =>
    intro input hinput
    cases hinput

/-! ## Prepared stages -/

variable {info : FilterNode S} {children : List (FilterPlan S)} {prepared plan input : FilterPlan S}
  {id : ℕ} {orphans : List FilterExpr}

theorem prepareStages_node_ok :
    (node info children).prepareStages = .ok prepared ↔
      ∃ next, children.mapM prepareStages = .ok next ∧ prepared = node info next := by
  rw [prepareStages, bind_ok_iff, prepareStagesAll_eq_mapM]
  simp [pure, Except.pure, @eq_comm _ prepared]

theorem prepareStages_localBoundary_ok {schema : S} :
    (localBoundary schema input).prepareStages = .ok prepared ↔
      ∃ next anchors, input.prepareStages = .ok next ∧
        next.orphanDynamicFilterConsumers = .ok anchors ∧
        prepared = remoteBoundary schema anchors := by
  simp [prepareStages, bind_ok_iff, pure, Except.pure, @eq_comm _ prepared]

theorem exists_mem_flatMap {α β : Type} {xs : List α} {f : α → List β} {P : β → Prop} :
    (∃ y ∈ xs.flatMap f, P y) ↔ ∃ x ∈ xs, ∃ y ∈ f x, P y := by
  grind

/-- Everything a prepared stage holds is at a node of the stage, or at a boundary that holds the
orphans of a stage below. -/
theorem exists_prepared_iff {P : FilterPlan S → Prop} (atNode : FilterNode S → Prop)
    (atBoundary : List FilterExpr → Prop)
    (hnode : ∀ info children, P (node info children) ↔ atNode info)
    (hboundary : ∀ schema anchors, P (remoteBoundary schema anchors) ↔ atBoundary anchors)
    (h : plan.prepareStages = .ok prepared) :
    (∃ sub ∈ prepared.preorder, P sub) ↔
      (∃ info ∈ plan.stageNodes, atNode info) ∨
        ∃ input ∈ plan.inputStages, ∃ next anchors, input.prepareStages = .ok next ∧
          next.orphanDynamicFilterConsumers = .ok anchors ∧ atBoundary anchors := by
  induction plan using induction generalizing prepared with
  | node info children ih =>
    obtain ⟨next, hnext, rfl⟩ := prepareStages_node_ok.mp h
    rw [preorder, preorderAll_eq_flatMap, stageNodes, stageNodesAll_eq_flatMap, inputStages,
      inputStagesAll_eq_flatMap, List.exists_mem_cons_iff, List.exists_mem_cons_iff, hnode,
      or_assoc,
      exists_mem_flatMap, exists_mem_flatMap, exists_mem_flatMap]
    simp only [← exists_or, ← and_or_left]
    exact or_congr_right (exists_mem_mapM_iff hnext fun child hchild _ => ih child hchild)
  | localBoundary schema input ih =>
    obtain ⟨next, anchors, hnext, hanchors, rfl⟩ := prepareStages_localBoundary_ok.mp h
    simp [preorder, stageNodes, inputStages, hboundary, hnext, hanchors]
  | remoteBoundary schema anchors => cases h

/-- What passes from a node to its children holds at every boundary of the stage. -/
theorem boundary_of_mem_inputStages {P : FilterPlan S → Prop}
    (hnode : ∀ info children, P (node info children) → ∀ child ∈ children, P child) (h : P plan)
    (hinput : input ∈ plan.inputStages) : ∃ schema, P (localBoundary schema input) := by
  induction plan using induction with
  | node info children ih =>
    rw [inputStages, inputStagesAll_eq_flatMap] at hinput
    obtain ⟨child, hchild, hinput⟩ := List.mem_flatMap.mp hinput
    exact ih child hchild (hnode info children h child hchild) hinput
  | localBoundary schema other ih =>
    obtain rfl := List.mem_singleton.mp hinput
    exact ⟨schema, h⟩
  | remoteBoundary schema anchors => cases hinput

/-- The stages below a stage that can be prepared can be prepared, and their orphans found. -/
theorem prepared_inputStages (h : plan.prepareStages = .ok prepared)
    (hinput : input ∈ plan.inputStages) :
    ∃ next anchors, input.prepareStages = .ok next ∧
      next.orphanDynamicFilterConsumers = .ok anchors := by
  obtain ⟨schema, prepared, h⟩ := boundary_of_mem_inputStages
    (P := fun plan => ∃ prepared, plan.prepareStages = .ok prepared)
    (fun info children ⟨prepared, h⟩ child hchild => by
      obtain ⟨next, hnext, rfl⟩ := prepareStages_node_ok.mp h
      obtain ⟨after, -, hafter⟩ := exists_of_forall₂ (mapM_ok_iff.mp hnext).flip hchild
      exact ⟨after, hafter⟩) ⟨prepared, h⟩ hinput
  obtain ⟨next, anchors, hnext, hanchors, -⟩ := prepareStages_localBoundary_ok.mp h
  exact ⟨next, anchors, hnext, hanchors⟩

theorem exists_producesAt_iff (h : plan.prepareStages = .ok prepared) :
    (∃ sub ∈ prepared.preorder, sub.ProducesAt id) ↔ plan.StageProduces id := by
  rw [exists_prepared_iff (fun info => info.Produces id) (fun _ => False)
    (fun _ _ => Iff.rfl) _ h]
  · simp [StageProduces]
  · simp [ProducesAt, dynamicExpressionsProduced]

theorem exists_consumesAt_iff (h : plan.prepareStages = .ok prepared) :
    (∃ sub ∈ prepared.preorder, sub.ConsumesAt id) ↔ plan.StageConsumes id := by
  rw [exists_prepared_iff (fun info => info.Consumes id) (fun _ => False) _ _ h]
  · simp [StageConsumes]
  · simp [ConsumesAt, isNetworkBoundary, HoldsAt, expressionRoots, dynamicExpressionsProduced,
      FilterNode.Consumes]
  · simp [ConsumesAt, isNetworkBoundary]

theorem exists_anchorsAt_iff (h : plan.prepareStages = .ok prepared) :
    (∃ sub ∈ prepared.preorder, sub.AnchorsAt id) ↔
      ∃ input ∈ plan.inputStages, ∃ next anchors, input.prepareStages = .ok next ∧
        next.orphanDynamicFilterConsumers = .ok anchors ∧
        ∃ expr ∈ anchors.flatMap FilterExpr.dynamicFilters, expr.expressionId = some id := by
  rw [exists_prepared_iff (fun _ => False)
    (fun anchors => ∃ expr ∈ anchors.flatMap FilterExpr.dynamicFilters,
      expr.expressionId = some id) _ _ h]
  · simp
  · simp [AnchorsAt, isNetworkBoundary]
  · simp [AnchorsAt, isNetworkBoundary, HoldsAt, expressionRoots]

/-! ## Orphans -/

def Flat (plan : FilterPlan S) : Prop :=
  ∀ sub ∈ plan.preorder, ∀ expr ∈ sub.expressionRoots, expr.Flat

/-- The orphans are the consumers and anchors without a producer, one for each identifier. -/
theorem orphanDynamicFilterConsumers_spec (h : plan.orphanDynamicFilterConsumers = .ok orphans) :
    ∃ producers found, plan.discoverDynamicFilterProducers = .ok producers ∧
      plan.discoverDynamicFilterConsumers = .ok found ∧
      (∀ expr ∈ orphans, ∃ id, (id, expr) ∈ found.consumers ++ found.anchors ∧
        id ∉ producers.map Prod.fst) ∧
      ∀ id ∈ (found.consumers ++ found.anchors).map Prod.fst, id ∉ producers.map Prod.fst →
        ∃ expr ∈ orphans, (id, expr) ∈ found.consumers ++ found.anchors := by
  obtain ⟨producers, hproducers, h⟩ := bind_ok_iff.mp h
  obtain ⟨found, hfound, h⟩ := bind_ok_iff.mp h
  have h := Except.ok.inj h
  have hkept : ∀ entry : ℕ × FilterExpr, (!(producers.map Prod.fst).contains entry.1) = true ↔
      entry.1 ∉ producers.map Prod.fst := by
    intro entry
    rw [Bool.not_eq_true', ← Bool.not_eq_true, List.contains_iff_mem]
  refine ⟨producers, found, hproducers, hfound, ?_, ?_⟩
  · intro expr hexpr
    rw [← h] at hexpr
    obtain ⟨⟨id, _⟩, hentry, rfl⟩ := List.mem_map.mp hexpr
    have hentry := HashMap.mem_of_lookup_collect (HashMap.mem_sortedEntries.mp hentry)
    obtain ⟨hentry, hproduced⟩ := List.mem_filter.mp hentry
    exact ⟨id, hentry, (hkept _).mp hproduced⟩
  · intro id hid hproduced
    obtain ⟨⟨_, other⟩, hentry, rfl⟩ := List.mem_map.mp hid
    have hmem : _ ∈ HashMap.collect ((found.consumers ++ found.anchors).filter
        fun entry => !(producers.map Prod.fst).contains entry.1) :=
      HashMap.mem_collect.mpr (List.mem_map.mpr
        ⟨_, List.mem_filter.mpr ⟨hentry, (hkept _).mpr hproduced⟩, rfl⟩)
    obtain ⟨expr, hexpr⟩ := HashMap.mem_iff_exists_lookup.mp hmem
    refine ⟨expr, ?_, List.mem_of_mem_filter (HashMap.mem_of_lookup_collect hexpr)⟩
    rw [← h]
    exact List.mem_map.mpr ⟨_, HashMap.mem_sortedEntries.mpr hexpr, rfl⟩

theorem orphan_dynamicFilters (hflat : plan.Flat)
    (h : plan.orphanDynamicFilterConsumers = .ok orphans) {expr : FilterExpr}
    (hexpr : expr ∈ orphans) :
    expr.dynamicFilters = [expr] ∧ ∃ id, expr.expressionId = some id := by
  obtain ⟨producers, found, -, hfound, horphans, -⟩ := orphanDynamicFilterConsumers_spec h
  obtain ⟨id, hentry, -⟩ := horphans expr hexpr
  obtain ⟨hid, sub, hsub, hheld⟩ := expr_of_discovered hfound hentry
  obtain ⟨root, hroot, hheld⟩ := List.mem_flatMap.mp hheld
  exact ⟨hflat sub hsub root hroot _ hheld, id, hid⟩

/-- The orphans are what the stage needs, by itself or for a stage below it, and does not
produce. -/
theorem orphanDynamicFilterConsumers_ok (hflat : plan.Flat)
    (h : plan.orphanDynamicFilterConsumers = .ok orphans) (id : ℕ) :
    (∃ expr ∈ orphans.flatMap FilterExpr.dynamicFilters, expr.expressionId = some id) ↔
      ((∃ sub ∈ plan.preorder, sub.ConsumesAt id) ∨ ∃ sub ∈ plan.preorder, sub.AnchorsAt id) ∧
        ¬ ∃ sub ∈ plan.preorder, sub.ProducesAt id := by
  have hsingle : ∀ expr ∈ orphans, expr.dynamicFilters = [expr] :=
    fun expr hexpr => (orphan_dynamicFilters hflat h hexpr).1
  obtain ⟨producers, found, hproducers, hfound, hsound, hcomplete⟩ :=
    orphanDynamicFilterConsumers_spec h
  rw [← discoverDynamicFilterProducers_ok hproducers id,
    ← (discoverDynamicFilterConsumers_ok hfound id).1,
    ← (discoverDynamicFilterConsumers_ok hfound id).2, ← List.mem_append, ← List.map_append]
  constructor
  · rintro ⟨expr, hexpr, hid⟩
    obtain ⟨orphan, horphan, hexpr⟩ := List.mem_flatMap.mp hexpr
    rw [hsingle orphan horphan, List.mem_singleton] at hexpr
    subst hexpr
    obtain ⟨known, hentry, hproduced⟩ := hsound expr horphan
    obtain rfl : known = id :=
      Option.some.inj ((expr_of_discovered hfound hentry).1.symm.trans hid)
    exact ⟨List.mem_map.mpr ⟨_, hentry, rfl⟩, hproduced⟩
  · rintro ⟨hneeded, hproduced⟩
    obtain ⟨orphan, horphan, hentry⟩ := hcomplete id hneeded hproduced
    refine ⟨orphan, List.mem_flatMap.mpr ⟨orphan, horphan, ?_⟩,
      (expr_of_discovered hfound hentry).1⟩
    rw [hsingle orphan horphan]
    exact List.mem_singleton.mpr rfl

theorem forall_preorder_node {P : FilterPlan S → Prop} :
    (∀ sub ∈ (node info children).preorder, P sub) ↔
      P (node info children) ∧ ∀ child ∈ children, ∀ sub ∈ child.preorder, P sub := by
  rw [preorder, preorderAll_eq_flatMap, List.forall_mem_cons, List.forall_mem_flatMap]

theorem forall_preorder_localBoundary {P : FilterPlan S → Prop} {schema : S} :
    (∀ sub ∈ (localBoundary schema input).preorder, P sub) ↔
      P (localBoundary schema input) ∧ ∀ sub ∈ input.preorder, P sub := by
  rw [preorder, List.forall_mem_cons]

theorem Flat.inputStages (h : plan.Flat) (hinput : input ∈ plan.inputStages) :
    input.Flat := by
  obtain ⟨schema, h⟩ := boundary_of_mem_inputStages
    (fun _ _ h => (forall_preorder_node.mp h).2) h hinput
  exact (forall_preorder_localBoundary.mp h).2

theorem Flat.prepareStages (hflat : plan.Flat) (h : plan.prepareStages = .ok prepared) :
    prepared.Flat := by
  induction plan using induction generalizing prepared with
  | node info children ih =>
    obtain ⟨next, hnext, rfl⟩ := prepareStages_node_ok.mp h
    obtain ⟨hself, hchildren⟩ := forall_preorder_node.mp hflat
    refine forall_preorder_node.mpr ⟨hself, fun after hafter => ?_⟩
    obtain ⟨child, hchild, hprepared⟩ := (mem_of_mapM_ok hnext).mp hafter
    exact ih child hchild (hchildren child hchild) hprepared
  | localBoundary schema input ih =>
    obtain ⟨next, anchors, hnext, hanchors, rfl⟩ := prepareStages_localBoundary_ok.mp h
    intro sub hsub expr hexpr
    obtain rfl := List.mem_singleton.mp hsub
    have hinput := ih (forall_preorder_localBoundary.mp hflat).2 hnext
    have hsingle := (orphan_dynamicFilters hinput hanchors hexpr).1
    intro filter hfilter
    rw [hsingle, List.mem_singleton] at hfilter
    rw [hfilter, hsingle]
  | remoteBoundary schema anchors => cases h

/-- A stage needs a filter from above: it does not produce it, and consumes it or has a stage right
below that needs it. -/
inductive Needs (id : ℕ) : FilterPlan S → Prop
  | here {plan : FilterPlan S} : plan.StageConsumes id → ¬ plan.StageProduces id → Needs id plan
  | deeper {plan input : FilterPlan S} : input ∈ plan.inputStages → Needs id input →
    ¬ plan.StageProduces id → Needs id plan

theorem orphans_iff_needs (plan : FilterPlan S) (hflat : plan.Flat)
    (h : plan.prepareStages = .ok prepared)
    (horphans : prepared.orphanDynamicFilterConsumers = .ok orphans) (id : ℕ) :
    (∃ expr ∈ orphans.flatMap FilterExpr.dynamicFilters, expr.expressionId = some id) ↔
      plan.Needs id := by
  induction plan using stageInduction generalizing prepared orphans with
  | step plan ih =>
    rw [orphanDynamicFilterConsumers_ok (hflat.prepareStages h) horphans,
      exists_producesAt_iff h, exists_consumesAt_iff h, exists_anchorsAt_iff h]
    constructor
    · rintro ⟨hconsumes | ⟨input, hinput, next, anchors, hnext, hanchors, hheld⟩, hproduces⟩
      · exact .here hconsumes hproduces
      · exact .deeper hinput
          ((ih input hinput (hflat.inputStages hinput) hnext hanchors).mp hheld) hproduces
    · intro hneeds
      cases hneeds with
      | here hconsumes hproduces => exact ⟨Or.inl hconsumes, hproduces⟩
      | @deeper _ input hinput hneeds hproduces =>
        obtain ⟨next, anchors, hnext, hanchors⟩ := prepared_inputStages h hinput
        exact ⟨Or.inr ⟨input, hinput, next, anchors, hnext, hanchors,
          (ih input hinput (hflat.inputStages hinput) hnext hanchors).mpr hneeds⟩, hproduces⟩

/-- A path of stages from the top of a plan down to a stage that consumes the filter. Neither that
stage nor one on the way produces it. -/
def ConsumedBelow (plan : FilterPlan S) (id : ℕ) : Prop :=
  ∃ between last, List.IsChain (fun stage input => input ∈ stage.inputStages)
      (plan :: (between ++ [last])) ∧
    (∀ stage ∈ between, ¬ stage.StageProduces id) ∧
    ¬ last.StageProduces id ∧ last.StageConsumes id

theorem consumedBelow_of_needs (hinput : input ∈ plan.inputStages)
    (h : input.Needs id) : plan.ConsumedBelow id := by
  induction h generalizing plan with
  | @here input hconsumes hproduces =>
    exact ⟨[], input, by simpa using hinput, by simp, hproduces, hconsumes⟩
  | @deeper input other hother _ hproduces ih =>
    obtain ⟨between, last, hchain, hbetween, hlast⟩ := ih hother
    refine ⟨input :: between, last, List.IsChain.cons_cons hinput hchain, ?_, hlast⟩
    rw [List.forall_mem_cons]
    exact ⟨hproduces, hbetween⟩

theorem needs_of_consumedBelow (h : plan.ConsumedBelow id) :
    ∃ input ∈ plan.inputStages, input.Needs id := by
  obtain ⟨between, last, hchain, hbetween, hproduces, hconsumes⟩ := h
  induction between generalizing plan with
  | nil =>
    rw [List.nil_append, List.isChain_cons_cons] at hchain
    exact ⟨last, hchain.1, .here hconsumes hproduces⟩
  | cons stage between ih =>
    rw [List.cons_append, List.isChain_cons_cons] at hchain
    rw [List.forall_mem_cons] at hbetween
    obtain ⟨input, hinput, hneeds⟩ := ih hchain.2 hbetween.2
    exact ⟨stage, hchain.1, .deeper hinput hneeds hbetween.1⟩

theorem mem_remoteProducerIds {ids : List ℕ} (h : plan.dynamicFilterRemoteProducerIds = .ok ids)
    (id : ℕ) :
    id ∈ ids ↔ (∃ sub ∈ plan.preorder, sub.ProducesAt id) ∧
      ∃ sub ∈ plan.preorder, sub.AnchorsAt id := by
  obtain ⟨producers, hproducers, h⟩ := bind_ok_iff.mp h
  obtain ⟨found, hfound, h⟩ := bind_ok_iff.mp h
  cases h
  rw [List.mem_insertionSort, List.mem_filter, List.contains_iff_mem,
    discoverDynamicFilterProducers_ok hproducers, (discoverDynamicFilterConsumers_ok hfound id).2]

/-! ## Success -/

/-- The identifiers of the node are there, and the schema of the filters it produces is known: what
the discovery checks. -/
structure Identified (plan : FilterPlan S) : Prop where
  produced : ∀ expr ∈ plan.dynamicExpressionsProduced, ∃ id, expr.expressionId = some id
  held : ∀ expr ∈ plan.expressionRoots.flatMap FilterExpr.dynamicFilters,
    ∃ id, expr.expressionId = some id
  schema : (∃ expr ∈ plan.dynamicExpressionsProduced, expr.isDynamicFilter = true) →
    ∃ schema, plan.dynamicFilterProducerSchema = .ok schema

theorem exists_mapM_requireId {exprs : List FilterExpr} (message : String)
    (h : ∀ expr ∈ exprs, ∃ id, expr.expressionId = some id) :
    ∃ found, exprs.mapM (requireId message) = .ok found := by
  apply exists_mapM_ok
  intro expr hexpr
  obtain ⟨id, hid⟩ := h expr hexpr
  exact ⟨(id, expr), requireId_ok.mpr ⟨hid, rfl⟩⟩

theorem Identified.consumersAt (h : plan.Identified) :
    ∃ found, plan.consumersAt = .ok found := by
  obtain ⟨produced, hproduced⟩ := exists_mapM_requireId
    s!"{plan.name}::dynamic_expressions_produced returned an expression without an expression ID"
    h.produced
  obtain ⟨found, hfound⟩ := exists_mapM_requireId missingId h.held
  rw [FilterPlan.consumersAt, hproduced, hfound]
  cases plan.isNetworkBoundary
  · exact ⟨_, rfl⟩
  · exact ⟨_, rfl⟩

theorem Identified.producersAt (h : plan.Identified) :
    ∃ found, plan.producersAt = .ok found := by
  apply exists_mapM_ok
  intro expr hexpr
  obtain ⟨hexpr, hfilter⟩ := List.mem_filter.mp hexpr
  obtain ⟨id, hid⟩ := h.produced expr hexpr
  obtain ⟨schema, hschema⟩ := h.schema ⟨expr, hexpr, hfilter⟩
  have hfound : requireId missingId expr = .ok (id, expr) := requireId_ok.mpr ⟨hid, rfl⟩
  refine ⟨(id, ⟨expr, schema⟩), ?_⟩
  rw [producerOf, hfound, hschema]
  rfl

theorem discover_of_identified (h : ∀ sub ∈ plan.preorder, sub.Identified) :
    (∃ producers, plan.discoverDynamicFilterProducers = .ok producers) ∧
      ∃ found, plan.discoverDynamicFilterConsumers = .ok found := by
  obtain ⟨producers, hproducers⟩ := exists_mapM_ok fun sub hsub => (h sub hsub).producersAt
  obtain ⟨found, hfound⟩ := exists_mapM_ok fun sub hsub => (h sub hsub).consumersAt
  constructor
  · rw [discoverDynamicFilterProducers, hproducers]
    exact ⟨_, rfl⟩
  · rw [discoverDynamicFilterConsumers, hfound]
    exact ⟨_, rfl⟩

theorem orphans_of_identified (h : ∀ sub ∈ plan.preorder, sub.Identified) :
    ∃ orphans, plan.orphanDynamicFilterConsumers = .ok orphans := by
  obtain ⟨⟨producers, hproducers⟩, found, hfound⟩ := discover_of_identified h
  rw [orphanDynamicFilterConsumers, hproducers, hfound]
  exact ⟨_, rfl⟩

theorem remoteProducerIds_of_identified (h : ∀ sub ∈ plan.preorder, sub.Identified) :
    ∃ ids, plan.dynamicFilterRemoteProducerIds = .ok ids := by
  obtain ⟨⟨producers, hproducers⟩, found, hfound⟩ := discover_of_identified h
  rw [dynamicFilterRemoteProducerIds, hproducers, hfound]
  exact ⟨_, rfl⟩

/-- Whether the schema is known depends on the kind of the node and the number of its children. -/
theorem dynamicFilterProducerSchema_ok_iff :
    (∃ schema, (node info children).dynamicFilterProducerSchema = .ok schema) ↔
      children.length ≤ 1 ∨ children.length = 2 ∧ ∃ mode, info.kind = .hashJoin mode := by
  obtain ⟨kind, name, schema, produced, expressions⟩ := info
  rcases children with _ | ⟨first, _ | ⟨second, _ | ⟨third, children⟩⟩⟩ <;>
    cases kind <;> simp [dynamicFilterProducerSchema]

/-- A tree of stages as the planner builds it: no stage has been sent, and the nodes are
identified. -/
def WellFormed (plan : FilterPlan S) : Prop :=
  ∀ sub ∈ plan.preorder, sub.Identified ∧ ∀ schema anchors, sub ≠ remoteBoundary schema anchors

theorem WellFormed.prepareStages (h : plan.WellFormed) (hflat : plan.Flat) :
    ∃ prepared, plan.prepareStages = .ok prepared ∧ ∀ sub ∈ prepared.preorder, sub.Identified := by
  induction plan using induction with
  | node info children ih =>
    obtain ⟨hself, hbelow⟩ := forall_preorder_node.mp h
    have hchildren := fun child hchild => ih child hchild (hbelow child hchild)
      ((forall_preorder_node.mp hflat).2 child hchild)
    obtain ⟨next, hnext⟩ := exists_mapM_ok fun child hchild =>
      (hchildren child hchild).imp fun _ hprepared => hprepared.1
    refine ⟨node info next, prepareStages_node_ok.mpr ⟨next, hnext, rfl⟩,
      forall_preorder_node.mpr ⟨?_, fun after hafter => ?_⟩⟩
    · refine ⟨hself.1.produced, hself.1.held, fun hproduces => ?_⟩
      have hschema := hself.1.schema hproduces
      rwa [dynamicFilterProducerSchema_ok_iff, (mapM_ok_iff.mp hnext).length_eq,
        ← dynamicFilterProducerSchema_ok_iff] at hschema
    · obtain ⟨child, hchild, hprepared⟩ := (mem_of_mapM_ok hnext).mp hafter
      obtain ⟨other, hother, hall⟩ := hchildren child hchild
      cases hprepared.symm.trans hother
      exact hall
  | localBoundary schema input ih =>
    have hflat := (forall_preorder_localBoundary.mp hflat).2
    obtain ⟨next, hnext, hall⟩ := ih (forall_preorder_localBoundary.mp h).2 hflat
    obtain ⟨anchors, hanchors⟩ := orphans_of_identified hall
    refine ⟨_, prepareStages_localBoundary_ok.mpr ⟨next, anchors, hnext, hanchors, rfl⟩, ?_⟩
    intro sub hsub
    obtain rfl := List.mem_singleton.mp hsub
    refine ⟨by simp [dynamicExpressionsProduced], ?_, fun _ => ⟨schema, rfl⟩⟩
    intro expr hexpr
    obtain ⟨anchor, hanchor, hexpr⟩ := List.mem_flatMap.mp hexpr
    obtain ⟨hsingle, hid⟩ := orphan_dynamicFilters (Flat.prepareStages hflat hnext) hanchors hanchor
    rw [hsingle, List.mem_singleton] at hexpr
    rw [hexpr]
    exact hid
  | remoteBoundary schema anchors =>
    exact absurd rfl ((h _ (by rw [preorder]; exact List.mem_cons_self)).2 schema anchors)

/-- The remote producers of a stage are exactly the filters it produces for a stage below with no
other producer on the way; they are found for every well-formed tree. -/
theorem remote_producer_ids_exact (plan : FilterPlan S) (hflat : plan.Flat) :
    (plan.WellFormed → ∃ prepared ids, plan.prepareStages = .ok prepared ∧
      prepared.dynamicFilterRemoteProducerIds = .ok ids) ∧
      ∀ prepared ids, plan.prepareStages = .ok prepared →
        prepared.dynamicFilterRemoteProducerIds = .ok ids →
        ∀ id, id ∈ ids ↔ plan.StageProduces id ∧ plan.ConsumedBelow id := by
  constructor
  · intro h
    obtain ⟨prepared, hprepared, hall⟩ := h.prepareStages hflat
    obtain ⟨ids, hids⟩ := remoteProducerIds_of_identified hall
    exact ⟨prepared, ids, hprepared, hids⟩
  · intro prepared ids hprepared hids id
    rw [mem_remoteProducerIds hids, exists_producesAt_iff hprepared,
      exists_anchorsAt_iff hprepared]
    refine and_congr_right fun _ => ⟨?_, ?_⟩
    · rintro ⟨input, hinput, next, anchors, hnext, hanchors, hheld⟩
      exact consumedBelow_of_needs hinput
        ((orphans_iff_needs input (hflat.inputStages hinput) hnext hanchors id).mp hheld)
    · intro hbelow
      obtain ⟨input, hinput, hneeds⟩ := needs_of_consumedBelow hbelow
      obtain ⟨next, anchors, hnext, hanchors⟩ := prepared_inputStages hprepared hinput
      exact ⟨input, hinput, next, anchors, hnext, hanchors,
        (orphans_iff_needs input (hflat.inputStages hinput) hnext hanchors id).mpr hneeds⟩

/-- The join reads the scan through a stage in between. -/
def threeStages : FilterPlan Unit :=
  .node filteringJoin [.node plainNode [],
    .localBoundary () (.node plainNode [.localBoundary () (.node filteredScan [])])]

theorem remote_producer_ids_of_threeStages :
    threeStages.Flat ∧ ∃ prepared, threeStages.prepareStages = .ok prepared ∧
      prepared.dynamicFilterRemoteProducerIds = .ok [1] ∧
      threeStages.StageProduces 1 ∧ threeStages.ConsumedBelow 1 := by
  have hflat : threeStages.Flat := by
    simp [Flat, threeStages, preorder, preorderAll, expressionRoots, filteringJoin, plainNode,
      filteredScan, FilterExpr.Flat, FilterExpr.dynamicFilters, FilterExpr.dynamicFiltersAll]
  refine ⟨hflat, _, rfl, rfl, ?_⟩
  exact ((remote_producer_ids_exact threeStages hflat).2 _ _ rfl rfl 1).mp (by decide)

end FilterPlan

end DatafusionDistributed
