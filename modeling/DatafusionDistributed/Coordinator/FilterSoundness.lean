import DatafusionDistributed.Coordinator.RegistryHistory

/-!
# Union filters are sound

A filter that is merged by union stands for the build sides of all its producers. It is merged once
the stage of the producers is sealed and all of them have sent a complete report, and the merged
predicate accepts what any of these reports accepts.

This rests on the meaning of a sealed stage: all of its tasks have registered. A producer that
registers later, or a second complete report of one producer, comes too late for the merged filter,
which is final: `late_reports_are_not_merged`.
-/

namespace DatafusionDistributed

open Library

/-- What the predicates mean: the rows they accept. -/
structure PredicateSemantics (ε Row : Type) [PhysicalExprNodes ε] where
  accepts : ε → Row → Prop
  accepts_or : ∀ operands row, accepts (PhysicalExprNodes.binaryExpr "Or" operands) row ↔
    ∃ operand ∈ operands, accepts operand row

section Predicates

variable {ε Row : Type} [PhysicalExprNodes ε]

theorem accepts_mergePredicates (sem : PredicateSemantics ε Row) {predicates : List ε}
    {mode : DynamicFilterMergePolicy} (hmode : mode ≠ .intersectOnUpdate) {inner : ε}
    (hinner : inner ∈ predicates) :
    ∃ predicate, mergePredicates predicates mode = some predicate ∧
      ∀ row, sem.accepts inner row → sem.accepts predicate row := by
  rcases predicates with _ | ⟨first, _ | ⟨second, rest⟩⟩
  · cases hinner
  · obtain rfl := List.mem_singleton.mp hinner
    exact ⟨inner, rfl, fun _ h => h⟩
  · refine ⟨_, rfl, fun row h => ?_⟩
    rw [if_neg hmode, sem.accepts_or]
    exact ⟨inner, hinner, h⟩

end Predicates

namespace RegistryEvent

variable {ε S : Type}

/-- The filter is merged, or sent to a consumer. -/
def Forwards (id : ℕ) : RegistryEvent ε S → Prop
  | merged other _ => other = id
  | sent _ _ update => update.expressionId = id
  | _ => False

end RegistryEvent

namespace DynamicFilterRegistry

variable {ε S : Type} {event : RegistryEvent ε S}

/-- Every producer of the filter was registered before its stage was sealed. -/
def RegistersBeforeSealing (history : List (RegistryEvent ε S)) (id : ℕ) : Prop :=
  Logged (fun earlier event => ∀ task mode, event = .producer id task mode →
    .sealed task.stageId ∉ earlier) history

def ProducedBy (history : List (RegistryEvent ε S)) (id stage : ℕ) : Prop :=
  ∀ task mode, .producer id task mode ∈ history → task.stageId = stage

theorem ProducedBy.tail {history : List (RegistryEvent ε S)}
    {id stage : ℕ} (h : ProducedBy (event :: history) id stage) : ProducedBy history id stage :=
  fun task mode hproducer => h task mode (List.mem_cons_of_mem _ hproducer)

/-- The filter is produced by the tasks of one stage and merged by union, and the tasks registered
before the stage was sealed. -/
structure UnionOfStage (history : List (RegistryEvent ε S)) (id stage : ℕ) : Prop where
  produced : ProducedBy history id stage
  union : ∀ task mode, .producer id task mode ∈ history → mode = .unionWhenAllComplete
  sealing : RegistersBeforeSealing history id

/-- The stage of the producers is sealed, and each of them has sent a complete report. -/
def AllReported (history : List (RegistryEvent ε S)) (id stage : ℕ) : Prop :=
  .sealed stage ∈ history ∧ ∀ task mode, .producer id task mode ∈ history →
    ∃ report, .reported id task report ∈ history ∧ report.isComplete = true

section UnionOfStage

variable {s : DynamicFilterRegistry ε S} {id stage : ℕ}

theorem UnionOfStage.tail {history : List (RegistryEvent ε S)}
    (h : UnionOfStage (event :: history) id stage) : UnionOfStage history id stage where
  produced := h.produced.tail
  union task mode hproducer := h.union task mode (List.mem_cons_of_mem _ hproducer)
  sealing := h.sealing.2

theorem UnionOfStage.mode (h : UnionOfStage s.history id stage) (hs : s.Consistent)
    {task : TaskKey} (htask : task ∈ (s.filter id).producers) :
    (s.filter id).mergeMode = some .unionWhenAllComplete := by
  obtain ⟨mode, hmode⟩ := ((hs.filter id).producer task).mp htask
  rw [(hs.filter id).mode task mode hmode, h.union task mode hmode]

theorem UnionOfStage.allReported (h : UnionOfStage s.history id stage) (hs : s.Consistent)
    (hcomplete : (s.filter id).allComplete s.sealedStages = true) :
    AllReported s.history id stage := by
  obtain ⟨⟨task, htask⟩, hall⟩ := allComplete_iff.mp hcomplete
  constructor
  · obtain ⟨report, hreport⟩ := HashMap.mem_iff_exists_lookup.mp htask
    obtain ⟨mode, hmode⟩ := ((hs.filter id).producer task).mp htask
    rw [← h.produced task mode hmode]
    exact (hs.sealed _).mp (hall task report hreport).1
  · intro other mode hother
    have hother := ((hs.filter id).producer other).mpr ⟨mode, hother⟩
    obtain ⟨report, hreport⟩ := HashMap.mem_iff_exists_lookup.mp hother
    obtain ⟨-, known, rfl, hdone⟩ := hall other report hreport
    exact ⟨known, ((hs.filter id).reported other known hreport).1, hdone⟩

end UnionOfStage

variable [PhysicalExprNodes ε]

/-- A merged filter that is complete stands for the final reports of all producers. -/
structure Final (filter : PlannedDynamicFilter ε S) (sealedStages : List ℕ)
    (mode : DynamicFilterMergePolicy) (node : PhysicalDynamicFilterNode ε) : Prop where
  allComplete : filter.allComplete sealedStages = true
  innerExpr : node.innerExpr =
    mergePredicates (filter.reports.filterMap fun entry => entry.2.innerExpr) mode

/-- The merged filter of a union is complete, and every complete one, if it does not forward a
single report, is final. -/
def Settles (s : DynamicFilterRegistry ε S) (id : ℕ) : Prop :=
  ∀ mode node, (s.filter id).mergeMode = some mode → (s.filter id).merged = some node →
    mode ≠ .forwardFirstComplete →
      (mode = .unionWhenAllComplete → node.isComplete = true) ∧
      (node.isComplete = true → Final (s.filter id) s.sealedStages mode node)

section Settles

variable {s next : DynamicFilterRegistry ε S} {id stage : ℕ}
  {filter other : PlannedDynamicFilter ε S} {sealedStages : List ℕ}
  {mode : DynamicFilterMergePolicy} {node : PhysicalDynamicFilterNode ε}

theorem Final.of_producers (h : Final filter sealedStages mode node)
    (hproducers : other.producers = filter.producers) : Final other sealedStages mode node := by
  obtain ⟨hcomplete, hinner⟩ := h
  constructor
  · rwa [PlannedDynamicFilter.allComplete, hproducers]
  · rwa [PlannedDynamicFilter.reports, hproducers]

theorem Final.sealed (h : Final filter sealedStages mode node) (stage : ℕ) :
    Final filter (sealedStages.insert stage) mode node := by
  refine ⟨?_, h.innerExpr⟩
  obtain ⟨hsome, hall⟩ := allComplete_iff.mp h.allComplete
  refine allComplete_iff.mpr ⟨hsome, fun task report hreport => ?_⟩
  obtain ⟨hsealed, hcomplete⟩ := hall task report hreport
  exact ⟨List.mem_insert_of_mem hsealed, hcomplete⟩

/-- No producer is added to a final filter: its stage is sealed. -/
theorem Final.not_producer (hs : s.Consistent) (h : Final (s.filter id) s.sealedStages mode node)
    {task : TaskKey} {added : DynamicFilterMergePolicy}
    (hstage : ProducedBy (.producer id task added :: s.history) id stage)
    (hsealing : RegistersBeforeSealing (.producer id task added :: s.history) id) : False := by
  obtain ⟨⟨other, hother⟩, hall⟩ := allComplete_iff.mp h.allComplete
  obtain ⟨report, hreport⟩ := HashMap.mem_iff_exists_lookup.mp hother
  obtain ⟨known, hknown⟩ := ((hs.filter id).producer other).mp hother
  have hsealed := (hs.sealed other.stageId).mp (hall other report hreport).1
  rw [hstage other known (List.mem_cons_of_mem _ hknown),
    ← hstage task added List.mem_cons_self] at hsealed
  exact hsealing.1 task added rfl hsealed

theorem Settles.of_same (h : Settles s id)
    (hproducers : (next.filter id).producers = (s.filter id).producers)
    (hmode : (next.filter id).mergeMode = (s.filter id).mergeMode)
    (hmerged : (next.filter id).merged = (s.filter id).merged)
    (hsealed : next.sealedStages = s.sealedStages) : Settles next id := by
  intro mode node hnext hnode hforward
  rw [hmode] at hnext
  rw [hmerged] at hnode
  obtain ⟨hunion, hfinal⟩ := h mode node hnext hnode hforward
  refine ⟨hunion, fun hcomplete => ?_⟩
  rw [hsealed]
  exact (hfinal hcomplete).of_producers hproducers

theorem Settles.of_ne (h : Settles s id) {changed : ℕ} (hne : id ≠ changed)
    {filter : PlannedDynamicFilter ε S}
    (hfilters : next.filters = (s.setFilter changed filter).filters)
    (hsealed : next.sealedStages = s.sealedStages) : Settles next id := by
  have hfilter : next.filter id = s.filter id := by
    rw [filter_of_filters_eq hfilters, filter_setFilter_ne hne]
  exact h.of_same (by rw [hfilter]) (by rw [hfilter]) (by rw [hfilter]) hsealed

variable [DecidableEq ε]

theorem Settles.update (hs : s.Consistent) (h : Settles s id) (hupdate : Update s next)
    (hstage : ProducedBy next.history id stage)
    (hsealing : RegistersBeforeSealing next.history id) : Settles next id := by
  cases hupdate with
  | registering task produced | sender task sender => exact h.of_same rfl rfl rfl rfl
  | refused changed known hkept | consumer changed task =>
    by_cases heq : id = changed
    · subst heq
      exact h.of_same (by simp) (by simp) (by simp) rfl
    · exact h.of_ne heq rfl rfl
  | producer changed task added schema hmode _ =>
    by_cases heq : id = changed
    · subst heq
      intro mode node hnext hnode hforward
      simp only [filter_log, filter_setFilter] at hnext hnode ⊢
      -- a merged filter has producers, so the mode is known
      obtain ⟨other, hother⟩ := (hs.filter id).mergedProducer (by rw [hnode]; simp)
      obtain ⟨known, hknown⟩ := ((hs.filter id).producer other).mp hother
      have hknown := (hs.filter id).mode other known hknown
      have hsame : (s.filter id).mergeMode = some mode := by
        rcases hmode with hmode | hmode
        · rw [hmode] at hknown
          cases hknown
        · rw [hmode, hnext]
      obtain ⟨hunion, hfinal⟩ := h mode node hsame hnode hforward
      exact ⟨hunion, fun hcomplete => ((hfinal hcomplete).not_producer hs hstage hsealing).elim⟩
    · exact h.of_ne heq rfl rfl
  | sealed other =>
    intro mode node hnext hnode hforward
    obtain ⟨hunion, hfinal⟩ := h mode node hnext hnode hforward
    exact ⟨hunion, fun hcomplete => (hfinal hcomplete).sealed other⟩
  | ignored changed task report | sent changed task sender => exact h.of_same rfl rfl rfl rfl
  | stored changed task report previous hfound _ haccepts =>
    by_cases heq : id = changed
    · subst heq
      intro mode node hnext hnode hforward
      simp only [filter_setFilter] at hnext hnode ⊢
      obtain ⟨hunion, hfinal⟩ := h mode node hnext hnode hforward
      refine ⟨hunion, fun hcomplete => ?_⟩
      -- all producers are done, so the report would have been ignored
      obtain ⟨-, hall⟩ := allComplete_iff.mp (hfinal hcomplete).allComplete
      obtain ⟨-, known, hknown, hdone⟩ := hall task previous hfound
      rw [FilterConsistent.ignores_iff.mpr (Or.inr ⟨known, hknown, Or.inl hdone⟩)] at haccepts
      cases haccepts
    · exact h.of_ne heq rfl rfl
  | merged changed node hchanged =>
    by_cases heq : id = changed
    · subst heq
      obtain ⟨found, hfound, -, hready, -, hmerges, -⟩ := mergeReports_some hchanged
      intro mode other hnext hother hforward
      simp only [filter_log, filter_setMerged] at hnext hother
      obtain rfl : found = mode := Option.some.inj (hfound.symm.trans hnext)
      obtain rfl : node = other := Option.some.inj hother
      have hcomplete : node.isComplete = (s.filter id).allComplete s.sealedStages := by
        rw [hmerges.isComplete, decide_eq_false hforward, Bool.false_or]
      refine ⟨fun hunion => hcomplete.trans (hready hunion), fun hdone => ?_⟩
      have hfinal : Final (s.filter id) s.sealedStages found node := by
        refine ⟨hcomplete.symm.trans hdone, ?_⟩
        rw [hmerges.innerExpr, PlannedDynamicFilter.mergedReports, if_neg hforward]
      exact hfinal.of_producers (by simp)
    · exact h.of_ne heq rfl rfl

end Settles

section Sound

variable {s next : DynamicFilterRegistry ε S} {id stage : ℕ}

/-- What holds of a union filter in every state. -/
structure Sound (s : DynamicFilterRegistry ε S) (id stage : ℕ) : Prop where
  settles : Settles s id
  forwarded : Logged (fun earlier event => event.Forwards id → AllReported earlier id stage)
    s.history
  sent : ∀ sender task update, .sent sender task update ∈ s.history →
    update.expressionId = id → (s.filter id).merged = some update.expression.filter

theorem Settles.final (h : Settles s id) (hs : s.Consistent)
    (hunion : UnionOfStage s.history id stage) {node : PhysicalDynamicFilterNode ε}
    (hmerged : (s.filter id).merged = some node) :
    node.isComplete = true ∧ Final (s.filter id) s.sealedStages .unionWhenAllComplete node := by
  obtain ⟨task, htask⟩ := (hs.filter id).mergedProducer (by rw [hmerged]; simp)
  obtain ⟨hcomplete, hfinal⟩ := h _ node (hunion.mode hs htask) hmerged (by simp)
  exact ⟨hcomplete rfl, hfinal (hcomplete rfl)⟩

theorem sound_new : Sound (new : DynamicFilterRegistry ε S) id stage where
  settles := by
    intro mode node _ hnode
    cases hnode
  forwarded := Logged.nil
  sent _ _ _ h := by cases h

variable [DecidableEq ε]

/-- The filter is merged, or sent, when all producers are complete. -/
theorem allComplete_of_forwards (hs : s.Consistent) (hunion : UnionOfStage s.history id stage)
    (hsettles : Settles s id) (hupdate : Update s next)
    (hhistory : next.history = event :: s.history) (hforwards : event.Forwards id) :
    (s.filter id).allComplete s.sealedStages = true := by
  cases hupdate with
  | refused => exact absurd hhistory.symm (List.cons_ne_self _ _)
  | merged other node hchanged =>
    cases hhistory
    obtain rfl : other = id := hforwards
    obtain ⟨mode, hmode, -, hready, hreports, -⟩ := mergeReports_some hchanged
    obtain ⟨task, htask⟩ := exists_producer_of_reports hreports
    exact hready (Option.some.inj (hmode.symm.trans (hunion.mode hs htask)))
  | sent other task sender expression schema hbytes =>
    cases hhistory
    obtain rfl : other = id := hforwards
    rw [(hs.filter other).bytes] at hbytes
    obtain ⟨node, hnode, -⟩ := Option.map_eq_some_iff.mp hbytes
    exact (hsettles.final hs hunion hnode).2.allComplete
  | _ =>
    cases hhistory
    exact hforwards.elim

theorem Sound.update (hs : s.Consistent)
    (h : UnionOfStage s.history id stage → Sound s id stage) (hupdate : Update s next)
    (hnext : UnionOfStage next.history id stage) : Sound next id stage := by
  have hunion : UnionOfStage s.history id stage := by
    rcases history_of_update hupdate with hhistory | ⟨event, hhistory⟩
    · exact hhistory ▸ hnext
    · rw [hhistory] at hnext
      exact hnext.tail
  have hsound := h hunion
  refine {
    settles := hsound.settles.update hs hupdate hnext.produced hnext.sealing
    forwarded := ?_
    sent := ?_ }
  · rcases history_of_update hupdate with hhistory | ⟨event, hhistory⟩
    · rw [hhistory]
      exact hsound.forwarded
    · rw [hhistory]
      exact ⟨fun hforwards => hunion.allReported hs
        (allComplete_of_forwards hs hunion hsound.settles hupdate hhistory hforwards),
        hsound.forwarded⟩
  · intro sender task update hsent hid
    rcases sent_of_update hs hupdate hsent with hsent | ⟨-, hfilters, hmerged⟩
    · have hmerged := hsound.sent sender task update hsent hid
      rcases merged_of_update hupdate with hsame | ⟨node, hchanged, -, -⟩
      · rw [hsame, hmerged]
      · obtain ⟨-, -, hprevious, -⟩ := mergeReports_some hchanged
        have hcomplete := (hsound.settles.final hs hunion hmerged).1
        rw [(hprevious _ hmerged).1] at hcomplete
        cases hcomplete
    · subst hid
      rw [filter_of_filters_eq hfilters, hmerged]

end Sound

/-- A union filter is merged, and sent, only after its stage is sealed and all producers have sent a
complete report, and what is sent accepts what any of these reports accepts. -/
theorem union_filters_sound [DecidableEq ε] [DecidableEq S] {Row : Type}
    (sem : PredicateSemantics ε Row) {s : DynamicFilterRegistry ε S}
    (h : (system ε S).Reachable s) {id stage : ℕ} (hunion : UnionOfStage s.history id stage) :
    (∀ later event earlier, s.history = later ++ event :: earlier → event.Forwards id →
      AllReported earlier id stage) ∧
      ∀ sender task update, .sent sender task update ∈ s.history → update.expressionId = id →
        ∃ predicate, update.expression.filter.innerExpr = some predicate ∧
          ∀ producer report inner row, finalReport s.history id producer = some report →
            report.innerExpr = some inner → sem.accepts inner row → sem.accepts predicate row := by
  obtain ⟨hs, hsound⟩ : s.Consistent ∧ (UnionOfStage s.history id stage → Sound s id stage) := by
    refine invariant_of_update ⟨consistent_new, fun _ => sound_new⟩ ?_ h
    rintro s next ⟨hs, hsound⟩ hupdate
    exact ⟨hs.update hupdate, Sound.update hs hsound hupdate⟩
  have hsound := hsound hunion
  constructor
  · intro later event earlier hhistory hforwards
    have hlogged := hsound.forwarded
    rw [hhistory] at hlogged
    exact hlogged.of_append hforwards
  · intro sender task update hsent hid
    have hmerged := hsound.sent sender task update hsent hid
    obtain ⟨-, hfinal⟩ := hsound.settles.final hs hunion hmerged
    have hreport : ∀ producer report inner, finalReport s.history id producer = some report →
        report.innerExpr = some inner → inner ∈ (s.filter id).reports.filterMap
          fun entry => entry.2.innerExpr := by
      intro producer report inner hreport hinner
      exact List.mem_filterMap.mpr
        ⟨(producer, report), mem_reports.mpr ((hs.filter id).final producer report hreport), hinner⟩
    have hmode : DynamicFilterMergePolicy.unionWhenAllComplete ≠ .intersectOnUpdate := by decide
    obtain ⟨⟨producer, hproducer⟩, hall⟩ := allComplete_iff.mp hfinal.allComplete
    obtain ⟨found, hfound⟩ := HashMap.mem_iff_exists_lookup.mp hproducer
    obtain ⟨-, known, rfl, hdone⟩ := hall producer found hfound
    obtain ⟨inner, hinner⟩ :=
      Option.ne_none_iff_exists'.mp ((hs.filter id).reported producer known hfound).2
    obtain ⟨predicate, hpredicate, -⟩ := accepts_mergePredicates sem
      hmode
      (hreport producer known inner ((hs.filter id).complete producer known hfound hdone) hinner)
    refine ⟨predicate, hfinal.innerExpr.trans hpredicate, ?_⟩
    intro other report inner row hother hinner haccepts
    obtain ⟨again, hagain, hcovers⟩ := accepts_mergePredicates sem
      hmode (hreport other report inner hother hinner)
    obtain rfl := Option.some.inj (hpredicate.symm.trans hagain)
    exact hcovers row haccepts

end DynamicFilterRegistry

/-- Predicates that list the rows they accept. -/
structure RowSet where
  rows : List ℕ
  deriving DecidableEq

namespace RowSet

instance : PhysicalExprNodes RowSet where
  binaryExpr op operands :=
    if op = "Or" then ⟨operands.flatMap rows⟩
    else ⟨(operands.flatMap rows).filter fun row => operands.all fun set => row ∈ set.rows⟩

def semantics : PredicateSemantics RowSet ℕ where
  accepts set row := row ∈ set.rows
  accepts_or operands row := by
    show row ∈ operands.flatMap rows ↔ _
    exact List.mem_flatMap

/-- A complete report on filter 1. -/
def report (set : List ℕ) : ProducedDynamicFilter RowSet where
  expressionId := 1
  expression := .ok ⟨some 1, some ⟨[], 0, some ⟨set⟩, true⟩⟩

end RowSet

namespace DynamicFilterRegistry

/-- The calls one after the other, in a query that goes on. -/
def runCalls (calls : List (RegistryCall RowSet Unit)) : DynamicFilterRegistry RowSet Unit :=
  calls.foldl (fun s call => (s.call s.quietEnv call).2) new

/-- The sender of the scan, task 0 of stage 2, is registered first. -/
theorem reachable_runCalls (calls : List (RegistryCall RowSet Unit))
    (hcalls : ∀ call ∈ calls, ∀ task sender, call ≠ .registerSender task sender) :
    (openSystem RowSet Unit).Reachable (runCalls (.registerSender ⟨2, 0⟩ 0 :: calls)) := by
  have hrun : ∀ s, (openSystem RowSet Unit).Reachable s → (openSystem RowSet Unit).Reachable
      (calls.foldl (fun s call => (s.call s.quietEnv call).2) s) := by
    induction calls with
    | nil => exact fun _ h => h
    | cons call calls ih =>
      intro s h
      refine ih (fun other hother => hcalls other (List.mem_cons_of_mem _ hother)) _
        (reachable_call h call fun task sender hcall => ?_)
      exact absurd hcall (hcalls call List.mem_cons_self task sender)
  exact hrun _ (reachable_call (.init rfl) _ fun _ _ _ _ h => by cases h)

def joinPlan : FilterPlan Unit := .node FilterPlan.filteringJoin [.node FilterPlan.plainNode []]

def scanPlan : FilterPlan Unit := .node FilterPlan.filteredScan []

/-- Two tasks of stage 1 report, and the stage is sealed at the end. -/
def twoProducers : List (RegistryCall RowSet Unit) :=
  [.registerTask scanPlan ⟨2, 0⟩, .registerTask joinPlan ⟨1, 0⟩,
    .recordDynamicFilterUpdate ⟨1, 0⟩ (RowSet.report [1]), .registerTask joinPlan ⟨1, 1⟩,
    .recordDynamicFilterUpdate ⟨1, 1⟩ (RowSet.report [2]), .sealStage 1]

/-- The second task registers when the stage is sealed and the filter is sent. -/
def lateProducer : List (RegistryCall RowSet Unit) :=
  [.registerTask scanPlan ⟨2, 0⟩, .registerTask joinPlan ⟨1, 0⟩,
    .recordDynamicFilterUpdate ⟨1, 0⟩ (RowSet.report [1]), .sealStage 1,
    .registerTask joinPlan ⟨1, 1⟩, .recordDynamicFilterUpdate ⟨1, 1⟩ (RowSet.report [2])]

/-- One task sends two different complete reports. -/
def secondReport : List (RegistryCall RowSet Unit) :=
  [.registerTask scanPlan ⟨2, 0⟩, .registerTask joinPlan ⟨1, 0⟩,
    .recordDynamicFilterUpdate ⟨1, 0⟩ (RowSet.report [1]),
    .recordDynamicFilterUpdate ⟨1, 0⟩ (RowSet.report [2]), .sealStage 1]

theorem history_twoProducers : (runCalls (.registerSender ⟨2, 0⟩ 0 :: twoProducers)).history =
    [.sent 0 ⟨2, 0⟩ ⟨1, ⟨1, ⟨[], 0, some ⟨[1, 2]⟩, true⟩⟩, ()⟩,
      .merged 1 ⟨[], 0, some ⟨[1, 2]⟩, true⟩, .sealed 1,
      .reported 1 ⟨1, 1⟩ ⟨[], 0, some ⟨[2]⟩, true⟩, .producer 1 ⟨1, 1⟩ .unionWhenAllComplete,
      .registering ⟨1, 1⟩ [1], .reported 1 ⟨1, 0⟩ ⟨[], 0, some ⟨[1]⟩, true⟩,
      .producer 1 ⟨1, 0⟩ .unionWhenAllComplete, .registering ⟨1, 0⟩ [1], .consumer 1 ⟨2, 0⟩,
      .registering ⟨2, 0⟩ [], .sender ⟨2, 0⟩ 0] := by
  rfl

theorem unionOfStage_twoProducers :
    UnionOfStage (runCalls (.registerSender ⟨2, 0⟩ 0 :: twoProducers)).history 1 1 := by
  rw [history_twoProducers]
  exact ⟨by simp [ProducedBy, or_imp, forall_and], by simp [or_imp],
    by simp [RegistersBeforeSealing]⟩

/-- The filter of two producers accepts the rows of both. -/
theorem union_filters_sound_twoProducers : ∃ s : DynamicFilterRegistry RowSet Unit,
    (system RowSet Unit).Reachable s ∧ UnionOfStage s.history 1 1 ∧
      ∃ update, .sent 0 ⟨2, 0⟩ update ∈ s.history ∧
        ∃ predicate, update.expression.filter.innerExpr = some predicate ∧
          1 ∈ predicate.rows ∧ 2 ∈ predicate.rows := by
  have hreachable := (reachable_runCalls twoProducers (by simp [twoProducers])).of_restrict
  refine ⟨_, hreachable, unionOfStage_twoProducers, _,
    by rw [history_twoProducers]; exact List.mem_cons_self, ?_⟩
  obtain ⟨predicate, hpredicate, hcovers⟩ :=
    (union_filters_sound RowSet.semantics hreachable unionOfStage_twoProducers).2 0 ⟨2, 0⟩ _
      (by rw [history_twoProducers]; exact List.mem_cons_self) rfl
  exact ⟨predicate, hpredicate,
    hcovers ⟨1, 0⟩ ⟨[], 0, some ⟨[1]⟩, true⟩ ⟨[1]⟩ 1 (by rw [history_twoProducers]; rfl) rfl
      List.mem_cons_self,
    hcovers ⟨1, 1⟩ ⟨[], 0, some ⟨[2]⟩, true⟩ ⟨[2]⟩ 2 (by rw [history_twoProducers]; rfl) rfl
      List.mem_cons_self⟩

/-- Row 2 of a complete report is not accepted by what was sent: the report of a producer that
registered when its stage was sealed, and the second complete report of a producer. -/
theorem late_reports_are_not_merged :
    RowSet.semantics.accepts ⟨[2]⟩ 2 ∧ ¬ RowSet.semantics.accepts ⟨[1]⟩ 2 ∧
    (∃ s : DynamicFilterRegistry RowSet Unit, (system RowSet Unit).Reachable s ∧
      ProducedBy s.history 1 1 ∧ .producer 1 ⟨1, 1⟩ .unionWhenAllComplete ∈ s.history ∧
      .reported 1 ⟨1, 1⟩ ⟨[], 0, some ⟨[2]⟩, true⟩ ∈ s.history ∧
      .sent 0 ⟨2, 0⟩ ⟨1, ⟨1, ⟨[], 0, some ⟨[1]⟩, true⟩⟩, ()⟩ ∈ s.history) ∧
    (∃ s : DynamicFilterRegistry RowSet Unit, (system RowSet Unit).Reachable s ∧
      UnionOfStage s.history 1 1 ∧
      .reported 1 ⟨1, 0⟩ ⟨[], 0, some ⟨[2]⟩, true⟩ ∈ s.history ∧
      .sent 0 ⟨2, 0⟩ ⟨1, ⟨1, ⟨[], 0, some ⟨[1]⟩, true⟩⟩, ()⟩ ∈ s.history) := by
  have hlate : (runCalls (.registerSender ⟨2, 0⟩ 0 :: lateProducer)).history =
      [.reported 1 ⟨1, 1⟩ ⟨[], 0, some ⟨[2]⟩, true⟩, .producer 1 ⟨1, 1⟩ .unionWhenAllComplete,
        .registering ⟨1, 1⟩ [1], .sent 0 ⟨2, 0⟩ ⟨1, ⟨1, ⟨[], 0, some ⟨[1]⟩, true⟩⟩, ()⟩,
        .merged 1 ⟨[], 0, some ⟨[1]⟩, true⟩, .sealed 1,
        .reported 1 ⟨1, 0⟩ ⟨[], 0, some ⟨[1]⟩, true⟩, .producer 1 ⟨1, 0⟩ .unionWhenAllComplete,
        .registering ⟨1, 0⟩ [1], .consumer 1 ⟨2, 0⟩, .registering ⟨2, 0⟩ [], .sender ⟨2, 0⟩ 0] :=
    rfl
  have hsecond : (runCalls (.registerSender ⟨2, 0⟩ 0 :: secondReport)).history =
      [.sent 0 ⟨2, 0⟩ ⟨1, ⟨1, ⟨[], 0, some ⟨[1]⟩, true⟩⟩, ()⟩,
        .merged 1 ⟨[], 0, some ⟨[1]⟩, true⟩, .sealed 1,
        .reported 1 ⟨1, 0⟩ ⟨[], 0, some ⟨[2]⟩, true⟩,
        .reported 1 ⟨1, 0⟩ ⟨[], 0, some ⟨[1]⟩, true⟩, .producer 1 ⟨1, 0⟩ .unionWhenAllComplete,
        .registering ⟨1, 0⟩ [1], .consumer 1 ⟨2, 0⟩, .registering ⟨2, 0⟩ [], .sender ⟨2, 0⟩ 0] :=
    rfl
  refine ⟨by show 2 ∈ [2]; simp, by show 2 ∉ [1]; simp, ?_, ?_⟩
  · refine ⟨_, (reachable_runCalls lateProducer (by simp [lateProducer])).of_restrict, ?_⟩
    rw [hlate]
    exact ⟨by simp [ProducedBy, or_imp, forall_and], by simp, by simp, by simp⟩
  · refine ⟨_, (reachable_runCalls secondReport (by simp [secondReport])).of_restrict, ?_⟩
    rw [hsecond]
    exact ⟨⟨by simp [ProducedBy], by simp, by simp [RegistersBeforeSealing]⟩, by simp, by simp⟩

end DynamicFilterRegistry

end DatafusionDistributed
