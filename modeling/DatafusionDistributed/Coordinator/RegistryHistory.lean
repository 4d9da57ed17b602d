import DatafusionDistributed.Coordinator.RegistryUpdates

/-!
# The state of the registry and its history

What the registry keeps of a filter is a function of the events that concern the filter: who has
registered, the first complete report of every producer, and the last merged filter.
-/

namespace DatafusionDistributed

open Library

namespace RegistryEvent

variable {ε S : Type}

/-- The filter whose entry the event is about. -/
def filterId : RegistryEvent ε S → Option ℕ
  | producer id _ _ | consumer id _ | reported id _ _ | merged id _ => some id
  | registering _ _ | sender _ _ | sealed _ | sent _ _ _ => none

/-- The report that the event is about. -/
def report? (id : ℕ) (task : TaskKey) : RegistryEvent ε S → Option (PhysicalDynamicFilterNode ε)
  | reported other from_ report => if other = id ∧ from_ = task then some report else none
  | _ => none

def merged? (id : ℕ) : RegistryEvent ε S → Option (PhysicalDynamicFilterNode ε)
  | merged other node => if other = id then some node else none
  | _ => none

variable {id : ℕ} {event : RegistryEvent ε S}

variable {task : TaskKey}

theorem report?_eq_some {report : PhysicalDynamicFilterNode ε} :
    event.report? id task = some report ↔ event = .reported id task report := by
  cases event <;> simp [report?, and_assoc]

theorem merged?_eq_some {node : PhysicalDynamicFilterNode ε} :
    event.merged? id = some node ↔ event = .merged id node := by
  cases event <;> simp [merged?]

theorem report?_of_filterId (h : event.filterId ≠ some id) :
    event.report? id task = none := by
  rw [Option.eq_none_iff_forall_not_mem]
  intro report hreport
  exact h (report?_eq_some.mp hreport ▸ rfl)

theorem merged?_of_filterId (h : event.filterId ≠ some id) : event.merged? id = none := by
  rw [Option.eq_none_iff_forall_not_mem]
  intro node hnode
  exact h (merged?_eq_some.mp hnode ▸ rfl)

end RegistryEvent

namespace DynamicFilterRegistry

variable {ε S : Type} {event : RegistryEvent ε S}

def reportsOf (history : List (RegistryEvent ε S)) (id : ℕ) (task : TaskKey) :
    List (PhysicalDynamicFilterNode ε) :=
  (history.filterMap (RegistryEvent.report? id task)).reverse

/-- The first complete report of a producer. -/
def finalReport (history : List (RegistryEvent ε S)) (id : ℕ) (task : TaskKey) :
    Option (PhysicalDynamicFilterNode ε) :=
  (reportsOf history id task).find? fun report => report.isComplete

section Reports

variable {history : List (RegistryEvent ε S)} {id : ℕ} {report : PhysicalDynamicFilterNode ε}

theorem finalReport_mem (h : finalReport history id task = some report) :
    .reported id task report ∈ history ∧ report.isComplete = true := by
  have hmem := List.mem_of_find?_eq_some h
  rw [reportsOf, List.mem_reverse, List.mem_filterMap] at hmem
  obtain ⟨event, hevent, hreport⟩ := hmem
  rw [RegistryEvent.report?_eq_some] at hreport
  refine ⟨hreport ▸ hevent, ?_⟩
  simpa using List.find?_some h

theorem finalReport_cons_of_none (h : event.report? id task = none) :
    finalReport (event :: history) id task = finalReport history id task := by
  rw [finalReport, reportsOf, List.filterMap_cons, h]
  rfl

/-- A report counts if it is complete and the first one. -/
theorem finalReport_reported :
    finalReport (.reported id task report :: history) id task =
      (finalReport history id task).or (if report.isComplete then some report else none) := by
  have hreport : RegistryEvent.report? id task (.reported id task report : RegistryEvent ε S) =
      some report := RegistryEvent.report?_eq_some.mpr rfl
  rw [finalReport, reportsOf, List.filterMap_cons, hreport, List.reverse_cons,
    List.find?_append]
  congr 1
  cases hcomplete : report.isComplete <;> simp [hcomplete]

theorem finalReport_reported_ne {other : TaskKey} (h : other ≠ task) :
    finalReport (.reported id other report :: history) id task = finalReport history id task := by
  apply finalReport_cons_of_none
  simp [RegistryEvent.report?, h]

end Reports

/-- What is kept of a filter follows from the history. -/
structure FilterConsistent (history : List (RegistryEvent ε S)) (id : ℕ)
    (filter : PlannedDynamicFilter ε S) : Prop where
  producer : ∀ task, task ∈ filter.producers ↔ ∃ mode, .producer id task mode ∈ history
  mode : ∀ task mode, .producer id task mode ∈ history → filter.mergeMode = some mode
  consumer : ∀ task, task ∈ filter.consumerTasks ↔ .consumer id task ∈ history
  schema : ∀ task, task ∈ filter.producers → filter.producerSchema ≠ none
  reporter : ∀ task report, .reported id task report ∈ history → task ∈ filter.producers
  reported : ∀ task report, filter.producers.lookup task = some (some report) →
    .reported id task report ∈ history ∧ report.innerExpr ≠ none
  complete : ∀ task report, filter.producers.lookup task = some (some report) →
    report.isComplete = true → finalReport history id task = some report
  final : ∀ task report, finalReport history id task = some report →
    filter.producers.lookup task = some (some report)
  merged : filter.merged = history.findSome? (RegistryEvent.merged? id)
  bytes : filter.mergedBytes = filter.merged.map fun node => ⟨id, node⟩
  mergedProducer : filter.merged ≠ none → ∃ task, task ∈ filter.producers

/-- What holds of the entries and the sealed stages in every state. -/
structure Consistent (s : DynamicFilterRegistry ε S) : Prop where
  filter : ∀ id, FilterConsistent s.history id (s.filter id)
  sealed : ∀ stage, stage ∈ s.sealedStages ↔ .sealed stage ∈ s.history

theorem filterConsistent_nil (id : ℕ) :
    FilterConsistent ([] : List (RegistryEvent ε S)) id {} where
  producer := by simp
  mode := by simp
  consumer := by simp
  schema := by simp
  reporter := by simp
  reported := by simp
  complete := by simp
  final := by simp [finalReport, reportsOf]
  merged := rfl
  bytes := rfl
  mergedProducer := by simp

theorem consistent_new : (new : DynamicFilterRegistry ε S).Consistent where
  filter id := filterConsistent_nil id
  sealed := by simp [new]

namespace FilterConsistent

variable {history : List (RegistryEvent ε S)} {id : ℕ} {filter next : PlannedDynamicFilter ε S}
  {previous : Option (PhysicalDynamicFilterNode ε)} {report : PhysicalDynamicFilterNode ε}

theorem ignores_iff [DecidableEq ε] {mode : Option DynamicFilterMergePolicy} :
    ignores mode previous report = true ↔
      (mode ≠ some .intersectOnUpdate ∧ report.isComplete = false) ∨
        ∃ known, previous = some known ∧ (known.isComplete = true ∨ known = report) := by
  cases previous <;> simp [ignores]

variable (h : FilterConsistent history id filter)
include h

/-- An event that is not about the filter. -/
theorem log (hevent : event.filterId ≠ some id) :
    FilterConsistent (event :: history) id filter := by
  have hmem : ∀ other : RegistryEvent ε S, other.filterId = some id →
      (other ∈ event :: history ↔ other ∈ history) := by
    intro other hother
    rw [List.mem_cons]
    exact or_iff_right fun heq => hevent (heq ▸ hother)
  have hfinal : ∀ task, finalReport (event :: history) id task = finalReport history id task :=
    fun task => finalReport_cons_of_none (RegistryEvent.report?_of_filterId hevent)
  exact { h with
    producer := fun task => by simp only [h.producer, hmem (.producer id task _) rfl]
    mode := fun task mode hmode => h.mode task mode ((hmem _ rfl).mp hmode)
    consumer := fun task => by rw [h.consumer, hmem _ rfl]
    reporter := fun task report hreport => h.reporter task report ((hmem _ rfl).mp hreport)
    reported := fun task report hreport => by
      rw [hmem _ rfl]
      exact h.reported task report hreport
    complete := by simpa only [hfinal] using h.complete
    final := by simpa only [hfinal] using h.final
    merged := by
      rw [List.findSome?_cons, RegistryEvent.merged?_of_filterId hevent]
      exact h.merged }

theorem refused {known : Option S}
    (hkept : filter.producerSchema ≠ none → known = filter.producerSchema) :
    FilterConsistent history id { filter with producerSchema := known } :=
  { h with
    schema := fun task htask => by
      have hschema := h.schema task htask
      rwa [hkept hschema] }

theorem registered {mode : DynamicFilterMergePolicy} {schema : S}
    (hmode : filter.mergeMode = none ∨ filter.mergeMode = some mode) :
    FilterConsistent (.producer id task mode :: history) id { filter with
      mergeMode := some mode
      producerSchema := some schema
      producers := filter.producers.orInsert task none } where
  producer other := by
    simp only [HashMap.mem_orInsert, h.producer, List.mem_cons, RegistryEvent.producer.injEq,
      true_and]
    constructor
    · rintro (rfl | ⟨known, hknown⟩)
      · exact ⟨mode, Or.inl ⟨rfl, rfl⟩⟩
      · exact ⟨known, Or.inr hknown⟩
    · rintro ⟨known, ⟨rfl, rfl⟩ | hknown⟩
      · exact Or.inl rfl
      · exact Or.inr ⟨known, hknown⟩
  mode other known hknown := by
    rcases List.mem_cons.mp hknown with heq | hknown
    · cases heq
      rfl
    · have hknown := h.mode other known hknown
      rcases hmode with hmode | hmode
      · cases hmode.symm.trans hknown
      · exact hmode.symm.trans hknown
  consumer := by simp [h.consumer]
  schema := by simp
  reporter other report hreport := by
    have hreport : .reported id other report ∈ history := by simpa using hreport
    exact HashMap.mem_orInsert.mpr (Or.inr (h.reporter other report hreport))
  reported other report hreport := by
    rcases HashMap.lookup_orInsert_cases filter.producers (task, none) other (some report)
      hreport with hreport | heq
    · simpa using h.reported other report hreport
    · cases heq
  complete other report hreport hcomplete := by
    rcases HashMap.lookup_orInsert_cases filter.producers (task, none) other (some report)
      hreport with hreport | heq
    · exact h.complete other report hreport hcomplete
    · cases heq
  final other report hreport := by
    rw [finalReport_cons_of_none rfl] at hreport
    have hmem := h.reporter other report (finalReport_mem hreport).1
    rw [HashMap.lookup_orInsert_of_mem hmem]
    exact h.final other report hreport
  merged := h.merged
  bytes := h.bytes
  mergedProducer hmerged :=
    (h.mergedProducer hmerged).imp fun _ hother => HashMap.mem_orInsert.mpr (Or.inr hother)

theorem consumed :
    FilterConsistent (.consumer id task :: history) id { filter with
      consumerTasks := filter.consumerTasks.insert task } :=
  { h with
    producer := by simp [h.producer]
    mode := by simpa using h.mode
    consumer := by simp [h.consumer]
    reporter := by simpa using h.reporter
    reported := by simpa using h.reported }

theorem mergedNode {node : PhysicalDynamicFilterNode ε}
    (hproducer : ∃ task, task ∈ filter.producers) :
    FilterConsistent (.merged id node :: history) id { filter with
      merged := some node
      mergedBytes := some ⟨id, node⟩ } :=
  { h with
    producer := by simp [h.producer]
    mode := by simpa using h.mode
    consumer := by simp [h.consumer]
    reporter := by simpa using h.reporter
    reported := by simpa using h.reported
    merged := by simp [RegistryEvent.merged?]
    bytes := rfl
    mergedProducer := fun _ => hproducer }

theorem finalReport_eq_none
    (hprevious : filter.producers.lookup task = some previous)
    (hincomplete : ∀ report, previous = some report → report.isComplete = false) :
    finalReport history id task = none := by
  rw [Option.eq_none_iff_forall_not_mem]
  intro report hreport
  have hlookup := h.final task report hreport
  have hcomplete := (finalReport_mem hreport).2
  rw [hincomplete report (Option.some.inj (hprevious.symm.trans hlookup))] at hcomplete
  cases hcomplete

section Reports

variable [DecidableEq ε]

theorem ignoredReport (hprevious : filter.producers.lookup task = some previous)
    (hignores : ignores filter.mergeMode previous report = true) :
    FilterConsistent (.reported id task report :: history) id filter := by
  have hfinal : ∀ other, finalReport (.reported id task report :: history) id other =
      finalReport history id other := by
    intro other
    by_cases heq : task = other
    · subst heq
      rw [finalReport_reported]
      cases hfirst : finalReport history id task with
      | some first => rfl
      | none =>
        have hunfinished : ∀ known, previous = some known → known.isComplete = false := by
          rintro known rfl
          refine Bool.eq_false_iff.mpr fun hcomplete => ?_
          rw [h.complete task known hprevious hcomplete] at hfirst
          cases hfirst
        have hincomplete : report.isComplete = false := by
          rcases ignores_iff.mp hignores with ⟨-, hincomplete⟩ | ⟨known, hknown, hdone | rfl⟩
          · exact hincomplete
          · rw [hunfinished known hknown] at hdone
            cases hdone
          · exact hunfinished known hknown
        simp [hincomplete]
    · exact finalReport_reported_ne heq
  exact { h with
    producer := by simp [h.producer]
    mode := by simpa using h.mode
    consumer := by simp [h.consumer]
    reporter := fun other known hknown => by
      rcases List.mem_cons.mp hknown with heq | hknown
      · cases heq
        exact HashMap.mem_iff_exists_lookup.mpr ⟨previous, hprevious⟩
      · exact h.reporter other known hknown
    reported := fun other known hknown => by
      obtain ⟨hmem, hinner⟩ := h.reported other known hknown
      exact ⟨List.mem_cons_of_mem _ hmem, hinner⟩
    complete := by simpa only [hfinal] using h.complete
    final := by simpa only [hfinal] using h.final }

/-- A report that is stored is the first complete one if it is complete. -/
theorem storedReport (hprevious : filter.producers.lookup task = some previous)
    (hinner : report.innerExpr ≠ none)
    (haccepts : ignores filter.mergeMode previous report = false) :
    FilterConsistent (.reported id task report :: history) id { filter with
      producers := filter.producers.insert task (some report) } := by
  have htask : task ∈ filter.producers := HashMap.mem_iff_exists_lookup.mpr ⟨previous, hprevious⟩
  have hunfinished : finalReport history id task = none := by
    apply h.finalReport_eq_none hprevious
    refine fun known hknown => Bool.eq_false_iff.mpr fun hcomplete => ?_
    rw [ignores_iff.mpr (Or.inr ⟨known, hknown, Or.inl hcomplete⟩)] at haccepts
    cases haccepts
  have hfinal : finalReport (.reported id task report :: history) id task =
      if report.isComplete then some report else none := by
    rw [finalReport_reported, hunfinished, Option.none_or]
  have hmem : ∀ other, other ∈ filter.producers.insert task (some report) ↔
      other ∈ filter.producers := by
    intro other
    rw [AList.mem_insert]
    exact or_iff_right_of_imp fun heq => heq ▸ htask
  exact { h with
    producer := by simp [hmem, h.producer]
    mode := by simpa using h.mode
    consumer := by simp [h.consumer]
    schema := fun other hother => h.schema other ((hmem other).mp hother)
    reporter := fun other known hknown => by
      rw [hmem]
      rcases List.mem_cons.mp hknown with heq | hknown
      · cases heq
        exact htask
      · exact h.reporter other known hknown
    reported := fun other known hknown => by
      by_cases heq : other = task
      · subst heq
        rw [AList.lookup_insert] at hknown
        cases hknown
        exact ⟨List.mem_cons_self, hinner⟩
      · rw [AList.lookup_insert_ne heq] at hknown
        obtain ⟨hmem, hinner⟩ := h.reported other known hknown
        exact ⟨List.mem_cons_of_mem _ hmem, hinner⟩
    complete := fun other known hknown hcomplete => by
      by_cases heq : other = task
      · subst heq
        rw [AList.lookup_insert] at hknown
        cases hknown
        rw [hfinal, if_pos hcomplete]
      · rw [AList.lookup_insert_ne heq] at hknown
        rw [finalReport_reported_ne (Ne.symm heq)]
        exact h.complete other known hknown hcomplete
    final := fun other known hknown => by
      by_cases heq : other = task
      · subst heq
        rw [hfinal, Option.ite_none_right_eq_some] at hknown
        rw [AList.lookup_insert, hknown.2]
      · rw [finalReport_reported_ne (Ne.symm heq)] at hknown
        rw [AList.lookup_insert_ne heq]
        exact h.final other known hknown
    mergedProducer := fun hmerged => (h.mergedProducer hmerged).imp fun other => (hmem other).mpr }

end Reports

end FilterConsistent

section Merge

variable {filter : PlannedDynamicFilter ε S} {sealedStages : List ℕ}
  {node : PhysicalDynamicFilterNode ε}

theorem mem_reports {report : PhysicalDynamicFilterNode ε} :
    (task, report) ∈ filter.reports ↔ filter.producers.lookup task = some (some report) := by
  rw [PlannedDynamicFilter.reports, ← Option.mem_def, AList.mem_lookup_iff]
  simp [Sigma.exists]

/-- The producers are there, their stages are sealed, and their last reports have come. -/
theorem allComplete_iff :
    filter.allComplete sealedStages = true ↔
      (∃ task, task ∈ filter.producers) ∧
        ∀ task report, filter.producers.lookup task = some report →
          task.stageId ∈ sealedStages ∧ ∃ known, report = some known ∧ known.isComplete = true := by
  have hempty : filter.producers.entries.isEmpty = false ↔ ∃ task, task ∈ filter.producers := by
    constructor
    · intro h
      obtain ⟨entry, hentry⟩ := List.exists_mem_of_ne_nil _ (List.isEmpty_eq_false_iff.mp h)
      exact ⟨entry.1, List.mem_keys_of_mem hentry⟩
    · rintro ⟨task, htask⟩
      obtain ⟨report, hreport⟩ := List.mem_keys.mp htask
      exact List.isEmpty_eq_false_iff.mpr (List.ne_nil_of_mem hreport)
  rw [PlannedDynamicFilter.allComplete, Bool.and_eq_true, Bool.not_eq_true', hempty,
    List.all_eq_true]
  simp only [Bool.and_eq_true, decide_eq_true_eq, Option.any_eq_true]
  refine and_congr_right fun _ => ⟨fun h task report hreport => ?_, ?_⟩
  · exact h ⟨task, report⟩ (AList.mem_lookup_iff.mp hreport)
  · rintro h ⟨task, report⟩ hentry
    exact h task report (AList.mem_lookup_iff.mpr hentry)

variable [PhysicalExprNodes ε]

/-- The predicate and the flag that the current reports give. -/
structure Merges (filter : PlannedDynamicFilter ε S) (sealedStages : List ℕ)
    (mode : DynamicFilterMergePolicy) (node : PhysicalDynamicFilterNode ε) : Prop where
  innerExpr : node.innerExpr =
    mergePredicates ((filter.mergedReports mode).filterMap fun entry => entry.2.innerExpr) mode
  isComplete : node.isComplete =
    (decide (mode = .forwardFirstComplete) || filter.allComplete sealedStages)

variable [DecidableEq ε]

/-- What a merge that changes the filter has found: a last merged filter is incomplete, and says
something else. -/
theorem mergeReports_some (h : filter.mergeReports sealedStages = some node) :
    ∃ mode, filter.mergeMode = some mode ∧
      (∀ previous, filter.merged = some previous → previous.isComplete = false ∧
        ¬ (previous.innerExpr = node.innerExpr ∧ previous.isComplete = node.isComplete)) ∧
      (mode = .unionWhenAllComplete → filter.allComplete sealedStages = true) ∧
      filter.reports ≠ [] ∧ Merges filter sealedStages mode node ∧
      node.generation = filter.merged.elim 0 fun previous => previous.generation + 1 := by
  obtain ⟨hprevious, h⟩ := Option.ite_none_left_eq_some.mp h
  split at h
  · cases h
  · rename_i mode hmode
    obtain ⟨hready, h⟩ := Option.ite_none_left_eq_some.mp h
    split at h
    · cases h
    · rename_i task template rest hreports
      obtain ⟨hsame, h⟩ := Option.ite_none_left_eq_some.mp h
      cases h
      refine ⟨mode, hmode, ?_, ?_, ?_, ⟨rfl, rfl⟩, rfl⟩
      · intro previous hmerged
        rw [hmerged] at hprevious hsame
        exact ⟨by simpa using hprevious, by simpa using hsame⟩
      · intro hunion
        by_contra hcomplete
        exact hready ⟨hunion, Bool.eq_false_iff.mpr hcomplete⟩
      · intro hnil
        rw [PlannedDynamicFilter.mergedReports, hnil] at hreports
        simp at hreports

/-- A merge that changes nothing finds the last merge complete or up to date, or finds too little to
merge. -/
theorem mergeReports_none (h : filter.mergeReports sealedStages = none)
    {mode : DynamicFilterMergePolicy} (hmode : filter.mergeMode = some mode)
    (hready : mode = .unionWhenAllComplete → filter.allComplete sealedStages = true)
    (hreports : filter.reports ≠ []) :
    ∃ previous, filter.merged = some previous ∧
      (previous.isComplete = true ∨ Merges filter sealedStages mode previous) := by
  unfold PlannedDynamicFilter.mergeReports at h
  split at h
  · rename_i hprevious
    obtain ⟨previous, hmerged, hcomplete⟩ := (Option.any_eq_true _ _).mp hprevious
    exact ⟨previous, hmerged, Or.inl hcomplete⟩
  · rw [hmode] at h
    dsimp only at h
    split at h
    · rename_i hwait
      rw [hready hwait.1] at hwait
      cases hwait.2
    · split at h
      · rename_i hnil
        unfold PlannedDynamicFilter.mergedReports at hnil
        split at hnil
        · rw [List.take_eq_nil_iff] at hnil
          exact absurd (hnil.resolve_left Nat.one_ne_zero) hreports
        · exact absurd hnil hreports
      · split at h
        · rename_i hsame
          obtain ⟨previous, hmerged, hsame⟩ := (Option.any_eq_true _ _).mp hsame
          simp only [Bool.and_eq_true, decide_eq_true_eq, beq_iff_eq] at hsame
          exact ⟨previous, hmerged, Or.inr ⟨hsame.1, hsame.2⟩⟩
        · cases h

end Merge

section Consistent

variable {s next : DynamicFilterRegistry ε S} {id : ℕ}

theorem exists_producer_of_reports {filter : PlannedDynamicFilter ε S} (h : filter.reports ≠ []) :
    ∃ task, task ∈ filter.producers := by
  obtain ⟨⟨task, report⟩, hentry⟩ := List.exists_mem_of_ne_nil _ h
  exact ⟨task, HashMap.mem_iff_exists_lookup.mpr ⟨_, mem_reports.mp hentry⟩⟩

theorem Consistent.setFilter (hs : s.Consistent) {filter : PlannedDynamicFilter ε S}
    (hfilters : ∀ other, other ≠ id → next.filter other = s.filter other)
    (hfilter : next.filter id = filter) (hhistory : next.history = event :: s.history)
    (hsealed : next.sealedStages = s.sealedStages) (hevent : event.filterId = some id)
    (h : FilterConsistent (event :: s.history) id filter) : next.Consistent where
  filter other := by
    rw [hhistory]
    by_cases heq : other = id
    · subst heq
      rwa [hfilter]
    · rw [hfilters other heq]
      apply (hs.filter other).log
      rw [hevent]
      exact fun h => heq (Option.some.inj h).symm
  sealed stage := by
    rw [hsealed, hhistory, hs.sealed, List.mem_cons]
    refine (or_iff_right ?_).symm
    rintro rfl
    cases hevent

theorem Consistent.log (hs : s.Consistent)
    (hfilters : next.filters = s.filters) (hhistory : next.history = event :: s.history)
    (hevent : event.filterId = none) (hsealed : ∀ stage, stage ∈ next.sealedStages ↔
      stage ∈ s.sealedStages ∨ event = .sealed stage) : next.Consistent where
  filter other := by
    rw [hhistory, filter_of_filters_eq hfilters]
    apply (hs.filter other).log
    rw [hevent]
    exact Option.some_ne_none other |>.symm
  sealed stage := by
    rw [hsealed, hhistory, List.mem_cons, hs.sealed, or_comm, @eq_comm _ event]

variable [PhysicalExprNodes ε] [DecidableEq ε]

theorem Consistent.update (hs : s.Consistent) (h : Update s next) : next.Consistent := by
  cases h with
  | registering task produced => exact hs.log rfl rfl rfl (by simp [DynamicFilterRegistry.log])
  | refused id known hkept =>
    refine ⟨fun other => ?_, hs.sealed⟩
    by_cases heq : other = id
    · subst heq
      rw [filter_setFilter]
      exact (hs.filter other).refused hkept
    · rw [filter_setFilter_ne heq]
      exact hs.filter other
  | producer id task mode schema hmode _ =>
    exact hs.setFilter (fun _ => filter_setFilter_ne) filter_setFilter rfl rfl rfl
      ((hs.filter id).registered hmode)
  | consumer id task =>
    exact hs.setFilter (fun _ => filter_setFilter_ne) filter_setFilter rfl rfl rfl
      (hs.filter id).consumed
  | sender task sender => exact hs.log rfl rfl rfl (by simp [DynamicFilterRegistry.log])
  | sealed stage =>
    refine hs.log rfl rfl rfl fun other => ?_
    simp [DynamicFilterRegistry.log, or_comm, eq_comm]
  | ignored id task report previous hfound hignores =>
    exact hs.setFilter (fun _ _ => rfl) rfl rfl rfl rfl
      ((hs.filter id).ignoredReport hfound hignores)
  | stored id task report previous hfound hinner haccepts =>
    exact hs.setFilter (fun _ => filter_setFilter_ne) filter_setFilter rfl rfl rfl
      ((hs.filter id).storedReport hfound hinner haccepts)
  | merged id node hchanged =>
    obtain ⟨mode, -, -, -, hreports, -⟩ := mergeReports_some hchanged
    exact hs.setFilter (fun _ => filter_setMerged_ne) filter_setMerged rfl rfl rfl
      ((hs.filter id).mergedNode (exists_producer_of_reports hreports))
  | sent id task sender expression schema =>
    exact hs.log rfl rfl rfl (by simp [DynamicFilterRegistry.log])

theorem history_of_update (h : Update s next) :
    next.history = s.history ∨ ∃ event, next.history = event :: s.history := by
  cases h with
  | refused => exact Or.inl rfl
  | _ => exact Or.inr ⟨_, rfl⟩

theorem merged_of_update (h : Update s next) :
    (next.filter id).merged = (s.filter id).merged ∨
      ∃ node, (s.filter id).mergeReports s.sealedStages = some node ∧
        (next.filter id).merged = some node ∧ next.history = .merged id node :: s.history := by
  cases h with
  | refused | producer | consumer | stored =>
    exact Or.inl (filter_setFilter_imp (·.merged = (s.filter id).merged) rfl fun h => h)
  | merged other node hchanged =>
    by_cases heq : id = other
    · subst heq
      exact Or.inr ⟨node, hchanged, by simp, rfl⟩
    · rw [filter_log, filter_setMerged_ne heq]
      exact Or.inl rfl
  | _ => exact Or.inl rfl

theorem sent_of_update (hs : s.Consistent) (h : Update s next) {sender : ℕ}
    {update : ApplyDynamicFilter ε S} (hsent : .sent sender task update ∈ next.history) :
    .sent sender task update ∈ s.history ∨
      (next.history = .sent sender task update :: s.history ∧ next.filters = s.filters ∧
        (s.filter update.expressionId).merged = some update.expression.filter) := by
  cases h with
  | refused => exact Or.inl hsent
  | sent id other known expression schema hbytes =>
    rcases List.mem_cons.mp hsent with heq | hsent
    · cases heq
      rw [(hs.filter id).bytes] at hbytes
      obtain ⟨node, hnode, rfl⟩ := Option.map_eq_some_iff.mp hbytes
      exact Or.inr ⟨rfl, rfl, hnode⟩
    · exact Or.inl hsent
  | _ =>
    rcases List.mem_cons.mp hsent with heq | hsent
    · cases heq
    · exact Or.inl hsent

theorem consistent_of_reachable [DecidableEq S] (h : (system ε S).Reachable s) : s.Consistent :=
  invariant_of_update consistent_new (fun _ _ hs hupdate => hs.update hupdate) h

end Consistent

end DynamicFilterRegistry

end DatafusionDistributed
