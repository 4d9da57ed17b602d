import DatafusionDistributed.Coordinator.FilterDelivery

/-!
# The merged filter does not depend on the order of the reports

Two runs in which the producers of a filter send the same reports end with the same merged predicate
and the same flag, in whatever order the registrations, the reports and the sealing come. Between
two calls the merged filter is up to date with the reports that are kept, and a complete one stands
for the final report of every producer, in the order of the tasks.
-/

namespace DatafusionDistributed

open Library

namespace TaskKey

theorem le_total (a b : TaskKey) : a.le b ∨ b.le a := by
  unfold le
  omega

theorem le_trans {a b c : TaskKey} (hab : a.le b) (hbc : b.le c) : a.le c := by
  unfold le at *
  omega

theorem le_antisymm {a b : TaskKey} (hab : a.le b) (hba : b.le a) : a = b := by
  obtain ⟨stage, number⟩ := a
  obtain ⟨other, last⟩ := b
  unfold le at hab hba
  dsimp only at hab hba
  obtain ⟨rfl, rfl⟩ : stage = other ∧ number = last := by omega
  rfl

end TaskKey

namespace PlannedDynamicFilter

variable {ε S : Type}

theorem pairwise_reports (self : PlannedDynamicFilter ε S) :
    self.reports.Pairwise fun a b => a.1.le b.1 := by
  have : Std.Total fun a b : TaskKey × PhysicalDynamicFilterNode ε => a.1.le b.1 :=
    ⟨fun a b => TaskKey.le_total a.1 b.1⟩
  have : IsTrans (TaskKey × PhysicalDynamicFilterNode ε) fun a b => a.1.le b.1 :=
    ⟨fun _ _ _ => TaskKey.le_trans⟩
  exact List.pairwise_insertionSort _ _

theorem nodup_reports (self : PlannedDynamicFilter ε S) : self.reports.Nodup := by
  rw [reports, (List.perm_insertionSort _ _).nodup_iff]
  have hkeys := List.nodupKeys_iff_pairwise.mp self.producers.nodupKeys
  refine List.Pairwise.filterMap _ ?_ hkeys
  intro a b hne report hreport other hother heq
  obtain ⟨known, -, rfl⟩ := Option.map_eq_some_iff.mp hreport
  obtain ⟨last, -, rfl⟩ := Option.map_eq_some_iff.mp hother
  exact hne (congrArg Prod.fst heq)

/-- The reports, as a list, follow from the report that is kept of each producer. -/
theorem reports_eq_of_lookup {self other : PlannedDynamicFilter ε S}
    (h : ∀ task report, self.producers.lookup task = some (some report) ↔
      other.producers.lookup task = some (some report)) : self.reports = other.reports := by
  have hmem : ∀ entry, entry ∈ self.reports ↔ entry ∈ other.reports := by
    rintro ⟨task, report⟩
    rw [DynamicFilterRegistry.mem_reports, DynamicFilterRegistry.mem_reports]
    exact h task report
  have hperm := (List.perm_ext_iff_of_nodup self.nodup_reports other.nodup_reports).mpr hmem
  refine hperm.eq_of_pairwise ?_ self.pairwise_reports other.pairwise_reports
  rintro ⟨task, report⟩ ⟨last, known⟩ hreport hknown hle hge
  obtain rfl : task = last := TaskKey.le_antisymm hle hge
  have hreport := (h task report).mp (DynamicFilterRegistry.mem_reports.mp hreport)
  have hsame := hreport.symm.trans (DynamicFilterRegistry.mem_reports.mp hknown)
  cases hsame
  rfl

section Merge

variable [PhysicalExprNodes ε] [DecidableEq ε] {self next : PlannedDynamicFilter ε S}
  {sealedStages : List ℕ}

/-- There is nothing to merge: too little is known, or the merged filter is complete or says what
the reports say. -/
theorem mergeReports_eq_none_iff : self.mergeReports sealedStages = none ↔
    ∀ mode, self.mergeMode = some mode →
      (mode = .unionWhenAllComplete → self.allComplete sealedStages = true) → self.reports ≠ [] →
      ∃ previous, self.merged = some previous ∧ (previous.isComplete = true ∨
        DynamicFilterRegistry.Merges self sealedStages mode previous) := by
  constructor
  · intro h mode hmode hready hreports
    exact DynamicFilterRegistry.mergeReports_none h hmode hready hreports
  · intro h
    rw [Option.eq_none_iff_forall_not_mem]
    intro node hnode
    obtain ⟨mode, hmode, hprevious, hready, hreports, hnew, -⟩ :=
      DynamicFilterRegistry.mergeReports_some hnode
    obtain ⟨previous, hmerged, hcomplete | hold⟩ := h mode hmode hready hreports
    · rw [(hprevious previous hmerged).1] at hcomplete
      cases hcomplete
    · exact (hprevious previous hmerged).2
        ⟨hold.innerExpr.trans hnew.innerExpr.symm, hold.isComplete.trans hnew.isComplete.symm⟩

theorem mergeReports_merged {node : PhysicalDynamicFilterNode ε}
    (h : self.mergeReports sealedStages = some node) (bytes : Option (EncodedDynamicFilter ε)) :
    ({ self with merged := some node, mergedBytes := bytes }).mergeReports sealedStages = none := by
  obtain ⟨mode, hmode, -, -, -, hmerges, -⟩ := DynamicFilterRegistry.mergeReports_some h
  refine mergeReports_eq_none_iff.mpr fun other hother _ _ => ⟨node, rfl, Or.inr ?_⟩
  obtain rfl : mode = other := Option.some.inj (hmode.symm.trans hother)
  exact ⟨hmerges.innerExpr, hmerges.isComplete⟩

/-- A producer that has not reported adds nothing to merge. -/
theorem mergeReports_registered (h : self.mergeReports sealedStages = none)
    {mode : DynamicFilterMergePolicy} {task : TaskKey}
    (hmode : self.mergeMode = none ∨ self.mergeMode = some mode)
    (hknown : ∀ other ∈ self.producers, self.mergeMode ≠ none)
    (hnext : next.mergeMode = some mode) (hlast : next.merged = self.merged)
    (hproducers : next.producers = self.producers.orInsert task none) :
    next.mergeReports sealedStages = none := by
  rw [mergeReports_eq_none_iff] at h ⊢
  intro other hother hready hreports
  obtain rfl : mode = other := Option.some.inj (hnext.symm.trans hother)
  have hsame : next.reports = self.reports := by
    refine reports_eq_of_lookup fun other report => ?_
    rw [hproducers]
    by_cases heq : other = task
    · subst heq
      by_cases htask : other ∈ self.producers
      · rw [HashMap.lookup_orInsert_of_mem htask]
      · rw [HashMap.lookup_orInsert_of_notMem htask, AList.lookup_eq_none.mpr htask]
        simp
    · rw [HashMap.lookup_orInsert_ne heq]
  have hcomplete : next.allComplete sealedStages = true →
      self.allComplete sealedStages = true := by
    intro hall
    obtain ⟨-, hall⟩ := DynamicFilterRegistry.allComplete_iff.mp hall
    rw [hproducers] at hall
    have htask : task ∈ self.producers := by
      by_contra htask
      obtain ⟨-, report, hreport, -⟩ :=
        hall task none (HashMap.lookup_orInsert_of_notMem htask)
      cases hreport
    refine DynamicFilterRegistry.allComplete_iff.mpr ⟨⟨task, htask⟩, fun other report hreport => ?_⟩
    refine hall other report ?_
    rwa [HashMap.lookup_orInsert_of_mem (HashMap.mem_iff_exists_lookup.mpr ⟨_, hreport⟩)]
  rw [hsame] at hreports
  obtain ⟨producer, hproducer⟩ := DynamicFilterRegistry.exists_producer_of_reports hreports
  obtain ⟨previous, hmerged, hdone⟩ := h mode (hmode.resolve_left (hknown producer hproducer))
    (fun hunion => hcomplete (hready hunion)) hreports
  refine ⟨previous, hlast.trans hmerged, ?_⟩
  rcases hdone with hdone | hmerges
  · exact Or.inl hdone
  · by_cases hdone : previous.isComplete = true
    · exact Or.inl hdone
    · have hflag := hmerges.isComplete
      refine Or.inr ⟨?_, ?_⟩
      · rw [hmerges.innerExpr, mergedReports, mergedReports, hsame]
      · -- neither before nor after are all producers complete
        rw [hflag] at hdone ⊢
        rw [Bool.not_eq_true, Bool.or_eq_false_iff] at hdone
        rw [hdone.2]
        congr 1
        symm
        rw [Bool.eq_false_iff]
        exact fun hall => Bool.false_ne_true (hdone.2.symm.trans (hcomplete hall))

end Merge

end PlannedDynamicFilter

namespace DynamicFilterRegistry

variable {ε S : Type}

section AllDone

variable {s : DynamicFilterRegistry ε S} {id stage : ℕ} {task : TaskKey}
  {mode : DynamicFilterMergePolicy}

/-- The producers of the filter are tasks of the stage and merged by the policy. They were
registered before the stage was sealed, and the last report of each of them is complete. -/
structure AllDone (history : List (RegistryEvent ε S)) (id stage : ℕ)
    (mode : DynamicFilterMergePolicy) : Prop where
  produced : ProducedBy history id stage
  policy : ∀ task other, .producer id task other ∈ history → other = mode
  sealing : RegistersBeforeSealing history id
  sealed : .sealed stage ∈ history
  complete : ∀ task, .producer id task mode ∈ history →
    ∃ report, (reportsOf history id task).getLast? = some report ∧ report.isComplete = true

theorem AllDone.final (h : AllDone s.history id stage mode) (hs : s.Consistent)
    (htask : task ∈ (s.filter id).producers) :
    ∃ report, finalReport s.history id task = some report := by
  obtain ⟨other, hother⟩ := ((hs.filter id).producer task).mp htask
  obtain rfl := h.policy task other hother
  obtain ⟨report, hlast, hcomplete⟩ := h.complete task hother
  rw [← Option.isSome_iff_exists, finalReport, List.find?_isSome]
  exact ⟨report, List.mem_of_getLast? hlast, hcomplete⟩

theorem AllDone.lookup (h : AllDone s.history id stage mode) (hs : s.Consistent) (task : TaskKey)
    (report : PhysicalDynamicFilterNode ε) :
    (s.filter id).producers.lookup task = some (some report) ↔
      finalReport s.history id task = some report := by
  refine ⟨fun hlookup => ?_, (hs.filter id).final task report⟩
  obtain ⟨final, hfinal⟩ := h.final hs (HashMap.mem_iff_exists_lookup.mpr ⟨_, hlookup⟩)
  have hsame := ((hs.filter id).final task final hfinal).symm.trans hlookup
  cases hsame
  exact hfinal

end AllDone

variable [PhysicalExprNodes ε] [DecidableEq ε] {s next : DynamicFilterRegistry ε S} {id : ℕ}
  {task : TaskKey} {env : CallEnv}

/-- Merging the filter again would change nothing. -/
def UpToDate (s : DynamicFilterRegistry ε S) (id : ℕ) : Prop :=
  (s.filter id).mergeReports s.sealedStages = none

section UpToDate

theorem upToDate_new (id : ℕ) : (new : DynamicFilterRegistry ε S).UpToDate id :=
  rfl

/-- A merge reads the reports, the policy and the last merge. -/
theorem UpToDate.of_same (h : s.UpToDate id)
    (hproducers : (next.filter id).producers = (s.filter id).producers)
    (hmode : (next.filter id).mergeMode = (s.filter id).mergeMode)
    (hmerged : (next.filter id).merged = (s.filter id).merged)
    (hsealed : next.sealedStages = s.sealedStages) : next.UpToDate id := by
  unfold UpToDate PlannedDynamicFilter.mergeReports PlannedDynamicFilter.mergedReports
    PlannedDynamicFilter.reports PlannedDynamicFilter.allComplete at h ⊢
  rw [hproducers, hmode, hmerged, hsealed]
  exact h

theorem UpToDate.of_filter (h : s.UpToDate id) (hfilter : next.filter id = s.filter id)
    (hsealed : next.sealedStages = s.sealedStages) : next.UpToDate id :=
  h.of_same (by rw [hfilter]) (by rw [hfilter]) (by rw [hfilter]) hsealed

theorem UpToDate.setFilter {other : ℕ} (h : s.UpToDate id) {filter : PlannedDynamicFilter ε S}
    (hfilter : id = other → filter.mergeReports s.sealedStages = none) :
    (s.setFilter other filter).UpToDate id := by
  by_cases heq : id = other
  · subst heq
    rw [UpToDate, filter_setFilter]
    exact hfilter rfl
  · exact h.of_filter (filter_setFilter_ne heq) rfl

theorem upToDate_registerProducers [DecidableEq S]
    {producers : List (ℕ × DynamicFilterMergePolicy × S)} {result : Result Unit}
    (h : registerProducers task producers s = (result, next)) (hs : s.Consistent)
    (hold : s.UpToDate id) : next.UpToDate id := by
  induction producers generalizing s with
  | nil =>
    cases h
    exact hold
  | cons entry producers ih =>
    obtain ⟨other, mode, schema⟩ := entry
    rw [registerProducers] at h
    split at h
    · rename_i e filter hfilter
      cases h
      obtain ⟨known, rfl, -⟩ := PlannedDynamicFilter.registerProducer_error hfilter
      refine hold.setFilter fun heq => ?_
      subst heq
      exact hold
    · rename_i filter hfilter
      obtain ⟨hmode, hschema, rfl⟩ := PlannedDynamicFilter.registerProducer_ok hfilter
      refine ih h (hs.update (.producer other task mode schema hmode hschema)) ?_
      refine UpToDate.of_filter (hold.setFilter fun heq => ?_) rfl rfl
      subst heq
      refine PlannedDynamicFilter.mergeReports_registered hold hmode
        (fun producer hproducer => ?_) rfl rfl rfl
      obtain ⟨known, hknown⟩ := ((hs.filter id).producer producer).mp hproducer
      rw [(hs.filter id).mode producer known hknown]
      exact Option.some_ne_none known

theorem upToDate_registerConsumers {consumers : List ℕ} (hold : s.UpToDate id) :
    (registerConsumers task consumers s).UpToDate id := by
  induction consumers generalizing s with
  | nil => exact hold
  | cons other consumers ih =>
    refine ih (UpToDate.of_filter (hold.setFilter fun heq => ?_) rfl rfl)
    subst heq
    exact hold

theorem upToDate_registerTask [DecidableEq S] (hs : s.Consistent) (hold : s.UpToDate id)
    (plan : FilterPlan S) (task : TaskKey) : (s.registerTask plan task).2.UpToDate id := by
  unfold registerTask
  split
  · exact hold
  · split
    · exact hold
    · dsimp only
      split
      · rename_i hproducers
        exact upToDate_registerProducers hproducers (hs.update (.registering task _)) hold
      · rename_i hproducers
        exact upToDate_registerConsumers
          (upToDate_registerProducers hproducers (hs.update (.registering task _)) hold)

theorem UpToDate.dispatch {other : ℕ} (h : s.UpToDate id) : (s.dispatch env other).2.UpToDate id :=
  h.of_filter (filter_of_filters_eq (sameButDelivered_dispatch s env other).filters id)
    (sameButDelivered_dispatch s env other).sealedStages

theorem UpToDate.dispatchAll {ids : List ℕ} (h : s.UpToDate id) :
    (dispatchAll env ids s).2.UpToDate id := by
  induction ids generalizing s with
  | nil => exact h
  | cons other ids ih =>
    have hnext : (s.dispatch env other).2.UpToDate id := h.dispatch
    rw [DynamicFilterRegistry.dispatchAll]
    generalize s.dispatch env other = dispatched at hnext
    obtain ⟨_ | _, mid⟩ := dispatched
    · exact hnext
    · exact ih hnext

theorem upToDate_merge (s : DynamicFilterRegistry ε S) (id : ℕ) :
    (s.merge id).2.UpToDate id ∧ ∀ other, s.UpToDate other → (s.merge id).2.UpToDate other := by
  have hmerged : (s.merge id).2.UpToDate id ∧ ∀ other, other ≠ id → s.UpToDate other →
      (s.merge id).2.UpToDate other := by
    unfold merge
    split
    · rename_i hnone
      refine ⟨?_, fun _ _ h => h⟩
      rw [UpToDate, DynamicFilterRegistry.filter, hnone]
      rfl
    · rename_i filter hfilter
      obtain rfl := filter_of_lookup hfilter
      split
      · rename_i hnone
        exact ⟨hnone, fun _ _ h => h⟩
      · rename_i node hnode
        constructor
        · rw [UpToDate, filter_log, filter_setMerged]
          exact PlannedDynamicFilter.mergeReports_merged hnode _
        · intro other hne h
          exact h.of_filter (filter_setMerged_ne hne) rfl
  refine ⟨hmerged.1, fun other h => ?_⟩
  by_cases heq : other = id
  · rw [heq]
    exact hmerged.1
  · exact hmerged.2 other heq h

theorem upToDate_mergeAndDispatch (s : DynamicFilterRegistry ε S) (env : CallEnv) (id : ℕ) :
    (s.mergeAndDispatch env id).2.UpToDate id ∧
      ∀ other, s.UpToDate other → (s.mergeAndDispatch env id).2.UpToDate other := by
  have hmerge := upToDate_merge s id
  unfold mergeAndDispatch
  split
  · rename_i next hnext
    rw [hnext] at hmerge
    exact ⟨hmerge.1.dispatch, fun other h => (hmerge.2 other h).dispatch⟩
  · rename_i next hnext
    rw [hnext] at hmerge
    exact hmerge

/-- A loop over the filters that is not cut short leaves all of them up to date. -/
theorem upToDate_mergeAndDispatchAll {ids : List ℕ} {result : Result Unit}
    (hrun : mergeAndDispatchAll env ids s = (result, next)) :
    (∀ id, s.UpToDate id → next.UpToDate id) ∧
      (result = .ok () → ∀ id ∈ ids, next.UpToDate id) := by
  induction ids generalizing s with
  | nil =>
    cases hrun
    exact ⟨fun _ h => h, by simp⟩
  | cons id ids ih =>
    have hmid := upToDate_mergeAndDispatch s env id
    rw [mergeAndDispatchAll] at hrun
    generalize s.mergeAndDispatch env id = merged at hmid hrun
    obtain ⟨_ | _, mid⟩ := merged
    · cases hrun
      exact ⟨hmid.2, fun h => by cases h⟩
    · obtain ⟨hkept, hall⟩ := ih hrun
      refine ⟨fun other h => hkept other (hmid.2 other h), fun hok => ?_⟩
      exact List.forall_mem_cons.mpr ⟨hkept id hmid.1, hall hok⟩

theorem upToDate_recordReport (hold : s.UpToDate id) {other : ℕ}
    {report : PhysicalDynamicFilterNode ε} :
    (s.recordReport env task other report).2.UpToDate id := by
  unfold recordReport
  split
  · exact hold
  · rename_i filter hfilter
    obtain rfl := filter_of_lookup hfilter
    split
    · exact hold
    · split
      · exact hold
      · obtain ⟨hsame, hkept⟩ := upToDate_mergeAndDispatch
          ((s.log (.reported other task report)).setFilter other { s.filter other with
            producers := (s.filter other).producers.insert task (some report) }) env other
        by_cases heq : id = other
        · rw [heq]
          exact hsame
        · exact hkept id (hold.of_filter (filter_setFilter_ne heq) rfl)

end UpToDate

/-- Between two calls: all filters are up to date, and complete ones are final. -/
structure Settled (s : DynamicFilterRegistry ε S) : Prop where
  consistent : s.Consistent
  upToDate : ∀ id, s.UpToDate id
  settles : ∀ id stage, ProducedBy s.history id stage → RegistersBeforeSealing s.history id →
    Settles s id

/-- What holds of a filter before an update follows from what the history says after it. -/
theorem settles_update (hs : s.Consistent) (hupdate : Update s next)
    (h : ∀ id stage, ProducedBy s.history id stage → RegistersBeforeSealing s.history id →
      Settles s id) (id stage : ℕ) (hstage : ProducedBy next.history id stage)
    (hsealing : RegistersBeforeSealing next.history id) : Settles next id := by
  have hbefore : ProducedBy s.history id stage ∧ RegistersBeforeSealing s.history id := by
    rcases history_of_update hupdate with hhistory | ⟨event, hhistory⟩
    · rw [← hhistory]
      exact ⟨hstage, hsealing⟩
    · rw [hhistory] at hstage hsealing
      exact ⟨hstage.tail, hsealing.2⟩
  exact Settles.update hs (h id stage hbefore.1 hbefore.2) hupdate hstage hsealing

variable [DecidableEq S]

/-- The calls in any order in which no `seal_stage` is cut short by a channel that is closed while
the query runs. -/
def sealingSystem (ε S : Type) [PhysicalExprNodes ε] [DecidableEq ε] [DecidableEq S] :
    Transition (DynamicFilterRegistry ε S) (RegistryCall ε S × CallEnv) where
  init := (system ε S).init
  step s a next := (system ε S).step s a next ∧
    ∀ stage, a.1 = .sealStage stage → (s.call a.2 a.1).1 = .ok ()

theorem UpToDate.step (hs : s.Consistent) (h : ∀ id, s.UpToDate id)
    {a : RegistryCall ε S × CallEnv} (hstep : (sealingSystem ε S).step s a next) (id : ℕ) :
    next.UpToDate id := by
  obtain ⟨call, env⟩ := a
  obtain ⟨⟨hlists, -, rfl⟩, hsealing⟩ := hstep
  cases call with
  | registerTask plan task => exact upToDate_registerTask hs (h id) plan task
  | registerSender task sender => exact UpToDate.dispatchAll (h id)
  | sealStage stage =>
    have hok := hsealing stage rfl
    obtain ⟨result, next, hrun⟩ : ∃ result next, s.call env (.sealStage stage) = (result, next) :=
      ⟨_, _, rfl⟩
    rw [hrun] at hok ⊢
    obtain ⟨hkept, hall⟩ := upToDate_mergeAndDispatchAll hrun
    by_cases hid : id ∈ env.ids
    · exact hall hok id hid
    · refine hkept id ?_
      rw [hlists.ids] at hid
      rw [UpToDate, filter_log, DynamicFilterRegistry.filter, AList.lookup_eq_none.mpr hid]
      rfl
  | recordDynamicFilterUpdate task report =>
    unfold call recordDynamicFilterUpdate
    dsimp only
    split
    · exact h id
    · split
      · exact h id
      · split
        · exact h id
        · split
          · exact h id
          · exact upToDate_recordReport (h id)

/-- With open channels no `seal_stage` is cut short. -/
theorem sealing_of_open (h : (openSystem ε S).Reachable s) : (sealingSystem ε S).Reachable s := by
  induction h with
  | init hs => exact .init hs
  | step hreachable hstep ih =>
    refine .step ih ⟨hstep.1, fun stage hcall => ?_⟩
    obtain ⟨⟨hlists, -, -⟩, hopen⟩ := hstep
    rw [hcall]
    exact (sealStage_open hopen (consistent_of_reachable hreachable.of_restrict) hlists stage).1

theorem settled_of_reachable (h : (sealingSystem ε S).Reachable s) : s.Settled := by
  refine h.invariant (p := Settled) ?_ ?_
  · rintro _ rfl
    refine ⟨consistent_new, upToDate_new, fun id stage _ _ => ?_⟩
    intro mode node _ hnode
    cases hnode
  · rintro s a next hs hstep
    obtain ⟨hnext, hsettles⟩ := invariant_of_updates (p := fun s => s.Consistent ∧
      ∀ id stage, ProducedBy s.history id stage → RegistersBeforeSealing s.history id →
        Settles s id)
      (fun _ _ hs hupdate => ⟨hs.1.update hupdate, settles_update hs.1 hupdate hs.2⟩)
      ⟨hs.consistent, hs.settles⟩ (updates_of_step hstep.1)
    exact ⟨hnext, UpToDate.step hs.consistent hs.upToDate hstep, hsettles⟩

section AllDone

variable {stage : ℕ} {mode : DynamicFilterMergePolicy}

theorem AllDone.merged (h : AllDone s.history id stage mode)
    (hreachable : (sealingSystem ε S).Reachable s) (hmode : mode ≠ .forwardFirstComplete)
    (htask : .producer id task mode ∈ s.history) :
    ∃ node, (s.filter id).merged = some node ∧ node.isComplete = true ∧
      node.innerExpr = mergePredicates
        ((s.filter id).reports.filterMap fun entry => entry.2.innerExpr) mode := by
  obtain ⟨hs, hold, hsettles⟩ := settled_of_reachable hreachable
  have hpolicy := (hs.filter id).mode task mode htask
  have hproducer : task ∈ (s.filter id).producers :=
    ((hs.filter id).producer task).mpr ⟨mode, htask⟩
  have hall : (s.filter id).allComplete s.sealedStages = true := by
    refine allComplete_iff.mpr ⟨⟨task, hproducer⟩, fun other report hreport => ?_⟩
    have hother : other ∈ (s.filter id).producers :=
      HashMap.mem_iff_exists_lookup.mpr ⟨_, hreport⟩
    obtain ⟨known, hknown⟩ := ((hs.filter id).producer other).mp hother
    obtain ⟨final, hfinal⟩ := h.final hs hother
    refine ⟨?_, final, ?_, (finalReport_mem hfinal).2⟩
    · rw [h.produced other known hknown]
      exact (hs.sealed stage).mpr h.sealed
    · exact Option.some.inj (hreport.symm.trans ((hs.filter id).final other final hfinal))
  have hreports : (s.filter id).reports ≠ [] := by
    obtain ⟨final, hfinal⟩ := h.final hs hproducer
    exact List.ne_nil_of_mem (mem_reports.mpr ((hs.filter id).final task final hfinal))
  obtain ⟨node, hnode, hdone⟩ := mergeReports_none (hold id) hpolicy (fun _ => hall) hreports
  have hcomplete : node.isComplete = true := by
    rcases hdone with hdone | hmerges
    · exact hdone
    · rw [hmerges.isComplete, hall, Bool.or_true]
  have hfinal := (hsettles id stage h.produced h.sealing mode node hpolicy hnode hmode).2 hcomplete
  exact ⟨node, hnode, hcomplete, hfinal.innerExpr⟩

/-- Two runs with the same producers and the same reports of each of them end with the same merged
predicate and the same flag; with a producer at all, the merged filter is there and complete. -/
theorem merged_filter_confluent {last : DynamicFilterRegistry ε S}
    (hs : (sealingSystem ε S).Reachable s) (hlast : (sealingSystem ε S).Reachable last)
    (hmode : mode ≠ .forwardFirstComplete) (hdone : AllDone s.history id stage mode)
    (hdoneLast : AllDone last.history id stage mode)
    (hproducers : ∀ task, .producer id task mode ∈ s.history ↔
      .producer id task mode ∈ last.history)
    (hreports : ∀ task, reportsOf s.history id task = reportsOf last.history id task) :
    ((s.filter id).merged.map fun node => (node.innerExpr, node.isComplete)) =
      ((last.filter id).merged.map fun node => (node.innerExpr, node.isComplete)) ∧
    ∀ task, .producer id task mode ∈ s.history →
      ∃ node, (s.filter id).merged = some node ∧ node.isComplete = true := by
  have hconsistent := (settled_of_reachable hs).consistent
  have hconsistentLast := (settled_of_reachable hlast).consistent
  have hnone : ∀ {s : DynamicFilterRegistry ε S}, s.Consistent → AllDone s.history id stage mode →
      (∀ task, .producer id task mode ∉ s.history) → (s.filter id).merged = none := by
    intro s hs hdone hnone
    by_contra hmerged
    obtain ⟨task, htask⟩ := (hs.filter id).mergedProducer hmerged
    obtain ⟨other, hother⟩ := ((hs.filter id).producer task).mp htask
    exact hnone task (hdone.policy task other hother ▸ hother)
  constructor
  · by_cases hsome : ∃ task, .producer id task mode ∈ s.history
    · obtain ⟨task, htask⟩ := hsome
      obtain ⟨node, hnode, hcomplete, hinner⟩ := hdone.merged hs hmode htask
      obtain ⟨other, hother, hcompleteLast, hinnerLast⟩ :=
        hdoneLast.merged hlast hmode ((hproducers task).mp htask)
      have hsame : (s.filter id).reports = (last.filter id).reports := by
        refine PlannedDynamicFilter.reports_eq_of_lookup fun task report => ?_
        rw [hdone.lookup hconsistent, hdoneLast.lookup hconsistentLast, finalReport, finalReport,
          hreports]
      rw [hnode, hother, Option.map_some, Option.map_some, hcomplete, hcompleteLast, hinner,
        hinnerLast, hsame]
    · have hempty := not_exists.mp hsome
      rw [hnone hconsistent hdone hempty, hnone hconsistentLast hdoneLast fun task htask =>
        hempty task ((hproducers task).mpr htask)]
  · intro task htask
    obtain ⟨node, hnode, hcomplete, -⟩ := hdone.merged hs hmode htask
    exact ⟨node, hnode, hcomplete⟩

end AllDone

/-- The stage is sealed before the two tasks report, the second one first. -/
def sealedFirst : List (RegistryCall RowSet Unit) :=
  [.registerTask scanPlan ⟨2, 0⟩, .registerTask joinPlan ⟨1, 1⟩, .registerTask joinPlan ⟨1, 0⟩,
    .sealStage 1, .recordDynamicFilterUpdate ⟨1, 1⟩ (RowSet.report [2]),
    .recordDynamicFilterUpdate ⟨1, 0⟩ (RowSet.report [1])]

theorem history_sealedFirst : (runCalls (.registerSender ⟨2, 0⟩ 0 :: sealedFirst)).history =
    [.sent 0 ⟨2, 0⟩ ⟨1, ⟨1, ⟨[], 0, some ⟨[1, 2]⟩, true⟩⟩, ()⟩,
      .merged 1 ⟨[], 0, some ⟨[1, 2]⟩, true⟩, .reported 1 ⟨1, 0⟩ ⟨[], 0, some ⟨[1]⟩, true⟩,
      .reported 1 ⟨1, 1⟩ ⟨[], 0, some ⟨[2]⟩, true⟩, .sealed 1,
      .producer 1 ⟨1, 0⟩ .unionWhenAllComplete, .registering ⟨1, 0⟩ [1],
      .producer 1 ⟨1, 1⟩ .unionWhenAllComplete, .registering ⟨1, 1⟩ [1], .consumer 1 ⟨2, 0⟩,
      .registering ⟨2, 0⟩ [], .sender ⟨2, 0⟩ 0] := by
  rfl

theorem merged_filter_confluent_sealedFirst :
    (((runCalls (.registerSender ⟨2, 0⟩ 0 :: twoProducers)).filter 1).merged.map
      fun node => (node.innerExpr, node.isComplete)) =
    (((runCalls (.registerSender ⟨2, 0⟩ 0 :: sealedFirst)).filter 1).merged.map
      fun node => (node.innerExpr, node.isComplete)) := by
  have hdone : ∀ calls ∈ [twoProducers, sealedFirst],
      AllDone (runCalls (.registerSender ⟨2, 0⟩ 0 :: calls)).history 1 1 .unionWhenAllComplete := by
    rw [List.forall_mem_cons, List.forall_mem_singleton, history_twoProducers, history_sealedFirst]
    constructor
    all_goals
      refine ⟨by simp [ProducedBy, or_imp, forall_and], by simp [or_imp],
        by simp [RegistersBeforeSealing], by simp, ?_⟩
      simp [or_imp, forall_and]
      exact ⟨⟨_, rfl, rfl⟩, _, rfl, rfl⟩
  refine (merged_filter_confluent
    (sealing_of_open (reachable_runCalls twoProducers (by simp [twoProducers])))
    (sealing_of_open (reachable_runCalls sealedFirst (by simp [sealedFirst])))
    (by decide) (hdone _ (by simp)) (hdone _ (by simp)) ?_ ?_).1
  · rw [history_twoProducers, history_sealedFirst]
    simp [or_comm]
  · intro task
    rw [history_twoProducers, history_sealedFirst]
    by_cases hfirst : (⟨1, 0⟩ : TaskKey) = task
    · subst hfirst
      rfl
    · simp [reportsOf, List.filterMap_cons, RegistryEvent.report?, hfirst]

end DynamicFilterRegistry

end DatafusionDistributed
