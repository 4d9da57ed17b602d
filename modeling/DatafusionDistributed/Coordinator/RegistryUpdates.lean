import DatafusionDistributed.Coordinator.DynamicFilterRegistry

/-!
# What the calls of the registry do

Every call is a sequence of updates, whether it succeeds or not, so what every update keeps holds in
all states, also in the middle of a call. `Consistent` ties the state to the history.
-/

namespace DatafusionDistributed

open Library

namespace PlannedDynamicFilter

variable {ε S : Type} [DecidableEq S] {self next : PlannedDynamicFilter ε S} {id : ℕ}
  {task : TaskKey} {mode : DynamicFilterMergePolicy} {schema : S}

/-- A producer that is accepted: its task is added, and nothing but the mode and the schema may be
filled in. -/
theorem registerProducer_ok (h : self.registerProducer id task mode schema = (.ok (), next)) :
    (self.mergeMode = none ∨ self.mergeMode = some mode) ∧
      (self.producerSchema = none ∨ self.producerSchema = some schema) ∧
      next = { self with
        mergeMode := some mode
        producerSchema := some schema
        producers := self.producers.orInsert task none } := by
  unfold registerProducer at h
  split at h
  · cases h
  · have hschema : self.producerSchema = none ∨ self.producerSchema = some schema := by
      cases hexisting : self.producerSchema <;> simp_all
    have hkept : some (self.producerSchema.getD schema) = some schema := by
      rcases hschema with hschema | hschema <;> rw [hschema] <;> rfl
    simp only [hkept] at h
    split at h
    · rename_i hmode
      cases h
      exact ⟨Or.inl hmode, hschema, rfl⟩
    · rename_i existing hmode
      split at h
      · cases h
      · rename_i hsame
        obtain rfl := not_not.mp hsame
        cases h
        refine ⟨Or.inr hmode, hschema, ?_⟩
        rw [← hmode]

/-- A producer that is refused changes at most the schema, and that only if there was none. -/
theorem registerProducer_error {e : DataFusionError}
    (h : self.registerProducer id task mode schema = (.error e, next)) :
    ∃ known, next = { self with producerSchema := known } ∧
      (self.producerSchema ≠ none → known = self.producerSchema) := by
  unfold registerProducer at h
  split at h
  · cases h
    exact ⟨self.producerSchema, rfl, fun _ => rfl⟩
  · simp only at h
    split at h
    · cases h
    · split at h
      · cases h
        refine ⟨_, rfl, ?_⟩
        intro hsome
        obtain ⟨existing, hexisting⟩ := Option.ne_none_iff_exists'.mp hsome
        rw [hexisting]
        rfl
      · cases h

end PlannedDynamicFilter

namespace DynamicFilterRegistry

variable {ε S : Type}

section Filters

variable {self : DynamicFilterRegistry ε S} {id other : ℕ} {filter : PlannedDynamicFilter ε S}

theorem filter_of_lookup (h : self.filters.lookup id = some filter) : self.filter id = filter := by
  rw [DynamicFilterRegistry.filter, h]
  rfl

@[simp]
theorem filter_setFilter : (self.setFilter id filter).filter id = filter := by
  simp [DynamicFilterRegistry.filter, setFilter]

theorem filter_setFilter_ne (h : other ≠ id) :
    (self.setFilter id filter).filter other = self.filter other := by
  simp [DynamicFilterRegistry.filter, setFilter, AList.lookup_insert_ne h]

theorem filter_setFilter_imp (p : PlannedDynamicFilter ε S → Prop) (hother : p (self.filter other))
    (h : p (self.filter id) → p filter) : p ((self.setFilter id filter).filter other) := by
  by_cases heq : other = id
  · subst heq
    rw [filter_setFilter]
    exact h hother
  · rwa [filter_setFilter_ne heq]

theorem filter_setFilter_of (p : PlannedDynamicFilter ε S → Prop)
    (hother : p ((self.setFilter id filter).filter other)) (h : p filter → p (self.filter id)) :
    p (self.filter other) :=
  of_not_not fun hnot => filter_setFilter_imp (fun filter => ¬ p filter) hnot (mt h) hother

@[simp]
theorem filter_setMerged {node : PhysicalDynamicFilterNode ε} :
    (self.setMerged id filter node).filter id =
      { filter with merged := some node, mergedBytes := some ⟨id, node⟩ } :=
  filter_setFilter

theorem filter_setMerged_ne {node : PhysicalDynamicFilterNode ε} (h : other ≠ id) :
    (self.setMerged id filter node).filter other = self.filter other :=
  filter_setFilter_ne h

@[simp]
theorem filter_log (event : RegistryEvent ε S) : (self.log event).filter id = self.filter id :=
  rfl

end Filters

/-- The consumers that the environment lists for a filter are its consumers. -/
def ListsConsumers (env : CallEnv) (s : DynamicFilterRegistry ε S) : Prop :=
  ∀ id, ∀ task ∈ env.consumers id, id ∈ s.filters → task ∈ (s.filter id).consumerTasks

/-- Dispatching changes nothing but what is delivered. -/
structure SameButDelivered (s next : DynamicFilterRegistry ε S) : Prop where
  filters : next.filters = s.filters
  sealedStages : next.sealedStages = s.sealedStages
  taskSenders : next.taskSenders = s.taskSenders

variable {env : CallEnv} {id : ℕ} {s next : DynamicFilterRegistry ε S}

variable {filter : PlannedDynamicFilter ε S} {tasks : List TaskKey} {task : TaskKey} {ids : List ℕ}
  {p : DynamicFilterRegistry ε S → Prop}

theorem sameButDelivered_dispatchTo {update : ApplyDynamicFilter ε S} :
    SameButDelivered s (dispatchTo env id filter update tasks s).2 := by
  induction tasks generalizing s with
  | nil => exact ⟨rfl, rfl, rfl⟩
  | cons task tasks ih =>
    rw [dispatchTo]
    split
    · exact ih
    · split
      · exact ih
      · split
        · split <;> exact ⟨rfl, rfl, rfl⟩
        · exact ⟨ih.filters, ih.sealedStages, ih.taskSenders⟩

theorem sameButDelivered_dispatch (s : DynamicFilterRegistry ε S) (env : CallEnv) (id : ℕ) :
    SameButDelivered s (s.dispatch env id).2 := by
  unfold dispatch
  split
  · exact ⟨rfl, rfl, rfl⟩
  · split
    · exact ⟨rfl, rfl, rfl⟩
    · split
      · exact ⟨rfl, rfl, rfl⟩
      · split
        · exact ⟨rfl, rfl, rfl⟩
        · exact sameButDelivered_dispatchTo

theorem taskSenders_dispatchAll (s : DynamicFilterRegistry ε S) (env : CallEnv) (ids : List ℕ) :
    (dispatchAll env ids s).2.taskSenders = s.taskSenders := by
  induction ids generalizing s with
  | nil => rfl
  | cons id ids ih =>
    have hnext := (sameButDelivered_dispatch s env id).taskSenders
    rw [dispatchAll]
    split
    · rename_i heq
      rwa [heq] at hnext
    · rename_i heq
      rw [heq] at hnext
      rw [ih, hnext]

theorem filter_of_filters_eq (h : next.filters = s.filters) (id : ℕ) :
    next.filter id = s.filter id := by
  rw [DynamicFilterRegistry.filter, h]
  rfl

theorem ListsConsumers.of_filters_eq (henv : ListsConsumers env s) (h : next.filters = s.filters) :
    ListsConsumers env next := by
  intro id task htask hid
  rw [filter_of_filters_eq h]
  exact henv id task htask (h ▸ hid)

/-- The consumers stay when a filter is changed in another respect. -/
theorem ListsConsumers.setFilter (henv : ListsConsumers env s) (hid : id ∈ s.filters)
    (hconsumers : filter.consumerTasks = (s.filter id).consumerTasks) :
    ListsConsumers env (s.setFilter id filter) := by
  intro other task htask hother
  by_cases heq : other = id
  · subst heq
    rw [filter_setFilter, hconsumers]
    exact henv other task htask hid
  · rw [filter_setFilter_ne heq]
    refine henv other task htask ?_
    rw [DynamicFilterRegistry.setFilter, AList.mem_insert] at hother
    exact hother.resolve_left heq

theorem listsConsumers_of_lists (h : env.Lists s) : ListsConsumers env s := by
  intro id task htask hid
  obtain ⟨filter, hfilter⟩ := HashMap.mem_iff_exists_lookup.mp hid
  rw [filter_of_lookup hfilter]
  exact (h.consumers id filter hfilter task).mp htask

variable [PhysicalExprNodes ε] [DecidableEq ε]

/-- The changes that the calls are made of. -/
inductive Update (s : DynamicFilterRegistry ε S) : DynamicFilterRegistry ε S → Prop
  | registering (task : TaskKey) (produced : List ℕ) : Update s (s.log (.registering task produced))
  | refused (id : ℕ) (known : Option S)
    (kept : (s.filter id).producerSchema ≠ none → known = (s.filter id).producerSchema) :
    Update s (s.setFilter id { s.filter id with producerSchema := known })
  | producer (id : ℕ) (task : TaskKey) (mode : DynamicFilterMergePolicy) (schema : S)
    (sameMode : (s.filter id).mergeMode = none ∨ (s.filter id).mergeMode = some mode)
    (sameSchema : (s.filter id).producerSchema = none ∨
      (s.filter id).producerSchema = some schema) :
    Update s ((s.setFilter id { s.filter id with
      mergeMode := some mode
      producerSchema := some schema
      producers := (s.filter id).producers.orInsert task none }).log (.producer id task mode))
  | consumer (id : ℕ) (task : TaskKey) (produced : List ℕ)
    (registering : .registering task produced ∈ s.history)
    (registered : ∀ p ∈ produced, task ∈ (s.filter p).producers) :
    Update s ((s.setFilter id { s.filter id with
      consumerTasks := (s.filter id).consumerTasks.insert task }).log (.consumer id task))
  | sender (task : TaskKey) (sender : ℕ) (fresh : ∀ other, .sender other sender ∉ s.history) :
    Update s ({ s with
      taskSenders := s.taskSenders.insert task sender
      delivered := s.delivered.filter fun entry => entry.2 ≠ task }.log (.sender task sender))
  | sealed (stage : ℕ) :
    Update s ({ s with sealedStages := s.sealedStages.insert stage }.log (.sealed stage))
  | ignored (id : ℕ) (task : TaskKey) (report : PhysicalDynamicFilterNode ε)
    (previous : Option (PhysicalDynamicFilterNode ε))
    (found : (s.filter id).producers.lookup task = some previous)
    (ignores : ignores (s.filter id).mergeMode previous report = true) :
    Update s (s.log (.reported id task report))
  | stored (id : ℕ) (task : TaskKey) (report : PhysicalDynamicFilterNode ε)
    (previous : Option (PhysicalDynamicFilterNode ε))
    (found : (s.filter id).producers.lookup task = some previous)
    (inner : report.innerExpr ≠ none)
    (accepts : ignores (s.filter id).mergeMode previous report = false) :
    Update s ((s.log (.reported id task report)).setFilter id { s.filter id with
      producers := (s.filter id).producers.insert task (some report) })
  | merged (id : ℕ) (node : PhysicalDynamicFilterNode ε)
    (changed : (s.filter id).mergeReports s.sealedStages = some node) :
    Update s ((s.setMerged id (s.filter id) node).log (.merged id node))
  | sent (id : ℕ) (task : TaskKey) (sender : ℕ) (expression : EncodedDynamicFilter ε) (schema : S)
    (bytes : (s.filter id).mergedBytes = some expression)
    (producerSchema : (s.filter id).producerSchema = some schema)
    (consumes : task ∈ (s.filter id).consumerTasks)
    (notProducer : task ∉ (s.filter id).producers)
    (notDelivered : (id, task) ∉ s.delivered)
    (found : s.taskSenders.lookup task = some sender) :
    Update s ({ s with delivered := s.delivered.insert (id, task) }.log
      (.sent sender task ⟨id, expression, schema⟩))

/-- A sequence of updates. -/
abbrev Updates : DynamicFilterRegistry ε S → DynamicFilterRegistry ε S → Prop :=
  Relation.ReflTransGen Update

theorem updates_registerProducers [DecidableEq S]
    {producers : List (ℕ × DynamicFilterMergePolicy × S)} {result : Result Unit}
    (h : registerProducers task producers s = (result, next)) :
    Updates s next ∧ (∀ event ∈ s.history, event ∈ next.history) ∧
      (∀ id, task ∈ (s.filter id).producers → task ∈ (next.filter id).producers) ∧
      (result = .ok () →
        ∀ id ∈ producers.map fun entry => entry.1, task ∈ (next.filter id).producers) := by
  induction producers generalizing s with
  | nil =>
    cases h
    exact ⟨.refl, fun _ h => h, fun _ h => h, by simp⟩
  | cons entry producers ih =>
    obtain ⟨id, mode, schema⟩ := entry
    rw [registerProducers] at h
    split at h
    · rename_i e filter hfilter
      cases h
      obtain ⟨known, rfl, hkept⟩ := PlannedDynamicFilter.registerProducer_error hfilter
      exact ⟨.single (.refused id known hkept), fun _ h => h, fun other hother =>
        filter_setFilter_imp (task ∈ ·.producers) hother fun h => h, fun h => by cases h⟩
    · rename_i filter hfilter
      obtain ⟨hmode, hschema, rfl⟩ := PlannedDynamicFilter.registerProducer_ok hfilter
      obtain ⟨hupdates, hhistory, hkept, hall⟩ := ih h
      have hstep : ∀ other, task ∈ (s.filter other).producers ∨ other = id →
          task ∈ (next.filter other).producers := by
        intro other hother
        apply hkept
        rw [filter_log]
        by_cases heq : other = id
        · subst heq
          simp
        · rw [filter_setFilter_ne heq]
          exact hother.resolve_right heq
      refine ⟨.head (.producer id task mode schema hmode hschema) hupdates,
        fun event hevent => hhistory event (List.mem_cons_of_mem _ hevent),
        fun other hother => hstep other (Or.inl hother), fun hok => ?_⟩
      exact List.forall_mem_cons.mpr ⟨hstep id (Or.inr rfl), hall hok⟩

theorem updates_registerConsumers {consumers : List ℕ} {produced : List ℕ}
    (hregistering : .registering task produced ∈ s.history)
    (hregistered : ∀ p ∈ produced, task ∈ (s.filter p).producers) :
    Updates s (registerConsumers task consumers s) := by
  induction consumers generalizing s with
  | nil => exact .refl
  | cons id consumers ih =>
    refine .head (.consumer id task produced hregistering hregistered) (ih ?_ ?_)
    · exact List.mem_cons_of_mem _ hregistering
    · exact fun p hp => filter_setFilter_imp (task ∈ ·.producers) (hregistered p hp) fun h => h

theorem updates_registerTask [DecidableEq S] (s : DynamicFilterRegistry ε S)
    (plan : FilterPlan S) (task : TaskKey) : Updates s (s.registerTask plan task).2 := by
  unfold registerTask
  split
  · exact .refl
  · split
    · exact .refl
    · dsimp only
      split
      · rename_i e next hnext
        exact .head (.registering task _) (updates_registerProducers hnext).1
      · rename_i next hnext
        obtain ⟨hupdates, hhistory, -, hall⟩ := updates_registerProducers hnext
        exact (Relation.ReflTransGen.head (.registering task _) hupdates).trans
          (updates_registerConsumers (hhistory _ List.mem_cons_self) (hall rfl))

theorem updates_dispatchTo {expression : EncodedDynamicFilter ε} {schema : S}
    (hbytes : (s.filter id).mergedBytes = some expression)
    (hschema : (s.filter id).producerSchema = some schema)
    (htasks : ∀ task ∈ tasks, task ∈ (s.filter id).consumerTasks) :
    Updates s (dispatchTo env id (s.filter id) ⟨id, expression, schema⟩ tasks s).2 := by
  induction tasks generalizing s with
  | nil => exact .refl
  | cons task tasks ih =>
    rw [List.forall_mem_cons] at htasks
    rw [dispatchTo]
    split
    · exact ih hbytes hschema htasks.2
    · rename_i hskip
      rw [not_or] at hskip
      split
      · exact ih hbytes hschema htasks.2
      · rename_i sender hsender
        split
        · split <;> exact .refl
        · exact .head (.sent id task sender expression schema hbytes hschema htasks.1 hskip.1
            hskip.2 hsender) (ih hbytes hschema htasks.2)

theorem updates_dispatch (henv : ListsConsumers env s) (id : ℕ) :
    Updates s (s.dispatch env id).2 := by
  unfold dispatch
  split
  · exact .refl
  · split
    · exact .refl
    · rename_i filter hfilter
      split
      · exact .refl
      · rename_i expression hbytes
        split
        · exact .refl
        · rename_i schema hschema
          obtain rfl := filter_of_lookup hfilter
          exact updates_dispatchTo hbytes hschema fun task htask =>
            henv id task htask (HashMap.mem_iff_exists_lookup.mpr ⟨_, hfilter⟩)

theorem updates_merge (s : DynamicFilterRegistry ε S) (id : ℕ) : Updates s (s.merge id).2 := by
  unfold merge
  split
  · exact .refl
  · rename_i filter hfilter
    split
    · exact .refl
    · rename_i node hnode
      obtain rfl := filter_of_lookup hfilter
      exact .single (.merged id node hnode)

section Listed

variable (henv : ListsConsumers env s)
include henv

theorem ListsConsumers.merge (id : ℕ) : ListsConsumers env (s.merge id).2 := by
  unfold DynamicFilterRegistry.merge
  split
  · exact henv
  · rename_i filter hfilter
    split
    · exact henv
    · rename_i node _
      have hid : id ∈ s.filters := HashMap.mem_iff_exists_lookup.mpr ⟨_, hfilter⟩
      obtain rfl := filter_of_lookup hfilter
      have hnext : ListsConsumers env (s.setFilter id { s.filter id with
          merged := some node
          mergedBytes := some ⟨id, node⟩ }) := henv.setFilter hid rfl
      exact hnext.of_filters_eq rfl

theorem updates_mergeAndDispatch (id : ℕ) :
    Updates s (s.mergeAndDispatch env id).2 ∧
      ListsConsumers env (s.mergeAndDispatch env id).2 := by
  have hmerge := updates_merge s id
  have hmerged := henv.merge id
  unfold mergeAndDispatch
  split
  · rename_i next hnext
    rw [hnext] at hmerge hmerged
    exact ⟨hmerge.trans (updates_dispatch hmerged id),
      hmerged.of_filters_eq ((sameButDelivered_dispatch next env id).filters)⟩
  · rename_i next hnext
    rw [hnext] at hmerge hmerged
    exact ⟨hmerge, hmerged⟩

theorem updates_mergeAndDispatchAll : Updates s (mergeAndDispatchAll env ids s).2 := by
  induction ids generalizing s with
  | nil => exact .refl
  | cons id ids ih =>
    obtain ⟨hupdates, hnext⟩ := updates_mergeAndDispatch henv id
    rw [mergeAndDispatchAll]
    split
    · rename_i e next heq
      rw [heq] at hupdates
      exact hupdates
    · rename_i next heq
      rw [heq] at hupdates hnext
      exact hupdates.trans (ih hnext)

theorem updates_dispatchAll : Updates s (dispatchAll env ids s).2 := by
  induction ids generalizing s with
  | nil => exact .refl
  | cons id ids ih =>
    have hupdates := updates_dispatch henv id
    have hfilters := (sameButDelivered_dispatch s env id).filters
    rw [dispatchAll]
    split
    · rename_i e next heq
      rw [heq] at hupdates
      exact hupdates
    · rename_i next heq
      rw [heq] at hupdates hfilters
      exact hupdates.trans (ih (henv.of_filters_eq hfilters))

theorem updates_recordReport (task : TaskKey) (id : ℕ) {report : PhysicalDynamicFilterNode ε}
    (hinner : report.innerExpr ≠ none) : Updates s (s.recordReport env task id report).2 := by
  unfold recordReport
  split
  · exact .refl
  · rename_i filter hfilter
    have hid : id ∈ s.filters := HashMap.mem_iff_exists_lookup.mpr ⟨_, hfilter⟩
    obtain rfl := filter_of_lookup hfilter
    split
    · exact .refl
    · rename_i previous hprevious
      split
      · rename_i hignores
        exact .single (.ignored id task report previous hprevious hignores)
      · rename_i hignores
        refine .head (.stored id task report previous hprevious hinner
          (Bool.eq_false_iff.mpr hignores)) (updates_mergeAndDispatch ?_ id).1
        exact ListsConsumers.setFilter (henv.of_filters_eq rfl) hid rfl

theorem updates_recordDynamicFilterUpdate (task : TaskKey) (report : ProducedDynamicFilter ε) :
    Updates s (s.recordDynamicFilterUpdate env task report).2 := by
  unfold recordDynamicFilterUpdate
  dsimp only
  split
  · exact .refl
  · split
    · exact .refl
    · split
      · exact .refl
      · split
        · exact .refl
        · rename_i hinner
          refine updates_recordReport henv task _ ?_
          simpa using hinner

end Listed

/-- Every step of the system is a sequence of updates. -/
theorem updates_of_step [DecidableEq S] {a : RegistryCall ε S × CallEnv}
    (h : (system ε S).step s a next) : Updates s next := by
  obtain ⟨call, env⟩ := a
  obtain ⟨hlists, hfresh, rfl⟩ := h
  have henv := listsConsumers_of_lists hlists
  cases call with
  | registerTask plan task => exact updates_registerTask s plan task
  | registerSender task sender =>
    exact .head (.sender task sender (hfresh task sender rfl))
      (updates_dispatchAll (henv.of_filters_eq rfl))
  | sealStage stage =>
    exact .head (.sealed stage) (updates_mergeAndDispatchAll (henv.of_filters_eq rfl))
  | recordDynamicFilterUpdate task report =>
    exact updates_recordDynamicFilterUpdate henv task report

@[elab_as_elim]
theorem invariant_of_updates (hupdate : ∀ s next, p s → Update s next → p next) (hs : p s)
    (h : Updates s next) :
    p next := by
  induction h with
  | refl => exact hs
  | tail _ hlast ih => exact hupdate _ _ ih hlast

/-- What every update keeps holds in every state that is reached. -/
@[elab_as_elim]
theorem invariant_of_update [DecidableEq S] (hinit : p new)
    (hupdate : ∀ s next, p s → Update s next → p next) (h : (system ε S).Reachable s) : p s :=
  h.invariant (fun _ hs => hs ▸ hinit) fun _ _ _ hs hstep =>
    invariant_of_updates hupdate hs (updates_of_step hstep)

end DynamicFilterRegistry

end DatafusionDistributed
