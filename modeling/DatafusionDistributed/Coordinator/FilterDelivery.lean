import DatafusionDistributed.Coordinator.FilterSoundness

/-!
# The delivery of merged filters

While the query goes on and all channels are open, a consumer gets every merged filter at most once
on each of its senders, in the order of the generations. `delivered` holds the consumers that have
the current one; it is cleared when the filter is merged anew and when a sender is replaced, and
each of these dispatches the filter again before the call ends.
-/

namespace DatafusionDistributed

open Library

namespace ApplyDynamicFilter

variable {ε S : Type}

def generation (self : ApplyDynamicFilter ε S) : ℕ :=
  self.expression.filter.generation

end ApplyDynamicFilter

namespace RegistryEvent

variable {ε S : Type}

/-- After the event the filter is dispatched to all its consumers. -/
def Redispatches (id : ℕ) : RegistryEvent ε S → Prop
  | merged other _ => other = id
  | sender _ _ => True
  | _ => False

/-- What allows a filter to be sent: no snapshot of this generation or a later one was sent on the
sender, and the task was registered and does not produce the filter. -/
def Allowed (earlier : List (RegistryEvent ε S)) (event : RegistryEvent ε S) : Prop :=
  ∀ sender task update, event = .sent sender task update →
    (∀ other previous, .sent sender other previous ∈ earlier →
      previous.expressionId = update.expressionId → previous.generation < update.generation) ∧
    (∀ mode, .producer update.expressionId task mode ∉ earlier) ∧
    ∃ produced, .registering task produced ∈ earlier ∧ update.expressionId ∉ produced

end RegistryEvent

namespace DynamicFilterRegistry

variable {ε S : Type} {event : RegistryEvent ε S}

section Senders

/-- The senders, and what was sent on them. -/
structure Delivering (s : DynamicFilterRegistry ε S) : Prop where
  current : ∀ task sender, s.taskSenders.lookup task = some sender → .sender task sender ∈ s.history
  owner : ∀ task other sender, .sender task sender ∈ s.history → .sender other sender ∈ s.history →
    task = other
  registered : ∀ sender task update, .sent sender task update ∈ s.history →
    .sender task sender ∈ s.history
  sent : ∀ sender task update, .sent sender task update ∈ s.history →
    ∃ node, (s.filter update.expressionId).merged = some node ∧
      update.generation ≤ node.generation ∧
      (s.taskSenders.lookup task = some sender → update.generation = node.generation →
        (update.expressionId, task) ∈ s.delivered)
  delivered : ∀ id task, (id, task) ∈ s.delivered →
    ∃ sender node schema, s.taskSenders.lookup task = some sender ∧
      (s.filter id).merged = some node ∧ .sent sender task ⟨id, ⟨id, node⟩, schema⟩ ∈ s.history

/-- A consumer is a task that was registered with all filters it produces. -/
def ConsumersRegistered (s : DynamicFilterRegistry ε S) : Prop :=
  ∀ id task, task ∈ (s.filter id).consumerTasks →
    ∃ produced, .registering task produced ∈ s.history ∧
      ∀ p ∈ produced, task ∈ (s.filter p).producers

variable {s next : DynamicFilterRegistry ε S} {id : ℕ}

theorem delivering_new : (new : DynamicFilterRegistry ε S).Delivering where
  current := by simp [new]
  owner := by simp [new]
  registered := by simp [new]
  sent := by simp [new]
  delivered := by simp [new]

theorem consumersRegistered_new : (new : DynamicFilterRegistry ε S).ConsumersRegistered := by
  intro id task htask
  cases htask

theorem Delivering.of_same (h : s.Delivering) (hsenders : next.taskSenders = s.taskSenders)
    (hdelivered : next.delivered = s.delivered)
    (hmerged : ∀ id, (next.filter id).merged = (s.filter id).merged)
    (hsender : ∀ task sender, .sender task sender ∈ next.history ↔ .sender task sender ∈ s.history)
    (hsent : ∀ sender task update, .sent sender task update ∈ next.history ↔
      .sent sender task update ∈ s.history) : next.Delivering where
  current := by simpa only [hsenders, hsender] using h.current
  owner := by simpa only [hsender] using h.owner
  registered := by simpa only [hsent, hsender] using h.registered
  sent := by simpa only [hsent, hmerged, hsenders, hdelivered] using h.sent
  delivered := by simpa only [hdelivered, hsenders, hmerged, hsent] using h.delivered

variable {task : TaskKey} {sender : ℕ} {node : PhysicalDynamicFilterNode ε}

/-- A fresh sender: nothing was sent on it, and nothing counts as delivered to its task. -/
theorem Delivering.register (h : s.Delivering)
    (hfresh : ∀ other, .sender other sender ∉ s.history) :
    ({ s with
      taskSenders := s.taskSenders.insert task sender
      delivered := s.delivered.filter fun entry => entry.2 ≠ task }.log
        (.sender task sender)).Delivering where
  current other known hknown := by
    by_cases heq : other = task
    · subst heq
      have hsame : some sender = some known := (AList.lookup_insert _).symm.trans hknown
      cases hsame
      exact List.mem_cons_self
    · refine List.mem_cons_of_mem _ (h.current other known ?_)
      exact (AList.lookup_insert_ne heq).symm.trans hknown
  owner first second known hfirst hsecond := by
    rcases List.mem_cons.mp hfirst with hnew | hfirst <;>
      rcases List.mem_cons.mp hsecond with hother | hsecond
    · cases hnew
      cases hother
      rfl
    · cases hnew
      exact absurd hsecond (hfresh second)
    · cases hother
      exact absurd hfirst (hfresh first)
    · exact h.owner first second known hfirst hsecond
  registered known other update hsent := by
    obtain hsent := (List.mem_cons.mp hsent).resolve_left (by simp)
    exact List.mem_cons_of_mem _ (h.registered known other update hsent)
  sent known other update hsent := by
    obtain hsent := (List.mem_cons.mp hsent).resolve_left (by simp)
    obtain ⟨node, hnode, hle, hdelivered⟩ := h.sent known other update hsent
    refine ⟨node, hnode, hle, fun hlookup hgeneration => ?_⟩
    have hne : other ≠ task := by
      rintro rfl
      have hsame : some sender = some known := (AList.lookup_insert _).symm.trans hlookup
      cases hsame
      exact hfresh other (h.registered sender other update hsent)
    have hlookup := (AList.lookup_insert_ne hne).symm.trans hlookup
    exact List.mem_filter.mpr ⟨hdelivered hlookup hgeneration, by simpa using hne⟩
  delivered id other hdelivered := by
    obtain ⟨hdelivered, hne⟩ := List.mem_filter.mp hdelivered
    obtain ⟨known, node, schema, hlookup, hnode, hsent⟩ := h.delivered id other hdelivered
    refine ⟨known, node, schema, ?_, hnode, List.mem_cons_of_mem _ hsent⟩
    exact (AList.lookup_insert_ne (by simpa using hne)).trans hlookup

/-- A new merged filter has a new generation, which nobody has. -/
theorem Delivering.merge (h : s.Delivering)
    (hgeneration : ∀ previous, (s.filter id).merged = some previous →
      previous.generation < node.generation) :
    ((s.setMerged id (s.filter id) node).log (.merged id node)).Delivering where
  current task sender hlookup := List.mem_cons_of_mem _ (h.current task sender hlookup)
  owner := by simpa [log, setMerged] using h.owner
  registered := by simpa [log, setMerged] using h.registered
  sent sender task update hsent := by
    obtain ⟨previous, hprevious, hle, hdelivered⟩ := h.sent sender task update
      ((List.mem_cons.mp hsent).resolve_left (by simp))
    by_cases heq : update.expressionId = id
    · subst heq
      have hlt := hgeneration previous hprevious
      refine ⟨node, by simp, Nat.le_of_lt (Nat.lt_of_le_of_lt hle hlt), fun _ hsame => ?_⟩
      omega
    · refine ⟨previous, ?_, hle, fun hlookup hsame => ?_⟩
      · rwa [filter_log, filter_setMerged_ne heq]
      · exact List.mem_filter.mpr ⟨hdelivered hlookup hsame, by simpa using heq⟩
  delivered other task hdelivered := by
    obtain ⟨hdelivered, hne⟩ := List.mem_filter.mp hdelivered
    obtain ⟨sender, previous, schema, hlookup, hprevious, hsent⟩ :=
      h.delivered other task hdelivered
    refine ⟨sender, previous, schema, hlookup, ?_, List.mem_cons_of_mem _ hsent⟩
    rwa [filter_log, filter_setMerged_ne (by simpa using hne)]

/-- The merged filter is sent on the sender of a task. -/
theorem Delivering.send (h : s.Delivering) {schema : S} (hmerged : (s.filter id).merged = some node)
    (hfound : s.taskSenders.lookup task = some sender) :
    ({ s with delivered := s.delivered.insert (id, task) }.log
      (.sent sender task ⟨id, ⟨id, node⟩, schema⟩)).Delivering where
  current other known hlookup := List.mem_cons_of_mem _ (h.current other known hlookup)
  owner := by simpa [log] using h.owner
  registered known other update hsent := by
    apply List.mem_cons_of_mem
    rcases List.mem_cons.mp hsent with hsent | hsent
    · cases hsent
      exact h.current task sender hfound
    · exact h.registered known other update hsent
  sent known other update hsent := by
    rcases List.mem_cons.mp hsent with hsent | hsent
    · cases hsent
      exact ⟨node, hmerged, Nat.le_refl _, fun _ _ => List.mem_insert_self⟩
    · obtain ⟨last, hlast, hle, hdelivered⟩ := h.sent known other update hsent
      exact ⟨last, hlast, hle, fun hlookup hsame =>
        List.mem_insert_of_mem (hdelivered hlookup hsame)⟩
  delivered other consumer hdelivered := by
    rcases List.mem_insert_iff.mp hdelivered with hdelivered | hdelivered
    · cases hdelivered
      exact ⟨sender, node, schema, hfound, hmerged, List.mem_cons_self⟩
    · obtain ⟨known, last, kept, hlookup, hlast, hsent⟩ := h.delivered other consumer hdelivered
      exact ⟨known, last, kept, hlookup, hlast, List.mem_cons_of_mem _ hsent⟩

variable [PhysicalExprNodes ε] [DecidableEq ε]

theorem Delivering.update (h : s.Delivering) (hs : s.Consistent) (hupdate : Update s next) :
    next.Delivering := by
  have hmerged : ∀ id, (∀ node, next.history ≠ .merged id node :: s.history) →
      (next.filter id).merged = (s.filter id).merged := by
    intro id hnone
    refine (merged_of_update hupdate).resolve_right ?_
    rintro ⟨node, -, -, hhistory⟩
    exact hnone node hhistory
  cases hupdate with
  | sender task sender hfresh => exact h.register hfresh
  | merged id node hchanged =>
    obtain ⟨-, -, -, -, -, -, hgeneration⟩ := mergeReports_some hchanged
    refine h.merge fun previous hprevious => ?_
    rw [hgeneration, hprevious]
    exact Nat.lt_succ_self _
  | sent id task sender expression schema hbytes _ _ _ _ hfound =>
    rw [(hs.filter id).bytes] at hbytes
    obtain ⟨node, hnode, rfl⟩ := Option.map_eq_some_iff.mp hbytes
    exact h.send hnode hfound
  | refused id known =>
    refine h.of_same rfl rfl (fun other => hmerged other fun node hnode => ?_)
      (fun _ _ => Iff.rfl) fun _ _ _ => Iff.rfl
    exact List.cons_ne_self _ _ hnode.symm
  | _ =>
    exact h.of_same rfl rfl (fun other => hmerged other fun node hnode => by cases hnode)
      (fun _ _ => by simp [log, setFilter]) fun _ _ _ => by simp [log, setFilter]

theorem producers_of_update (hupdate : Update s next) (htask : task ∈ (s.filter id).producers) :
    task ∈ (next.filter id).producers := by
  cases hupdate with
  | refused | consumer | merged => exact filter_setFilter_imp (task ∈ ·.producers) htask fun h => h
  | producer =>
    exact filter_setFilter_imp (task ∈ ·.producers) htask fun h =>
      HashMap.mem_orInsert.mpr (Or.inr h)
  | stored =>
    exact filter_setFilter_imp (task ∈ ·.producers) htask fun h =>
      (AList.mem_insert _).mpr (Or.inr h)
  | _ => exact htask

theorem consumers_of_update (hupdate : Update s next)
    (htask : task ∈ (next.filter id).consumerTasks) :
    task ∈ (s.filter id).consumerTasks ∨ ∃ produced, .registering task produced ∈ s.history ∧
      ∀ p ∈ produced, task ∈ (s.filter p).producers := by
  cases hupdate with
  | refused | producer | stored | merged =>
    exact Or.inl (filter_setFilter_of (task ∈ ·.consumerTasks) htask fun h => h)
  | consumer other added produced hregistering hregistered =>
    rw [filter_log] at htask
    by_cases heq : id = other
    · subst heq
      rw [filter_setFilter] at htask
      rcases List.mem_insert_iff.mp htask with rfl | htask
      · exact Or.inr ⟨produced, hregistering, hregistered⟩
      · exact Or.inl htask
    · rw [filter_setFilter_ne heq] at htask
      exact Or.inl htask
  | _ => exact Or.inl htask

theorem mem_history_of_update (hupdate : Update s next)
    (hevent : event ∈ s.history) : event ∈ next.history := by
  rcases history_of_update hupdate with hhistory | ⟨added, hhistory⟩
  · rwa [hhistory]
  · rw [hhistory]
    exact List.mem_cons_of_mem _ hevent

theorem ConsumersRegistered.update (h : s.ConsumersRegistered) (hupdate : Update s next) :
    next.ConsumersRegistered := by
  intro id task htask
  have hregistered : ∃ produced, .registering task produced ∈ s.history ∧
      ∀ p ∈ produced, task ∈ (s.filter p).producers := by
    rcases consumers_of_update hupdate htask with htask | hregistered
    · exact h id task htask
    · exact hregistered
  obtain ⟨produced, hregistering, hproduces⟩ := hregistered
  exact ⟨produced, mem_history_of_update hupdate hregistering,
    fun p hp => producers_of_update hupdate (hproduces p hp)⟩

theorem allowed_update (hs : s.Consistent) (h : s.Delivering) (hconsumers : s.ConsumersRegistered)
    (hlogged : Logged RegistryEvent.Allowed s.history) (hupdate : Update s next) :
    Logged RegistryEvent.Allowed next.history := by
  cases hupdate with
  | refused => exact hlogged
  | sent id task sender expression schema hbytes _ hconsumes hproducer hdelivered hfound =>
    refine ⟨?_, hlogged⟩
    intro known other update hupdate
    cases hupdate
    refine ⟨fun other previous hsent hid => ?_, fun mode hmode => ?_, ?_⟩
    · -- the sender belongs to the task, and the current generation was not sent on it
      obtain rfl := h.owner _ _ _ (h.registered _ _ _ hsent) (h.current task sender hfound)
      obtain ⟨node, hnode, hle, hsame⟩ := h.sent _ _ _ hsent
      rw [(hs.filter id).bytes] at hbytes
      obtain ⟨current, hcurrent, rfl⟩ := Option.map_eq_some_iff.mp hbytes
      obtain rfl : previous.expressionId = id := hid
      obtain rfl := Option.some.inj (hnode.symm.trans hcurrent)
      refine Nat.lt_of_le_of_ne hle fun hgeneration => ?_
      exact hdelivered (hsame hfound hgeneration)
    · exact hproducer (((hs.filter id).producer task).mpr ⟨mode, hmode⟩)
    · obtain ⟨produced, hregistering, hproduces⟩ := hconsumers id task hconsumes
      exact ⟨produced, hregistering, fun hid => hproducer (hproduces id hid)⟩
  | _ => exact ⟨fun _ _ _ hsent => (by cases hsent), hlogged⟩

end Senders

section Calls

variable {s next : DynamicFilterRegistry ε S} {id : ℕ} {task : TaskKey} {env : CallEnv}

/-- The task was registered as a consumer before the last merge or sender registration. -/
def NotifiedSince (history : List (RegistryEvent ε S)) (id : ℕ) (task : TaskKey) : Prop :=
  ∃ later event earlier, history = later ++ event :: earlier ∧
    RegistryEvent.Redispatches id event ∧ .consumer id task ∈ earlier

theorem notifiedSince_cons {history : List (RegistryEvent ε S)} :
    NotifiedSince (event :: history) id task ↔
      RegistryEvent.Redispatches id event ∧ .consumer id task ∈ history ∨
        NotifiedSince history id task := by
  constructor
  · rintro ⟨later, found, earlier, hhistory, hfound, hconsumer⟩
    cases later with
    | nil =>
      cases hhistory
      exact Or.inl ⟨hfound, hconsumer⟩
    | cons first later =>
      cases hhistory
      exact Or.inr ⟨later, found, earlier, rfl, hfound, hconsumer⟩
  · rintro (⟨hevent, hconsumer⟩ | ⟨later, found, earlier, rfl, hfound, hconsumer⟩)
    · exact ⟨[], event, history, rfl, hevent, hconsumer⟩
    · exact ⟨event :: later, found, earlier, rfl, hfound, hconsumer⟩

theorem NotifiedSince.consumer {history : List (RegistryEvent ε S)}
    (h : NotifiedSince history id task) : .consumer id task ∈ history := by
  obtain ⟨later, event, earlier, rfl, -, hconsumer⟩ := h
  exact List.mem_append_right _ (List.mem_cons_of_mem _ hconsumer)

/-- There is a merged filter that the task can be sent and does not produce. -/
structure Due (s : DynamicFilterRegistry ε S) (id : ℕ) (task : TaskKey) : Prop where
  merged : (s.filter id).merged ≠ none
  sender : s.taskSenders.lookup task ≠ none
  notProducer : task ∉ (s.filter id).producers

/-- Every consumer that is due has the merged filter. -/
def FullyDelivered (s : DynamicFilterRegistry ε S) (id : ℕ) : Prop :=
  ∀ task ∈ (s.filter id).consumerTasks, s.Due id task → (id, task) ∈ s.delivered

/-- Every consumer that is due and known since the last dispatch has the merged filter. -/
def Delivered (s : DynamicFilterRegistry ε S) : Prop :=
  ∀ id task, NotifiedSince s.history id task → s.Due id task → (id, task) ∈ s.delivered

theorem delivered_new : (new : DynamicFilterRegistry ε S).Delivered := by
  intro id task hnotified
  cases hnotified.consumer

/-- What dispatching leaves as it is. -/
structure Dispatches (s next : DynamicFilterRegistry ε S) : Prop where
  filters : next.filters = s.filters
  taskSenders : next.taskSenders = s.taskSenders
  delivered : ∀ entry ∈ s.delivered, entry ∈ next.delivered
  notified : ∀ id task, NotifiedSince next.history id task → NotifiedSince s.history id task

theorem Dispatches.refl (s : DynamicFilterRegistry ε S) : Dispatches s s :=
  ⟨rfl, rfl, fun _ h => h, fun _ _ h => h⟩

theorem Dispatches.trans {mid : DynamicFilterRegistry ε S} (h : Dispatches s mid)
    (hnext : Dispatches mid next) : Dispatches s next :=
  ⟨hnext.filters.trans h.filters, hnext.taskSenders.trans h.taskSenders,
    fun entry hentry => hnext.delivered entry (h.delivered entry hentry),
    fun id task hnotified => h.notified id task (hnext.notified id task hnotified)⟩

theorem Dispatches.due (h : Dispatches s next) (hdue : next.Due id task) : s.Due id task where
  merged := filter_of_filters_eq h.filters id ▸ hdue.merged
  sender := h.taskSenders ▸ hdue.sender
  notProducer := filter_of_filters_eq h.filters id ▸ hdue.notProducer

theorem FullyDelivered.dispatches (hs : s.FullyDelivered id) (h : Dispatches s next) :
    next.FullyDelivered id := by
  intro task htask hdue
  rw [filter_of_filters_eq h.filters] at htask
  exact h.delivered _ (hs task htask (h.due hdue))

theorem dispatchTo_open (hopen : env.Open) (id : ℕ) (filter : PlannedDynamicFilter ε S)
    (update : ApplyDynamicFilter ε S) (tasks : List TaskKey) (s : DynamicFilterRegistry ε S) :
    (dispatchTo env id filter update tasks s).1 = .ok () ∧
      Dispatches s (dispatchTo env id filter update tasks s).2 ∧
      ∀ task ∈ tasks, task ∉ filter.producers → s.taskSenders.lookup task ≠ none →
        (id, task) ∈ (dispatchTo env id filter update tasks s).2.delivered := by
  induction tasks generalizing s with
  | nil => exact ⟨rfl, .refl s, by simp⟩
  | cons first tasks ih =>
    rw [dispatchTo]
    split
    · rename_i hskip
      obtain ⟨hok, hnext, htasks⟩ := ih s
      refine ⟨hok, hnext, List.forall_mem_cons.mpr ⟨fun hproducer _ => ?_, htasks⟩⟩
      exact hnext.delivered _ (hskip.resolve_left hproducer)
    · split
      · rename_i hnone
        obtain ⟨hok, hnext, htasks⟩ := ih s
        exact ⟨hok, hnext, List.forall_mem_cons.mpr ⟨fun _ hsome => absurd hnone hsome, htasks⟩⟩
      · rename_i sender hsender
        rw [if_neg (by rw [hopen.closed]; exact Bool.false_ne_true)]
        have hsend : Dispatches s ({ s with delivered := s.delivered.insert (id, first) }.log
            (.sent sender first update)) := by
          refine ⟨rfl, rfl, fun entry hentry => List.mem_insert_of_mem hentry, ?_⟩
          intro other task hnotified
          exact (notifiedSince_cons.mp hnotified).resolve_left fun h => h.1
        obtain ⟨hok, hnext, htasks⟩ := ih ({ s with
          delivered := s.delivered.insert (id, first) }.log (.sent sender first update))
        refine ⟨hok, hsend.trans hnext, List.forall_mem_cons.mpr ⟨fun _ _ => ?_, htasks⟩⟩
        exact hnext.delivered _ List.mem_insert_self

def CoversConsumers (env : CallEnv) (s : DynamicFilterRegistry ε S) : Prop :=
  ∀ id, ∀ task ∈ (s.filter id).consumerTasks, task ∈ env.consumers id

theorem coversConsumers_of_lists (h : env.Lists s) : CoversConsumers env s := by
  intro id task htask
  unfold DynamicFilterRegistry.filter at htask
  cases hfilter : s.filters.lookup id with
  | none =>
    rw [hfilter] at htask
    cases htask
  | some filter =>
    rw [hfilter] at htask
    exact (h.consumers id filter hfilter task).mpr htask

theorem CoversConsumers.of_filters_eq (h : CoversConsumers env s)
    (hfilters : next.filters = s.filters) : CoversConsumers env next := by
  intro id task htask
  rw [filter_of_filters_eq hfilters] at htask
  exact h id task htask

theorem CoversConsumers.setFilter (h : CoversConsumers env s) {filter : PlannedDynamicFilter ε S}
    (hconsumers : filter.consumerTasks = (s.filter id).consumerTasks) :
    CoversConsumers env (s.setFilter id filter) := fun other task htask =>
  h other task (filter_setFilter_of (task ∈ ·.consumerTasks) htask fun htask => hconsumers ▸ htask)

theorem lookup_of_merged (h : (s.filter id).merged ≠ none) :
    s.filters.lookup id = some (s.filter id) := by
  unfold DynamicFilterRegistry.filter at h ⊢
  cases hfilter : s.filters.lookup id with
  | none =>
    rw [hfilter] at h
    exact absurd rfl h
  | some filter => rfl

theorem dispatch_open (hs : s.Consistent) (hopen : env.Open) (henv : CoversConsumers env s)
    (id : ℕ) :
    (s.dispatch env id).1 = .ok () ∧ Dispatches s (s.dispatch env id).2 ∧
      (s.dispatch env id).2.FullyDelivered id := by
  cases hmerged : (s.filter id).merged with
  | none =>
    have hsame : s.dispatch env id = (.ok (), s) := by
      unfold dispatch
      rw [if_neg (by rw [hopen.finished]; exact Bool.false_ne_true)]
      split
      · rfl
      · rename_i filter hfilter
        have hbytes : filter.mergedBytes = none := by
          rw [← filter_of_lookup hfilter, (hs.filter id).bytes, hmerged]
          rfl
        rw [hbytes]
    rw [hsame]
    exact ⟨rfl, .refl s, fun task _ hdue => absurd hmerged hdue.merged⟩
  | some node =>
    have hsome : (s.filter id).merged ≠ none := by
      rw [hmerged]
      exact Option.some_ne_none node
    have hbytes : (s.filter id).mergedBytes = some ⟨id, node⟩ := by
      rw [(hs.filter id).bytes, hmerged]
      rfl
    obtain ⟨producer, hproducer⟩ := (hs.filter id).mergedProducer hsome
    obtain ⟨schema, hschema⟩ :=
      Option.ne_none_iff_exists'.mp ((hs.filter id).schema producer hproducer)
    have hrun : s.dispatch env id = dispatchTo env id (s.filter id) ⟨id, ⟨id, node⟩, schema⟩
        (env.consumers id) s := by
      simp only [dispatch, hopen.finished, lookup_of_merged hsome, hbytes, hschema,
        Bool.false_eq_true, if_false]
    rw [hrun]
    obtain ⟨hok, hnext, htasks⟩ := dispatchTo_open hopen id (s.filter id)
      ⟨id, ⟨id, node⟩, schema⟩ (env.consumers id) s
    refine ⟨hok, hnext, fun task htask hdue => ?_⟩
    rw [filter_of_filters_eq hnext.filters] at htask
    have hdue := hnext.due hdue
    exact htasks task (henv id task htask) hdue.notProducer hdue.sender

/-- What a registration or a report leaves as it is. -/
structure Quiet (s next : DynamicFilterRegistry ε S) : Prop where
  taskSenders : next.taskSenders = s.taskSenders
  delivered : next.delivered = s.delivered
  merged : ∀ id, (next.filter id).merged = (s.filter id).merged
  producers : ∀ id, ∀ task ∈ (s.filter id).producers, task ∈ (next.filter id).producers
  notified : ∀ id task, NotifiedSince next.history id task → NotifiedSince s.history id task

namespace Quiet

theorem refl (s : DynamicFilterRegistry ε S) : Quiet s s :=
  ⟨rfl, rfl, fun _ => rfl, fun _ _ h => h, fun _ _ h => h⟩

theorem trans {mid : DynamicFilterRegistry ε S} (h : Quiet s mid) (hnext : Quiet mid next) :
    Quiet s next :=
  ⟨hnext.taskSenders.trans h.taskSenders, hnext.delivered.trans h.delivered,
    fun id => (hnext.merged id).trans (h.merged id),
    fun id task htask => hnext.producers id task (h.producers id task htask),
    fun id task hnotified => h.notified id task (hnext.notified id task hnotified)⟩

theorem log (hevent : ∀ id, ¬ event.Redispatches id) :
    Quiet s (s.log event) :=
  ⟨rfl, rfl, fun _ => rfl, fun _ _ h => h, fun id _ hnotified =>
    (notifiedSince_cons.mp hnotified).resolve_left fun h => hevent id h.1⟩

theorem setFilter {filter : PlannedDynamicFilter ε S}
    (hmerged : filter.merged = (s.filter id).merged)
    (hproducers : ∀ task ∈ (s.filter id).producers, task ∈ filter.producers) :
    Quiet s (s.setFilter id filter) where
  taskSenders := rfl
  delivered := rfl
  merged other := filter_setFilter_imp (·.merged = (s.filter other).merged) rfl hmerged.trans
  producers _ task htask := filter_setFilter_imp (task ∈ ·.producers) htask (hproducers task)
  notified _ _ h := h

theorem registerProducers [DecidableEq S] {producers : List (ℕ × DynamicFilterMergePolicy × S)}
    {result : Result Unit} (h : registerProducers task producers s = (result, next)) :
    Quiet s next := by
  induction producers generalizing s with
  | nil =>
    cases h
    exact refl _
  | cons entry producers ih =>
    rw [DynamicFilterRegistry.registerProducers] at h
    split at h
    · rename_i e filter hfilter
      cases h
      obtain ⟨known, rfl, -⟩ := PlannedDynamicFilter.registerProducer_error hfilter
      exact setFilter rfl fun _ h => h
    · rename_i filter hfilter
      obtain ⟨-, -, rfl⟩ := PlannedDynamicFilter.registerProducer_ok hfilter
      refine trans (setFilter (by rfl) ?_) (trans (log ?_) (ih h))
      · exact fun _ h => HashMap.mem_orInsert.mpr (Or.inr h)
      · exact fun _ h => h

theorem registerConsumers (consumers : List ℕ) (s : DynamicFilterRegistry ε S) :
    Quiet s (registerConsumers task consumers s) := by
  induction consumers generalizing s with
  | nil => exact refl s
  | cons id consumers ih =>
    refine trans (setFilter (by rfl) ?_) (trans (log ?_) (ih _))
    · exact fun _ h => h
    · exact fun _ h => h

theorem registerTask [DecidableEq S] (s : DynamicFilterRegistry ε S) (plan : FilterPlan S)
    (task : TaskKey) : Quiet s (s.registerTask plan task).2 := by
  unfold DynamicFilterRegistry.registerTask
  split
  · exact refl s
  · split
    · exact refl s
    · dsimp only
      split
      · rename_i hproducers
        exact trans (log (by simp [RegistryEvent.Redispatches])) (registerProducers hproducers)
      · rename_i hproducers
        exact (trans (log (by simp [RegistryEvent.Redispatches]))
          (registerProducers hproducers)).trans (registerConsumers _ _)

end Quiet

theorem Delivered.quiet (hs : s.Delivered) (h : Quiet s next) : next.Delivered := by
  intro id task hnotified hdue
  rw [h.delivered]
  refine hs id task (h.notified id task hnotified) ⟨?_, ?_, ?_⟩
  · rw [← h.merged]
    exact hdue.merged
  · rw [← h.taskSenders]
    exact hdue.sender
  · exact fun htask => hdue.notProducer (h.producers id task htask)

variable [PhysicalExprNodes ε] [DecidableEq ε]

theorem Consistent.dispatch (hs : s.Consistent) (hlists : ListsConsumers env s) (id : ℕ) :
    (s.dispatch env id).2.Consistent :=
  invariant_of_updates (fun _ _ hs hupdate => hs.update hupdate) hs (updates_dispatch hlists id)

section Open

variable (hopen : env.Open) (hs : s.Consistent) (hlists : ListsConsumers env s)
  (hcovers : CoversConsumers env s)
include hopen hs hlists hcovers

theorem dispatchAll_open (ids : List ℕ) :
    Dispatches s (dispatchAll env ids s).2 ∧ (dispatchAll env ids s).2.Consistent ∧
      ∀ id ∈ ids, (dispatchAll env ids s).2.FullyDelivered id := by
  induction ids generalizing s with
  | nil => exact ⟨.refl s, hs, by simp⟩
  | cons id ids ih =>
    obtain ⟨hok, hmid, hfull⟩ := dispatch_open hs hopen hcovers id
    have hconsistent := hs.dispatch hlists id
    rw [dispatchAll]
    generalize s.dispatch env id = dispatched at hok hmid hfull hconsistent
    obtain ⟨result, mid⟩ := dispatched
    obtain rfl : result = .ok () := hok
    obtain ⟨hnext, hlast, hall⟩ := ih hconsistent (hlists.of_filters_eq hmid.filters)
      (hcovers.of_filters_eq hmid.filters)
    exact ⟨hmid.trans hnext, hlast, List.forall_mem_cons.mpr ⟨hfull.dispatches hnext, hall⟩⟩

/-- With open channels a merge succeeds; the consumers of a filter that is merged anew get it, the
others keep what they have. -/
theorem mergeAndDispatch_open (id : ℕ) :
    (s.mergeAndDispatch env id).1 = .ok () ∧ (s.mergeAndDispatch env id).2.Consistent ∧
      CoversConsumers env (s.mergeAndDispatch env id).2 ∧
      (s.Delivered → (s.mergeAndDispatch env id).2.Delivered) := by
  unfold mergeAndDispatch merge
  cases hfilter : s.filters.lookup id with
  | none => exact ⟨rfl, hs, hcovers, fun h => h⟩
  | some filter =>
    obtain rfl := filter_of_lookup hfilter
    dsimp only
    cases hchanged : (s.filter id).mergeReports s.sealedStages with
    | none => exact ⟨rfl, hs, hcovers, fun h => h⟩
    | some node =>
      have hmid := hs.update (.merged id node hchanged)
      have hmidLists := hlists.merge id
      simp only [merge, hfilter, hchanged] at hmidLists
      have hmidCovers : CoversConsumers env
          ((s.setMerged id (s.filter id) node).log (.merged id node)) :=
        .of_filters_eq (hcovers.setFilter (by rfl)) rfl
      obtain ⟨hok, hnext, hfull⟩ := dispatch_open hmid hopen hmidCovers id
      have hlast := hmid.dispatch hmidLists id
      refine ⟨hok, hlast, hmidCovers.of_filters_eq hnext.filters, ?_⟩
      intro h other task hnotified hdue
      by_cases heq : other = id
      · subst heq
        exact hfull task (((hlast.filter other).consumer task).mpr hnotified.consumer) hdue
      · have hnotified := (notifiedSince_cons.mp (hnext.notified other task hnotified)).resolve_left
          fun h => heq h.1.symm
        obtain ⟨hmerged, hsender, hproducer⟩ := hnext.due hdue
        rw [filter_log, filter_setMerged_ne heq] at hmerged hproducer
        have hdelivered := h other task hnotified ⟨hmerged, hsender, hproducer⟩
        exact hnext.delivered _ (List.mem_filter.mpr ⟨hdelivered, by simpa using heq⟩)

theorem mergeAndDispatchAll_open (ids : List ℕ) :
    (mergeAndDispatchAll env ids s).1 = .ok () ∧
      (s.Delivered → (mergeAndDispatchAll env ids s).2.Delivered) := by
  induction ids generalizing s with
  | nil => exact ⟨rfl, fun h => h⟩
  | cons id ids ih =>
    obtain ⟨hok, hmid, hmidCovers, hkept⟩ := mergeAndDispatch_open hopen hs hlists hcovers id
    have hmidLists := (updates_mergeAndDispatch hlists id).2
    rw [mergeAndDispatchAll]
    generalize s.mergeAndDispatch env id = merged at hok hmid hmidCovers hkept hmidLists
    obtain ⟨result, mid⟩ := merged
    obtain rfl : result = .ok () := hok
    obtain ⟨hlast, hnext⟩ := ih hmid hmidLists hmidCovers
    exact ⟨hlast, fun h => hnext (hkept h)⟩

theorem Delivered.recordReport (h : s.Delivered) (task : TaskKey) (id : ℕ)
    {report : PhysicalDynamicFilterNode ε} (hinner : report.innerExpr ≠ none) :
    (s.recordReport env task id report).2.Delivered := by
  unfold DynamicFilterRegistry.recordReport
  split
  · exact h
  · rename_i filter hfilter
    have hid : id ∈ s.filters := HashMap.mem_iff_exists_lookup.mpr ⟨_, hfilter⟩
    obtain rfl := filter_of_lookup hfilter
    split
    · exact h
    · rename_i previous hprevious
      have hlog : Quiet s (s.log (.reported id task report)) := .log fun _ h => h
      split
      · exact h.quiet hlog
      · rename_i hignores
        have hmid := hs.update (.stored id task report previous hprevious hinner
          (Bool.eq_false_iff.mpr hignores))
        refine (mergeAndDispatch_open hopen hmid ?_ ?_ id).2.2.2
          (h.quiet (hlog.trans (.setFilter (by rfl) ?_)))
        · exact ListsConsumers.setFilter (hlists.of_filters_eq rfl) hid rfl
        · exact CoversConsumers.setFilter (hcovers.of_filters_eq rfl) rfl
        · exact fun other hother => (AList.mem_insert _).mpr (Or.inr hother)

theorem Delivered.recordDynamicFilterUpdate (h : s.Delivered) (task : TaskKey)
    (report : ProducedDynamicFilter ε) :
    (s.recordDynamicFilterUpdate env task report).2.Delivered := by
  unfold DynamicFilterRegistry.recordDynamicFilterUpdate
  dsimp only
  iterate 4
    split
    · exact h
  rename_i hinner
  exact h.recordReport hopen hs hlists hcovers task _ (by simpa using hinner)

end Open

theorem sealStage_open (hopen : env.Open) (hs : s.Consistent) (hlists : env.Lists s)
    (stage : ℕ) : (s.sealStage env stage).1 = .ok () ∧
      (s.Delivered → (s.sealStage env stage).2.Delivered) := by
  have hquiet : Quiet s ({ s with sealedStages := s.sealedStages.insert stage }.log
      (.sealed stage)) :=
    ⟨rfl, rfl, fun _ => rfl, fun _ _ h => h, fun _ _ hnotified =>
      (notifiedSince_cons.mp hnotified).resolve_left fun h => h.1⟩
  obtain ⟨hok, hnext⟩ := mergeAndDispatchAll_open hopen (hs.update (.sealed stage))
    ((listsConsumers_of_lists hlists).of_filters_eq rfl)
    ((coversConsumers_of_lists hlists).of_filters_eq rfl) env.ids
  exact ⟨hok, fun h => hnext (h.quiet hquiet)⟩

/-- Between two calls every consumer that is due has its filter. -/
theorem Delivered.step [DecidableEq S] (h : s.Delivered) (hs : s.Consistent)
    {a : RegistryCall ε S × CallEnv} (hstep : (openSystem ε S).step s a next) :
    next.Delivered := by
  obtain ⟨call, env⟩ := a
  obtain ⟨⟨henv, hfresh, rfl⟩, hopen⟩ := hstep
  have hlists := listsConsumers_of_lists henv
  have hcovers := coversConsumers_of_lists henv
  cases call with
  | registerTask plan task => exact h.quiet (.registerTask s plan task)
  | registerSender task sender =>
    have hmid := hs.update (.sender task sender (hfresh task sender rfl))
    obtain ⟨hnext, hlast, hall⟩ := dispatchAll_open hopen hmid
      (hlists.of_filters_eq rfl) (hcovers.of_filters_eq rfl) env.ids
    intro id consumer hnotified hdue
    have hid : id ∈ s.filters := by
      have hmerged := (hnext.due hdue).merged
      exact HashMap.mem_iff_exists_lookup.mpr ⟨_, lookup_of_merged hmerged⟩
    exact hall id ((henv.ids id).mpr hid) consumer
      (((hlast.filter id).consumer consumer).mpr hnotified.consumer) hdue
  | sealStage stage => exact (sealStage_open hopen hs henv stage).2 h
  | recordDynamicFilterUpdate task report =>
    exact h.recordDynamicFilterUpdate hopen hs hlists hcovers task report

end Calls

variable [PhysicalExprNodes ε] [DecidableEq ε] [DecidableEq S] {s : DynamicFilterRegistry ε S}

theorem merged_of_after {id : ℕ} {node : PhysicalDynamicFilterNode ε}
    (hmerged : (s.filter id).merged = some node) (hcomplete : node.isComplete = true)
    {next : DynamicFilterRegistry ε S} (h : ((openSystem ε S).after s).Reachable next) :
    (next.filter id).merged = some node := by
  refine h.invariant ?_ ?_
  · rintro _ rfl
    exact hmerged
  · intro s a next hs hstep
    refine invariant_of_updates ?_ hs (updates_of_step hstep.1)
    intro s next hs hupdate
    rcases merged_of_update hupdate with hsame | ⟨changed, hchanged, -⟩
    · rw [hsame, hs]
    · obtain ⟨-, -, hprevious, -⟩ := mergeReports_some hchanged
      rw [(hprevious node hs).1] at hcomplete
      cases hcomplete

/-- While the query goes on and all channels are open: the generations on one sender increase; a
task that produces the filter is not sent it; between two calls a consumer has the merged filter on
its current sender; and a complete merged filter stays. -/
theorem merged_filters_delivered (h : (openSystem ε S).Reachable s) (id : ℕ) :
    (∀ later sender task update between other previous earlier,
      s.history = later ++ .sent sender task update ::
        (between ++ .sent sender other previous :: earlier) →
      update.expressionId = id → previous.expressionId = id →
      previous.generation < update.generation) ∧
    (∀ later sender task update earlier, s.history = later ++ .sent sender task update :: earlier →
      update.expressionId = id → ∀ mode, .producer id task mode ∉ earlier) ∧
    (∀ task, (∀ produced, .registering task produced ∈ s.history → id ∈ produced) →
      ∀ sender update, .sent sender task update ∈ s.history → update.expressionId ≠ id) ∧
    (∀ task sender node, NotifiedSince s.history id task →
      s.taskSenders.lookup task = some sender → (∀ mode, .producer id task mode ∉ s.history) →
      (s.filter id).merged = some node →
      ∃ schema, .sent sender task ⟨id, ⟨id, node⟩, schema⟩ ∈ s.history) ∧
    (∀ node, (s.filter id).merged = some node → node.isComplete = true →
      ∀ next, ((openSystem ε S).after s).Reachable next →
        (next.filter id).merged = some node) := by
  obtain ⟨hs, hdelivering, -, hallowed⟩ : s.Consistent ∧ s.Delivering ∧ s.ConsumersRegistered ∧
      Logged RegistryEvent.Allowed s.history := by
    refine invariant_of_update ⟨consistent_new, delivering_new, consumersRegistered_new,
      Logged.nil⟩ ?_ h.of_restrict
    rintro s next ⟨hs, hdelivering, hconsumers, hallowed⟩ hupdate
    exact ⟨hs.update hupdate, hdelivering.update hs hupdate, hconsumers.update hupdate,
      allowed_update hs hdelivering hconsumers hallowed hupdate⟩
  have hdelivered : s.Consistent ∧ s.Delivered := by
    refine h.invariant ?_ ?_
    · rintro _ rfl
      exact ⟨consistent_new, delivered_new⟩
    · rintro s a next ⟨hs, hdelivered⟩ hstep
      exact ⟨invariant_of_updates (fun _ _ hs hupdate => hs.update hupdate) hs
        (updates_of_step hstep.1), hdelivered.step hs hstep⟩
  refine ⟨?_, ?_, ?_, ?_, fun node => merged_of_after⟩
  · intro later sender task update between other previous earlier hhistory hid hprevious
    rw [hhistory] at hallowed
    refine (hallowed.of_append sender task update rfl).1 other previous ?_
      (hprevious.trans hid.symm)
    exact List.mem_append_right _ List.mem_cons_self
  · intro later sender task update earlier hhistory hid mode
    rw [hhistory] at hallowed
    subst hid
    exact (hallowed.of_append sender task update rfl).2.1 mode
  · intro task hproduces sender update hsent hid
    obtain ⟨later, earlier, hhistory⟩ := List.append_of_mem hsent
    rw [hhistory] at hallowed hproduces
    obtain ⟨-, -, produced, hregistering, hnot⟩ := hallowed.of_append sender task update rfl
    refine hnot (hid ▸ hproduces produced ?_)
    exact List.mem_append_right _ (List.mem_cons_of_mem _ hregistering)
  · intro task sender node hnotified hlookup hproducer hmerged
    have hentry : (id, task) ∈ s.delivered := by
      refine hdelivered.2 id task hnotified ⟨?_, ?_, fun htask => ?_⟩
      · rw [hmerged]
        exact Option.some_ne_none node
      · rw [hlookup]
        exact Option.some_ne_none sender
      · obtain ⟨mode, hmode⟩ := ((hs.filter id).producer task).mp htask
        exact hproducer mode hmode
    obtain ⟨known, last, schema, hknown, hlast, hsent⟩ := hdelivering.delivered id task hentry
    obtain rfl := Option.some.inj (hlookup.symm.trans hknown)
    obtain rfl := Option.some.inj (hmerged.symm.trans hlast)
    exact ⟨schema, hsent⟩

/-- The scan is dialed again after the filter was sent on its first sender. -/
def redialed : DynamicFilterRegistry RowSet Unit :=
  runCalls (.registerSender ⟨2, 0⟩ 0 :: twoProducers ++ [.registerSender ⟨2, 0⟩ 1])

theorem merged_filters_delivered_redialed :
    (openSystem RowSet Unit).Reachable redialed ∧
      .sent 0 ⟨2, 0⟩ ⟨1, ⟨1, ⟨[], 0, some ⟨[1, 2]⟩, true⟩⟩, ()⟩ ∈ redialed.history ∧
      ∃ schema, .sent 1 ⟨2, 0⟩ ⟨1, ⟨1, ⟨[], 0, some ⟨[1, 2]⟩, true⟩⟩, schema⟩ ∈
        redialed.history := by
  have hfirst := reachable_runCalls twoProducers (by simp [twoProducers])
  have hreachable : (openSystem RowSet Unit).Reachable redialed := by
    refine reachable_call hfirst (.registerSender ⟨2, 0⟩ 1) ?_
    intro task sender hcall other
    cases hcall
    rw [history_twoProducers]
    simp
  have hhistory : redialed.history =
      .sent 1 ⟨2, 0⟩ ⟨1, ⟨1, ⟨[], 0, some ⟨[1, 2]⟩, true⟩⟩, ()⟩ :: .sender ⟨2, 0⟩ 1 ::
        (runCalls (.registerSender ⟨2, 0⟩ 0 :: twoProducers)).history := by
    rfl
  rw [history_twoProducers] at hhistory
  refine ⟨hreachable, by rw [hhistory]; simp, ?_⟩
  refine (merged_filters_delivered hreachable 1).2.2.2.1 ⟨2, 0⟩ 1 ⟨[], 0, some ⟨[1, 2]⟩, true⟩ ?_
    rfl ?_ rfl
  · rw [hhistory]
    exact ⟨[_], _, _, rfl, trivial, by simp⟩
  · rw [hhistory]
    simp

end DynamicFilterRegistry

end DatafusionDistributed
