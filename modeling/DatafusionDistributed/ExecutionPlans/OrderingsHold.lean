import DatafusionDistributed.ExecutionPlans.BoundaryOrdering

/-!
# When advertised orderings hold

The requests of a boundary all ask for the same partition and the same head node, from all
producer tasks or from one. So the output has the advertised orderings if they follow from those
of the producers' plan and, where the streams of several tasks are combined, from the one that
the boundary merges by. `orderings_hold_iff` shows that this is also necessary, and says what it
means for the plan that the boundary was built over and for what happened to the boundary since.
-/

namespace DatafusionDistributed

open Library Plan

variable {κ : Type}

/-! ## The requests of a boundary -/

variable {workers partition : ℕ} {head : ProducerHead κ} {requests : List (WorkerRequest κ)}
  {ctx : DistributedTaskContext} {self : Boundary κ}

variable {range : ℕ × ℕ} {exec : NetworkShuffleExec κ} {scale : RangeScale κ} {df : DataFusion κ}
  {ordering : List PhysicalExpr}

theorem workerExecute_eq {targetTask targetPartition : ℕ} {request : WorkerRequest κ}
    (h : workerExecute workers range targetTask targetPartition head = .ok request) :
    request = ⟨range, targetTask, targetPartition, head⟩ := by
  obtain ⟨-, h⟩ := ite_error_ok_iff.mp h
  split at h
  · cases h
  · cases h
    rfl

theorem requests_eq_map {target : ℕ} {tasks : List ℕ}
    (h : tasks.mapM (fun i => workerExecute workers range i target head) = .ok requests) :
    requests = tasks.map fun i => ⟨range, i, target, head⟩ := by
  rw [mapM_ok_iff] at h
  induction h with
  | nil => rfl
  | cons hrequest _ ih => rw [workerExecute_eq hrequest, ih, List.map_cons]

namespace Boundary

def readsAll : Boundary κ → Bool
  | shuffle exec => decide (exec.mode = .direct)
  | coalesce _ => false
  | broadcast _ => true

/-- The head nodes that the requests of a boundary ask for. -/
def AsksFor (self : Boundary κ) (head : ProducerHead κ) : Prop :=
  match self with
  | shuffle exec => ∃ partitioning, head =
      .repartitionExec partitioning exec.properties.eqProperties.outputOrdering.isSome
  | coalesce _ => head = .none
  | broadcast _ => ∃ outputPartitions, head = .broadcastExec outputPartitions

/-- The requests for one partition ask for one partition of one head node. -/
def Asks (self : Boundary κ) (workers : ℕ) (requests : List (WorkerRequest κ)) : Prop :=
  ∃ range first target head, self.AsksFor head ∧
    requests = (if self.readsAll then List.range workers else [first]).map fun i =>
      ⟨range, i, target, head⟩

end Boundary

theorem NetworkShuffleExec.producerHead_eq {consumers : ℕ}
    (h : exec.producerHead scale consumers = .ok head) :
    ∃ partitioning, head =
      .repartitionExec partitioning exec.properties.eqProperties.outputOrdering.isSome := by
  unfold producerHead at h
  cases hmode : exec.mode with
  | direct | twoPhase salt =>
    rw [hmode] at h
    obtain ⟨partitioning, -, h⟩ := bind_ok_iff.mp h
    cases h
    exact ⟨partitioning, rfl⟩

theorem NetworkShuffleExec.asks
    (h : exec.executeRemote scale workers partition ctx = .ok (.remote requests)) :
    (Boundary.shuffle exec).Asks workers requests := by
  have hfound : ∀ found : List (WorkerRequest κ),
      (if found.isEmpty then BoundaryStream.empty else .remote found) = .remote requests →
      found = requests ∧ found ≠ [] := by
    intro found hfound
    cases found with
    | nil => cases hfound
    | cons first rest =>
      cases hfound
      exact ⟨rfl, List.cons_ne_nil _ _⟩
  unfold executeRemote at h
  cases hmode : exec.mode with
  | direct =>
    rw [hmode] at h
    obtain ⟨found, hmap, h⟩ := bind_ok_iff.mp h
    obtain ⟨rfl, hne⟩ := hfound found (Except.ok.inj h)
    cases hhead : exec.producerHead scale ctx.taskCount with
    | error e =>
      -- Without a head node there is no request, and then no producer task.
      rw [hhead, mapM_ok_iff] at hmap
      obtain ⟨request, rest, rfl⟩ := List.exists_cons_of_ne_nil hne
      obtain ⟨i, others, hfirst, -⟩ := List.forall₂_cons_right_iff.mp hmap
      cases hfirst
    | ok head =>
      rw [hhead] at hmap
      have hall : (Boundary.shuffle exec).readsAll = true := by simp [Boundary.readsAll, hmode]
      exact ⟨_, 0, _, head, producerHead_eq hhead,
        (requests_eq_map hmap).trans (by rw [if_pos hall])⟩
  | twoPhase salt =>
    rw [hmode] at h
    obtain ⟨head, hhead, h⟩ := bind_ok_iff.mp h
    obtain ⟨request, hrequest, h⟩ := bind_ok_iff.mp h
    obtain ⟨rfl, -⟩ := hfound [request] (Except.ok.inj h)
    have hall : (Boundary.shuffle exec).readsAll = false := by simp [Boundary.readsAll, hmode]
    refine ⟨request.targetPartitions, partition, request.targetPartition, head,
      producerHead_eq hhead, ?_⟩
    rw [hall, workerExecute_eq hrequest]
    rfl

theorem NetworkBroadcastExec.asks {exec : NetworkBroadcastExec κ}
    (h : exec.executeRemote workers partition ctx = .ok (.remote requests)) :
    (Boundary.broadcast exec).Asks workers requests := by
  obtain ⟨found, hfound, h⟩ := bind_ok_iff.mp h
  cases h
  exact ⟨_, 0, _, _, ⟨_, rfl⟩, requests_eq_map hfound⟩

theorem NetworkCoalesceExec.asks {exec : NetworkCoalesceExec κ}
    (h : exec.executeRemote workers partition ctx = .ok (.remote requests)) :
    (Boundary.coalesce exec).Asks workers requests := by
  obtain ⟨-, h⟩ := ite_error_ok_iff.mp h
  dsimp only at h
  obtain ⟨-, h⟩ := ite_error_ok_iff.mp h
  split at h
  · cases h
  · split at h
    · cases h
    · obtain ⟨head, hhead, h⟩ := bind_ok_iff.mp h
      obtain ⟨request, hrequest, h⟩ := bind_ok_iff.mp h
      cases h
      cases hhead
      refine ⟨request.targetPartitions, request.targetTask, request.targetPartition, .none, rfl,
        ?_⟩
      rw [workerExecute_eq hrequest]
      rfl

theorem Boundary.execute_asks {num : ℕ} (hstage : self.inputStage = .remoteStage num workers)
    (h : self.execute df partition ctx = .ok (.remote requests)) : self.Asks workers requests := by
  cases self with
  | shuffle exec =>
    rw [execute, NetworkShuffleExec.execute, show exec.inputStage = _ from hstage] at h
    exact NetworkShuffleExec.asks h
  | coalesce exec =>
    rw [execute, NetworkCoalesceExec.execute, show exec.inputStage = _ from hstage] at h
    exact NetworkCoalesceExec.asks h
  | broadcast exec =>
    rw [execute, NetworkBroadcastExec.execute, show exec.inputStage = _ from hstage] at h
    exact NetworkBroadcastExec.asks h

/-- A boundary that advertises an ordering asks for head nodes that preserve the order. -/
theorem Boundary.AsksFor.preserves (h : self.AsksFor head) (hordering : ordering ∈ self.orderings)
    {partitioning : Partitioning κ} {preserveOrder : Bool}
    (hhead : head = .repartitionExec partitioning preserveOrder) : preserveOrder = true := by
  cases self with
  | shuffle exec =>
    obtain ⟨asked, h⟩ := h
    rw [h] at hhead
    cases hhead
    by_contra hnone
    have hempty := EquivalenceProperties.orderings_of_isSome (Bool.eq_false_iff.mpr hnone)
    simp [orderings, properties, hempty] at hordering
  | coalesce exec | broadcast exec => simp [AsksFor, hhead] at h

namespace PlannedBoundary

variable {df : DataFusion κ} {self : PlannedBoundary κ} {num workers consumers : ℕ}

/-- The orderings of the plan below the head node, as the producers run it. -/
def inputOrderings (df : DataFusion κ) (self : PlannedBoundary κ) : List (List PhysicalExpr) :=
  (self.plan.withoutHead.properties df).eqProperties.orderings

/-! ## The condition is enough -/

theorem orderingsHold_of_satisfied (hstage : self.node.inputStage = .remoteStage num workers)
    (h : ∀ ordering ∈ self.node.orderings, Satisfied (self.inputOrderings df) ordering ∧
      (self.node.readsAll = true → 2 ≤ workers →
        Satisfied [self.node.mergeOrdering] ordering)) :
    self.OrderingsHold df consumers := by
  intro Row V _ key route tasks hruns j _ p _ out hyields ordering hordering
  rcases hyields with ⟨-, rfl⟩ | ⟨requests, streams, hexecute, hserves, hcombines⟩
  · exact List.Pairwise.nil
  obtain ⟨range, first, target, head, hhead, hrequests⟩ :=
    Boundary.execute_asks hstage hexecute
  have hstreams : ∀ stream ∈ streams, ∀ other ∈ self.node.orderings,
      SortedBy key other stream := by
    intro stream hstream other hother
    obtain ⟨request, hrequest, hserves⟩ := exists_of_forall₂ hserves hstream
    rw [hrequests] at hrequest
    obtain ⟨i, -, rfl⟩ := List.mem_map.mp hrequest
    refine .of_satisfied (h other hother).1 fun input hinput => ?_
    exact hserves.sorted (hruns _) (fun _ _ heq => hhead.preserves hother heq) hinput
  refine hcombines.sorted hstreams hordering fun hmany => ?_
  rw [← hserves.length_eq, hrequests, List.length_map] at hmany
  by_cases hall : self.node.readsAll = true
  · rw [if_pos hall, List.length_range] at hmany
    exact (h ordering hordering).2 hall hmany
  · rw [if_neg hall, List.length_singleton] at hmany
    omega

/-! ## The condition is necessary -/

/-- Producer tasks that serve given streams: all rows are in one partition of the plan and are
routed to the partition that is asked for. -/
theorem exists_serving {Row V : Type} [LinearOrder V] (key : PhysicalExpr → Row → V)
    {input : Plan κ} (hpos : 0 < input.partitionCount df) {range : ℕ × ℕ} (target : ℕ)
    {head : ProducerHead κ} (hhead : head ≠ .none)
    (hserved : range.2 ≤ head.partitionCount (input.partitionCount df)) {rows : ℕ → List Row}
    (hrows : ∀ i, ∀ ordering ∈ (input.properties df).eqProperties.orderings,
      SortedBy key ordering (rows i)) :
    ∃ (route : Partitioning κ → Row → ℕ) (tasks : ℕ → ProducerTask Row),
      (∀ i, (tasks i).Runs df key input) ∧
      ∀ i, (tasks i).Serves df key route input ⟨range, i, target, head⟩ (rows i) := by
  obtain ⟨slot, hslot, hbroadcast⟩ : ∃ slot, slot < input.partitionCount df ∧
      ∀ n, head = .broadcastExec n → slot = target % input.partitionCount df := by
    cases head with
    | none => exact absurd rfl hhead
    | broadcastExec n => exact ⟨_, Nat.mod_lt _ hpos, fun _ _ => rfl⟩
    | repartitionExec partitioning order => exact ⟨0, hpos, fun _ h => by cases h⟩
  have hlength : ∀ i, ((List.replicate (input.partitionCount df) []).set slot (rows i)).length =
      input.partitionCount df := by
    intro i
    rw [List.length_set, List.length_replicate]
  have hget : ∀ i, ((List.replicate (input.partitionCount df) []).set slot (rows i))[slot]? =
      some (rows i) := by
    intro i
    exact List.getElem?_set_self (by simpa using hslot)
  refine ⟨fun _ _ => target,
    fun i => ⟨(List.replicate (input.partitionCount df) []).set slot (rows i)⟩, ?_, ?_⟩
  · intro i
    refine ⟨hlength i, fun stream hstream ordering hordering => ?_⟩
    rcases List.mem_or_eq_of_mem_set hstream with hstream | rfl
    · rw [List.eq_of_mem_replicate hstream]
      exact List.Pairwise.nil
    · exact hrows i ordering hordering
  · intro i
    refine ⟨by simpa only [hlength] using hserved, ?_⟩
    cases head with
    | none => exact absurd rfl hhead
    | broadcastExec n =>
      show rows i = List.getD _ (target % List.length _) []
      rw [hlength, ← hbroadcast n rfl, List.getD_eq_getElem?_getD, hget]
      rfl
    | repartitionExec partitioning order =>
      have hrouted : ((List.replicate (input.partitionCount df) []).set slot (rows i)).map
          (fun stream => stream.filter fun _ => decide (target = target)) =
          (List.replicate (input.partitionCount df) []).set slot (rows i) := by
        simp
      dsimp only
      rw [hrouted]
      refine ⟨Merges.of_single (fun _ => trivial) (hget i) ?_, ?_⟩
      · intro j other hne hj
        rw [List.getElem?_set_ne (Ne.symm hne)] at hj
        exact List.eq_of_mem_replicate (List.mem_of_getElem? hj)
      · intro _ ordering _ hsorted
        exact hsorted _ (List.mem_of_getElem? (hget i))

end PlannedBoundary

theorem Boundary.AsksFor.ne_none (h : self.AsksFor head) (hself : ∀ exec, self ≠ .coalesce exec) :
    head ≠ .none := by
  rintro rfl
  cases self with
  | shuffle exec | broadcast exec => simp [AsksFor] at h
  | coalesce exec => exact hself exec rfl

namespace PlannedBoundary

variable {df : DataFusion κ} {self : PlannedBoundary κ} {num workers consumers : ℕ}

/-- If the orderings hold, they hold for whatever the boundary makes of any sorted streams. -/
theorem OrderingsHold.sorted (h : self.OrderingsHold df consumers)
    (hstage : self.node.inputStage = .remoteStage num workers)
    (hreadable : self.Readable df consumers) (hself : ∀ exec, self.node ≠ .coalesce exec) :
    ∃ first, ∀ (Row V : Type) [LinearOrder V] (key : PhysicalExpr → Row → V) (rows : ℕ → List Row),
      (∀ i, ∀ ordering ∈ self.inputOrderings df, SortedBy key ordering (rows i)) →
      ∀ out, Merges (Precedes key self.node.mergeOrdering)
        ((if self.node.readsAll then List.range workers else [first]).map rows) out →
      ∀ ordering ∈ self.node.orderings, SortedBy key ordering out := by
  obtain ⟨hpos, j, hj, p, hp, requests, hexecute, hserved⟩ := hreadable
  obtain ⟨range, first, target, head, hhead, rfl⟩ := Boundary.execute_asks hstage hexecute
  refine ⟨first, fun Row V _ key rows hrows out hout ordering hordering => ?_⟩
  by_cases hempty : (if self.node.readsAll then List.range workers else [first]) = []
  · rw [hempty] at hout
    rw [hout.eq_nil]
    exact List.Pairwise.nil
  · obtain ⟨i, others, hcons⟩ := List.exists_cons_of_ne_nil hempty
    have hrange := hserved _ (by rw [hcons]; exact List.mem_cons_self)
    obtain ⟨route, tasks, hruns, hserves⟩ :=
      exists_serving key hpos target (hhead.ne_none hself) hrange hrows
    refine h Row V key route tasks hruns j hj p hp out (.inr ⟨_, _, hexecute, ?_,
      (Boundary.combines_iff hself).mpr hout⟩) ordering hordering
    rw [List.forall₂_map_left_iff, List.forall₂_map_right_iff, List.forall₂_same]
    intro i _
    exact hserves i

theorem satisfied_of_orderingsHold (h : self.OrderingsHold df consumers)
    (hstage : self.node.inputStage = .remoteStage num workers) (hworkers : 0 < workers)
    (hreadable : self.Readable df consumers) (hself : ∀ exec, self.node ≠ .coalesce exec)
    {ordering : List PhysicalExpr} (hordering : ordering ∈ self.node.orderings) :
    Satisfied (self.inputOrderings df) ordering ∧
      (self.node.readsAll = true → 2 ≤ workers →
        Satisfied [self.node.mergeOrdering] ordering) := by
  obtain ⟨first, h⟩ := h.sorted hstage hreadable hself
  constructor
  · -- One producer task has two rows, the others have none.
    rw [satisfied_iff]
    intro key hkey
    obtain ⟨leader, hleader⟩ : ∃ leader, leader = if self.node.readsAll then 0 else first :=
      ⟨_, rfl⟩
    have hrows : ∀ i, ∀ other ∈ self.inputOrderings df, SortedBy key other
        (if i = leader then [false, true] else []) := by
      intro i other hother
      split <;> simp [SortedBy, hkey other hother]
    have hpair := h Bool ℕ key _ hrows [false, true] ?_ ordering hordering
    · exact List.pairwise_pair.mp hpair
    · cases hall : self.node.readsAll with
      | true =>
        rw [hall] at hleader
        refine Merges.of_single (precedes_refl _) ?_ ?_ (i := 0)
        · simp [hworkers, hleader]
        · intro k other hne hk
          simp only [List.getElem?_map, Option.map_eq_some_iff] at hk
          obtain ⟨i, hi, rfl⟩ := hk
          obtain ⟨hlt, rfl⟩ := List.getElem?_eq_some_iff.mp hi
          simp [hleader, hne]
      | false =>
        rw [hall] at hleader
        refine Merges.of_single (precedes_refl _) ?_ ?_ (i := 0)
        · simp [hleader]
        · intro k other hne hk
          simp [hne] at hk
  · -- Two producer tasks have one row each.
    intro hall htwo
    rw [satisfied_iff]
    intro key hkey
    have hrows : ∀ i, ∀ other ∈ self.inputOrderings df, SortedBy key other
        (if i = 0 then [false] else if i = 1 then [true] else []) := by
      intro i other _
      split_ifs <;> simp [SortedBy]
    have hpair := h Bool ℕ key _ hrows [false, true] ?_ ordering hordering
    · exact List.pairwise_pair.mp hpair
    · rw [if_pos hall]
      refine Merges.of_two (precedes_refl _) Nat.zero_ne_one
        (hkey _ List.mem_cons_self) ?_ ?_ ?_
      · simp [show 0 < workers by omega]
      · simp [show 1 < workers by omega]
      · intro k other hzero hone hk
        simp only [List.getElem?_map, Option.map_eq_some_iff] at hk
        obtain ⟨i, hi, rfl⟩ := hk
        obtain ⟨hlt, rfl⟩ := List.getElem?_eq_some_iff.mp hi
        simp [hzero, hone]

end PlannedBoundary

/-! ## What happens to a boundary -/

/-- The plan below a boundary after its conversions. -/
def latestPlan (first : Plan κ) (history : List (Conversion κ)) : Plan κ :=
  history.foldl (fun plan conversion => conversion.plan?.getD plan) first

/-- The orderings of a shuffle that was sent. -/
def sentOrderings (orderings : List (List PhysicalExpr)) : List (List PhysicalExpr) :=
  if orderings.flatten.isEmpty then [] else [orderings.flatten]

@[simp] theorem flatten_sentOrderings (orderings : List (List PhysicalExpr)) :
    (sentOrderings orderings).flatten = orderings.flatten := by
  unfold sentOrderings
  split
  · rename_i hempty
    rw [List.isEmpty_iff.mp hempty]
    rfl
  · simp

@[simp] theorem sentOrderings_idem (orderings : List (List PhysicalExpr)) :
    sentOrderings (sentOrderings orderings) = sentOrderings orderings := by
  rw [sentOrderings, flatten_sentOrderings]
  rfl

namespace PlannedBoundary

variable {df : DataFusion κ} {self next : PlannedBoundary κ} {conversion : Conversion κ}

theorem plan_of_convert (h : self.convert df conversion = .ok next) :
    next.plan = conversion.plan?.getD self.plan := by
  cases conversion with
  | withNewChildren children =>
    obtain ⟨-, -, h⟩ := bind_ok_iff.mp h
    cases h
    rfl
  | sent =>
    obtain ⟨node, -, h⟩ := bind_ok_iff.mp h
    cases h
    rfl
  | _ =>
    cases h
    rfl

variable {history : List (Conversion κ)} {last : PlannedBoundary κ}

theorem plan_of_run (h : self.run df history = .ok last) :
    last.plan = latestPlan self.plan history := by
  induction history generalizing self with
  | nil =>
    cases h
    rfl
  | cons conversion history ih =>
    obtain ⟨next, hnext, h⟩ := bind_ok_iff.mp h
    rw [ih h, plan_of_convert hnext]
    rfl

/-- A shuffle keeps its orderings, or sends all of them as one. -/
theorem convert_shuffle {exec : NetworkShuffleExec κ} (hnode : self.node = .shuffle exec)
    (h : self.convert df conversion = .ok next) :
    ∃ new, next.node = .shuffle new ∧
      (new.mode = .direct ↔ exec.mode = .direct ∧ conversion.isTwoPhase = false) ∧
      new.properties.eqProperties.orderings =
        if conversion.isSent then sentOrderings exec.properties.eqProperties.orderings
        else exec.properties.eqProperties.orderings := by
  obtain ⟨node, plan⟩ := self
  obtain rfl : node = .shuffle exec := hnode
  cases conversion with
  | withNewChildren children =>
    obtain ⟨-, -, h⟩ := bind_ok_iff.mp h
    cases h
    exact ⟨exec, rfl, by simp [Conversion.isTwoPhase], rfl⟩
  | withLocalStage num tasks plan | withRemoteStage num workers =>
    cases h
    exact ⟨_, rfl, by simp [Conversion.isTwoPhase, NetworkShuffleExec.withInputStage],
      NetworkShuffleExec.orderings_computeProperties _ _⟩
  | toTwoPhaseSalted =>
    cases h
    exact ⟨_, rfl, by simp [Conversion.isTwoPhase, NetworkShuffleExec.toTwoPhaseSalted], rfl⟩
  | sent =>
    obtain ⟨node, hsent, h⟩ := bind_ok_iff.mp h
    cases h
    obtain ⟨new, hdecode, -, hmode, -, horderings⟩ := exec.decode_encode
    rw [Boundary.sent, hdecode] at hsent
    cases hsent
    exact ⟨new, rfl, by simp [Conversion.isTwoPhase, hmode], horderings⟩

theorem run_shuffle {exec : NetworkShuffleExec κ} (hnode : self.node = .shuffle exec)
    (h : self.run df history = .ok last) :
    ∃ new, last.node = .shuffle new ∧
      (new.mode = .direct ↔ exec.mode = .direct ∧ history.any Conversion.isTwoPhase = false) ∧
      new.properties.eqProperties.orderings =
        if history.any Conversion.isSent then sentOrderings exec.properties.eqProperties.orderings
        else exec.properties.eqProperties.orderings := by
  induction history generalizing self exec with
  | nil =>
    cases h
    exact ⟨exec, hnode, by simp, by simp⟩
  | cons conversion history ih =>
    obtain ⟨next, hnext, h⟩ := bind_ok_iff.mp h
    obtain ⟨middle, hmiddle, hmode, horderings⟩ := convert_shuffle hnode hnext
    obtain ⟨new, hnew, hmode', horderings'⟩ := ih hmiddle h
    refine ⟨new, hnew, ?_, ?_⟩
    · rw [hmode', hmode, List.any_cons, Bool.or_eq_false_iff, and_assoc]
    · rw [horderings', horderings, List.any_cons]
      cases conversion.isSent <;> simp

/-- A broadcast keeps its orderings until it is sent. -/
theorem convert_broadcast {exec : NetworkBroadcastExec κ} (hnode : self.node = .broadcast exec)
    (h : self.convert df conversion = .ok next) :
    ∃ new, next.node = .broadcast new ∧
      new.properties.eqProperties.orderings =
        if conversion.isSent then [] else exec.properties.eqProperties.orderings := by
  obtain ⟨node, plan⟩ := self
  obtain rfl : node = .broadcast exec := hnode
  cases conversion with
  | withNewChildren children =>
    obtain ⟨-, -, h⟩ := bind_ok_iff.mp h
    cases h
    exact ⟨exec, rfl, rfl⟩
  | sent =>
    obtain ⟨node, hsent, h⟩ := bind_ok_iff.mp h
    cases h
    rw [Boundary.sent, exec.decode_encode] at hsent
    cases hsent
    exact ⟨_, rfl, rfl⟩
  | _ =>
    cases h
    exact ⟨_, rfl, rfl⟩

theorem run_broadcast {exec : NetworkBroadcastExec κ} (hnode : self.node = .broadcast exec)
    (h : self.run df history = .ok last) :
    ∃ new, last.node = .broadcast new ∧
      new.properties.eqProperties.orderings =
        if history.any Conversion.isSent then [] else exec.properties.eqProperties.orderings := by
  induction history generalizing self exec with
  | nil =>
    cases h
    exact ⟨exec, hnode, by simp⟩
  | cons conversion history ih =>
    obtain ⟨next, hnext, h⟩ := bind_ok_iff.mp h
    obtain ⟨middle, hmiddle, horderings⟩ := convert_broadcast hnode hnext
    obtain ⟨new, hnew, horderings'⟩ := ih hmiddle h
    refine ⟨new, hnew, ?_⟩
    rw [horderings', horderings, List.any_cons]
    cases conversion.isSent <;> simp

/-- A coalesce advertises the orderings of its plan, or none. -/
def TakesOrderings (df : DataFusion κ) (self : PlannedBoundary κ) : Prop :=
  ∃ exec, self.node = .coalesce exec ∧
    (exec.properties.eqProperties.orderings = [] ∨
      exec.properties.eqProperties.orderings = (self.plan.properties df).eqProperties.orderings)

theorem TakesOrderings.convert (htakes : self.TakesOrderings df)
    (h : self.convert df conversion = .ok next) : next.TakesOrderings df := by
  obtain ⟨node, plan⟩ := self
  obtain ⟨exec, rfl, horderings⟩ := htakes
  cases conversion with
  | withNewChildren children =>
    obtain ⟨-, -, h⟩ := bind_ok_iff.mp h
    cases h
    refine ⟨_, rfl, ?_⟩
    cases children with
    | nil => exact horderings
    | cons child children => exact .inr rfl
  | withLocalStage num tasks plan =>
    cases h
    exact ⟨_, rfl, .inr rfl⟩
  | withRemoteStage num workers =>
    cases h
    exact ⟨_, rfl, horderings⟩
  | toTwoPhaseSalted =>
    cases h
    exact ⟨exec, rfl, horderings⟩
  | sent =>
    obtain ⟨node, hsent, h⟩ := bind_ok_iff.mp h
    cases h
    rw [Boundary.sent, exec.decode_encode] at hsent
    cases hsent
    exact ⟨_, rfl, .inl rfl⟩

theorem TakesOrderings.run (htakes : self.TakesOrderings df) (h : self.run df history = .ok last) :
    last.TakesOrderings df := by
  induction history generalizing self with
  | nil =>
    cases h
    exact htakes
  | cons conversion history ih =>
    obtain ⟨next, hnext, h⟩ := bind_ok_iff.mp h
    exact ih (htakes.convert hnext) h

end PlannedBoundary

/-! ## The main result -/

/-- A `RepartitionExec` advertises only orderings of its input. -/
def DataFusion.RepartitionAddsNone (df : DataFusion κ) : Prop :=
  ∀ partitioning preserveOrder (input : PlanProperties κ) inputs,
    ∀ ordering ∈ (df.properties (.repartition partitioning preserveOrder)
      (input :: inputs)).eqProperties.orderings, ordering ∈ input.eqProperties.orderings

theorem DataFusion.RepartitionAddsNone.mem_withoutHead (hdf : df.RepartitionAddsNone)
    {plan : Plan κ} (h : ordering ∈ (plan.properties df).eqProperties.orderings) :
    ordering ∈ (plan.withoutHead.properties df).eqProperties.orderings := by
  unfold withoutHead
  split
  · exact hdf _ _ _ _ ordering h
  all_goals exact h

/-- A coalesce always has the orderings it advertises. The orderings that a shuffle or a broadcast
was built with still have to follow from those of the plan that the producers run. If a partition
is read from several producer tasks, a broadcast may not advertise any ordering, and those of a
shuffle have to follow from all of them read as one. A shuffle that was sent advertises this one
ordering, and a broadcast that was sent none. -/
def KeepsOrderings (df : DataFusion κ) (node : Boundary κ) (first : Plan κ)
    (history : List (Conversion κ)) (workers : ℕ) : Prop :=
  let declared := (first.properties df).eqProperties.orderings
  let input := ((latestPlan first history).withoutHead.properties df).eqProperties.orderings
  match node with
  | .coalesce _ => True
  | .broadcast _ =>
    history.any Conversion.isSent = true ∨
      ∀ ordering ∈ declared, Satisfied input ordering ∧ (2 ≤ workers → ordering = [])
  | .shuffle _ =>
    ∀ ordering ∈ if history.any Conversion.isSent then [declared.flatten] else declared,
      Satisfied input ordering ∧
        (history.any Conversion.isTwoPhase = false → 2 ≤ workers →
          Satisfied [declared.flatten] ordering)

/-- Every output stream of a boundary has every ordering that the boundary advertises, for any
rows, exactly under the condition above. -/
theorem orderings_hold_iff {df : DataFusion κ} (hdf : df.RepartitionAddsNone) {first : Plan κ}
    {node : Boundary κ} (hbuilt : Boundary.Built df first node) {history : List (Conversion κ)}
    {last : PlannedBoundary κ} (hrun : PlannedBoundary.run df ⟨node, first⟩ history = .ok last)
    {num workers consumers : ℕ} (hstage : last.node.inputStage = .remoteStage num workers)
    (hworkers : 0 < workers) (hreadable : last.Readable df consumers) :
    last.OrderingsHold df consumers ↔ KeepsOrderings df node first history workers := by
  have hplan := PlannedBoundary.plan_of_run hrun
  have hinput : last.inputOrderings df =
      ((latestPlan first history).withoutHead.properties df).eqProperties.orderings := by
    rw [PlannedBoundary.inputOrderings, hplan]
  have hiff : (∀ exec, last.node ≠ .coalesce exec) → (last.OrderingsHold df consumers ↔
      ∀ ordering ∈ last.node.orderings, Satisfied (last.inputOrderings df) ordering ∧
        (last.node.readsAll = true → 2 ≤ workers →
          Satisfied [last.node.mergeOrdering] ordering)) := fun hself =>
    ⟨fun h ordering hordering => PlannedBoundary.satisfied_of_orderingsHold h hstage hworkers
      hreadable hself hordering, PlannedBoundary.orderingsHold_of_satisfied hstage⟩
  cases hbuilt with
  | coalesce hexec =>
    refine ⟨fun _ => trivial, fun _ => PlannedBoundary.orderingsHold_of_satisfied hstage ?_⟩
    obtain ⟨-, -, hproperties⟩ := NetworkCoalesceExec.tryFromStage_ok hexec
    have htakes : PlannedBoundary.TakesOrderings df ⟨.coalesce _, first⟩ :=
      ⟨_, rfl, .inr (by rw [hproperties]; rfl)⟩
    obtain ⟨exec, hnode, horderings⟩ := htakes.run hrun
    intro ordering hordering
    rw [hnode] at hordering ⊢
    rcases horderings with hnone | hsame
    · simp [Boundary.orderings, Boundary.properties, hnone] at hordering
    · refine ⟨satisfied_of_mem (hdf.mem_withoutHead ?_), by simp [Boundary.readsAll]⟩
      rwa [← hsame]
  | broadcast num tasks =>
    obtain ⟨new, hnode, horderings⟩ := PlannedBoundary.run_broadcast rfl hrun
    rw [hiff (by rw [hnode]; simp), hinput, hnode]
    simp only [Boundary.orderings, Boundary.properties, horderings, Boundary.readsAll,
      Boundary.mergeOrdering, satisfied_nil_iff, KeepsOrderings]
    cases history.any Conversion.isSent with
    | true => simp
    | false => simp [NetworkBroadcastExec.fromStage, PlanProperties.withPartitioning]
  | shuffle num tasks =>
    obtain ⟨new, hnode, hmode, horderings⟩ := PlannedBoundary.run_shuffle rfl hrun
    rw [hiff (by rw [hnode]; simp), hinput, hnode]
    have hdeclared : (NetworkShuffleExec.fromStage (.localStage num tasks)
        (first.properties df)).properties.eqProperties.orderings =
        (first.properties df).eqProperties.orderings :=
      NetworkShuffleExec.orderings_computeProperties _ _
    have hall : (Boundary.shuffle new).readsAll = true ↔
        history.any Conversion.isTwoPhase = false := by
      simp [Boundary.readsAll, hmode, NetworkShuffleExec.fromStage]
    simp only [hall, Boundary.orderings, Boundary.properties, horderings, hdeclared,
      Boundary.mergeOrdering, KeepsOrderings]
    cases history.any Conversion.isSent with
    | false => rfl
    | true =>
      simp only [if_true]
      unfold sentOrderings
      split
      · rename_i hempty
        rw [List.isEmpty_iff.mp hempty]
        simp [Satisfied, satisfiedFrom]
      · simp

/-- Leaves of two partitions that are sorted by one expression. The other nodes keep the
properties of their first input. -/
def sortedLeaves : DataFusion ℕ :=
  { DataFusion.ofLeaves fun _ => 2 with
    properties := fun _ children =>
      match children with
      | input :: _ => input
      | [] => ⟨{ orderings := [[.expr 0]] }, .unknownPartitioning 2⟩ }

/-- The input of a shuffle or of a broadcast. -/
def sortedPlan (head : NodeKind ℕ) : Plan ℕ :=
  .node head none [.node (.other 0) none []]

/-- A shuffle of two producer tasks that was sent to its consumers. -/
theorem orderings_hold_shuffle :
    let plan := sortedPlan (.repartition (.hash [.expr 1] 3) true)
    ∃ last, PlannedBoundary.run sortedLeaves
        ⟨.shuffle (.fromStage (.localStage 0 2) (plan.properties sortedLeaves)), plan⟩
        [.withRemoteStage 1 2, .sent] = .ok last ∧
      last.node.orderings = [[.expr 0]] ∧ last.OrderingsHold sortedLeaves 2 := by
  intro plan
  obtain ⟨last, hlast, hstage, horderings, hreadable⟩ : ∃ last, PlannedBoundary.run sortedLeaves
      ⟨.shuffle (.fromStage (.localStage 0 2) (plan.properties sortedLeaves)), plan⟩
        [.withRemoteStage 1 2, .sent] = .ok last ∧ last.node.inputStage = .remoteStage 1 2 ∧
      last.node.orderings = [[.expr 0]] ∧ last.Readable sortedLeaves 2 := by
    refine ⟨_, rfl, rfl, rfl, by decide, 0, by decide, 0, by decide, _, rfl, ?_⟩
    decide
  refine ⟨last, hlast, horderings, (orderings_hold_iff (fun _ _ _ _ _ h => h)
    (.shuffle 0 2) hlast hstage (by decide) hreadable).mpr ?_⟩
  intro ordering hordering
  obtain rfl : ordering = [.expr 0] := List.mem_singleton.mp hordering
  decide

/-- A broadcast of two producer tasks takes the larger row first. -/
theorem broadcast_out_of_order :
    let plan := sortedPlan (.broadcast 1)
    let key : PhysicalExpr → ℕ → ℕ := fun _ row => row
    let tasks : ℕ → ProducerTask ℕ := fun i => ⟨[[1 - i], []]⟩
    ∃ last, PlannedBoundary.run sortedLeaves
        ⟨.broadcast (.fromStage (.localStage 0 2) (plan.properties sortedLeaves)), plan⟩
        [.withRemoteStage 1 2] = .ok last ∧
      last.node.orderings = [[.expr 0]] ∧
      (∀ i, (tasks i).Runs sortedLeaves key last.plan.withoutHead) ∧
      last.Yields sortedLeaves key (fun _ _ => 0) tasks ⟨0, 1⟩ 0 [1, 0] ∧
      ¬ SortedBy key [.expr 0] [1, 0] := by
  refine ⟨_, rfl, rfl, ?_, .inr ⟨_, [[1], [0]], rfl, ?_, ?_⟩, ?_⟩
  · intro i
    refine ⟨rfl, fun rows hrows ordering _ => ?_⟩
    rcases List.mem_pair.mp hrows with rfl | rfl
    · exact List.pairwise_singleton _ _
    · exact List.Pairwise.nil
  · exact .cons ⟨by decide, rfl⟩ (.cons ⟨by decide, rfl⟩ .nil)
  · exact Merges.of_two (fun _ => trivial) Nat.zero_ne_one trivial rfl rfl (by
      intro k other hzero hone hk
      match k, hzero, hone with
      | k + 2, _, _ => cases hk)
  · intro h
    have hpair := List.pairwise_pair.mp h
    simp [precedes_cons_iff] at hpair

end DatafusionDistributed
