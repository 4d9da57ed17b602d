import DatafusionDistributed.DistributedPlanner.StageHeads
import DatafusionDistributed.Worker.TaskData

/-!
# Stages on their workers

A stage that was sent to its workers, together with the boundary that reads it. The consumer
tasks execute the boundary and request partitions from every producer task, each time with the
head they expect on top of its plan. The worker puts that head on the plan it was sent.

`Agrees` says that the partitions which are requested are those of the plan that the worker
executes. `Sound.agrees` shows that they do if nothing else than the head of the boundary is taken
off the plan of the stage.
-/

namespace DatafusionDistributed

open Library Plan

variable {κ : Type} {df : DataFusion κ}

/-- `execute` of a boundary; the other nodes request nothing. -/
def NodeKind.execute (df : DataFusion κ) (kind : NodeKind κ) (partition : ℕ)
    (ctx : DistributedTaskContext) : Result (BoundaryStream κ) :=
  match kind with
  | .networkShuffle exec => exec.execute df.rangeScale partition ctx
  | .networkCoalesce exec => exec.execute partition ctx
  | .networkBroadcast exec => exec.execute partition ctx
  | _ => .ok .empty

def NodeKind.outPartitions : NodeKind κ → ℕ
  | .networkShuffle exec => exec.properties.partitionCount
  | .networkCoalesce exec => exec.properties.partitionCount
  | .networkBroadcast exec => exec.properties.partitionCount
  | _ => 0

def BoundaryStream.requests : BoundaryStream κ → List (WorkerRequest κ)
  | .remote requests => requests
  | _ => []

/-- A stage that was sent to its workers: the boundary that reads it, as the consumer tasks
execute it, the number of these tasks, and the plan that every producer task was sent. -/
structure SentStage (κ : Type) where
  consumer : NodeKind κ
  consumers : ℕ
  plan : Plan κ

variable {self : SentStage κ}

namespace SentStage

def producers (self : SentStage κ) : ℕ :=
  (self.consumer.inputStage.map Stage.taskCount).getD 0

/-- The requests that all consumer tasks together send for all their partitions. -/
def requests (df : DataFusion κ) (self : SentStage κ) : List (WorkerRequest κ) :=
  (List.range self.consumers).flatMap fun taskIndex =>
    (List.range self.consumer.outPartitions).flatMap fun partition =>
      match self.consumer.execute df partition ⟨taskIndex, self.consumers⟩ with
      | .ok stream => stream.requests
      | .error _ => []

/-- The plan that a worker executes: the one it was sent, with the head that the consumers ask
for. -/
def finalPlan (df : DataFusion κ) (self : SentStage κ) : Result (Plan κ) := do
  let head ← self.consumer.producerHead df self.consumers
  ((⟨self.plan, none⟩ : TaskData κ).plan df head).1

/-- Producer and consumers agree on the partitions. -/
structure Agrees (df : DataFusion κ) (sent : SentStage κ) : Prop where
  /-- The partitions requested from a producer task are those of its plan. -/
  exact : ∀ final, sent.finalPlan df = .ok final → ∀ i < sent.producers, ∀ q,
    (∃ request ∈ sent.requests df, request.targetTask = i ∧ request.targetPartition = q) ↔
      q < final.partitionCount df
  /-- All requests are served from that plan, in any order, and within its partitions. -/
  served : ∀ final, sent.finalPlan df = .ok final → ∀ arrivals : List (WorkerRequest κ),
    (∀ request ∈ arrivals, request ∈ sent.requests df) →
    (⟨sent.plan, none⟩ : TaskData κ).serve df (arrivals.map WorkerRequest.producerHead) =
        arrivals.map (fun _ => .ok final) ∧
      ∀ request ∈ arrivals, request.targetPartitions.2 ≤ final.partitionCount df

theorem mem_requests {request : WorkerRequest κ} :
    request ∈ self.requests df ↔ ∃ j < self.consumers, ∃ p < self.consumer.outPartitions,
      ∃ stream, self.consumer.execute df p ⟨j, self.consumers⟩ = .ok stream ∧
        request ∈ stream.requests := by
  unfold requests
  simp only [List.mem_flatMap, List.mem_range]
  refine exists_congr fun j => and_congr_right fun _ => exists_congr fun p =>
    and_congr_right fun _ => ?_
  cases self.consumer.execute df p ⟨j, self.consumers⟩ <;> simp

theorem mem_requests_of_execute {requests : ℕ → ℕ → List (WorkerRequest κ)}
    (h : ∀ j < self.consumers, ∀ p < self.consumer.outPartitions,
      self.consumer.execute df p ⟨j, self.consumers⟩ = .ok (.remote (requests j p)))
    (request : WorkerRequest κ) :
    request ∈ self.requests df ↔ ∃ j < self.consumers, ∃ p < self.consumer.outPartitions,
      request ∈ requests j p := by
  rw [mem_requests]
  refine exists_congr fun j => and_congr_right fun hj => exists_congr fun p =>
    and_congr_right fun hp => ?_
  simp [h j hj p hp, BoundaryStream.requests]

end SentStage

/-! ## Requests -/

/-- The requests ask for the first `partitions` partitions of every producer task, with the given
head, and for nothing else. -/
structure Covers (requests : List (WorkerRequest κ)) (head : ProducerHead κ)
    (producers partitions : ℕ) : Prop where
  head : ∀ request ∈ requests, request.producerHead = head
  within : ∀ request ∈ requests, request.targetPartition < partitions ∧
    request.targetPartitions.2 ≤ partitions
  onto : ∀ i < producers, ∀ q < partitions,
    ∃ request ∈ requests, request.targetTask = i ∧ request.targetPartition = q

variable {head : ProducerHead κ} {producers : ℕ} {plan final : Plan κ}

theorem Covers.exact {requests : List (WorkerRequest κ)} {partitions i : ℕ}
    (h : Covers requests head producers partitions) (hi : i < producers) (q : ℕ) :
    (∃ request ∈ requests, request.targetTask = i ∧ request.targetPartition = q) ↔
      q < partitions := by
  refine ⟨?_, h.onto i hi q⟩
  rintro ⟨request, hrequest, -, rfl⟩
  exact (h.within request hrequest).1

/-- Consumer tasks that each read a run of partitions from every producer task. -/
theorem covers_of_runs (self : SentStage κ)
    (h : ∀ j < self.consumers, ∀ p < self.consumer.outPartitions,
      self.consumer.execute df p ⟨j, self.consumers⟩ =
        .ok (.remote ((List.range producers).map fun i =>
          ⟨(j * self.consumer.outPartitions,
            j * self.consumer.outPartitions + self.consumer.outPartitions), i,
            j * self.consumer.outPartitions + p, head⟩))) :
    Covers (self.requests df) head producers (self.consumer.outPartitions * self.consumers) := by
  have hmem := SentStage.mem_requests_of_execute h
  refine ⟨?_, ?_, ?_⟩
  · intro request hrequest
    obtain ⟨j, -, p, -, hrequest⟩ := (hmem request).mp hrequest
    obtain ⟨i, -, rfl⟩ := List.mem_map.mp hrequest
    rfl
  · intro request hrequest
    obtain ⟨j, hj, p, hp, hrequest⟩ := (hmem request).mp hrequest
    obtain ⟨i, -, rfl⟩ := List.mem_map.mp hrequest
    have hrun : j * self.consumer.outPartitions + self.consumer.outPartitions ≤
        self.consumer.outPartitions * self.consumers := by
      rw [Nat.mul_comm]
      exact Nat.mul_le_mul_left _ hj
    dsimp only
    omega
  · intro i hi q hq
    have hpos : 0 < self.consumer.outPartitions := Nat.pos_of_mul_pos_right (Nat.zero_lt_of_lt hq)
    refine ⟨_, (hmem _).mpr ⟨q / self.consumer.outPartitions, Nat.div_lt_of_lt_mul hq,
      q % self.consumer.outPartitions, Nat.mod_lt q hpos,
      List.mem_map_of_mem (List.mem_range.mpr hi)⟩, rfl, Nat.div_add_mod' q _⟩

/-- In two phases consumer task `j` reads partition `j` of every producer task. -/
theorem covers_of_columns (self : SentStage κ)
    (h : ∀ j < self.consumers, ∀ p < self.consumer.outPartitions,
      self.consumer.execute df p ⟨j, self.consumers⟩ = .ok (.remote [⟨(j, j + 1), p, j, head⟩])) :
    Covers (self.requests df) head self.consumer.outPartitions self.consumers := by
  have hmem := SentStage.mem_requests_of_execute h
  refine ⟨?_, ?_, ?_⟩
  · intro request hrequest
    obtain ⟨j, -, p, -, hrequest⟩ := (hmem request).mp hrequest
    rw [List.mem_singleton.mp hrequest]
  · intro request hrequest
    obtain ⟨j, hj, p, -, hrequest⟩ := (hmem request).mp hrequest
    rw [List.mem_singleton.mp hrequest]
    exact ⟨hj, hj⟩
  · intro i hi q hq
    exact ⟨_, (hmem _).mpr ⟨q, hq, i, hi, List.mem_cons_self⟩, rfl, rfl⟩

/-- A coalesce with one consumer task. -/
theorem covers_of_exactCover {exec : NetworkCoalesceExec κ} {partitions : ℕ}
    (h : NetworkCoalesceExec.ExactCover exec producers 1 partitions) (plan : Plan κ) :
    Covers ((⟨.networkCoalesce exec, 1, plan⟩ : SentStage κ).requests df) .none producers
      partitions := by
  have hshape : ∀ request ∈ (⟨.networkCoalesce exec, 1, plan⟩ : SentStage κ).requests df,
      ∃ i < producers, ∃ q < partitions, request = ⟨(0, partitions), i, q, .none⟩ := by
    intro request hrequest
    obtain ⟨j, hj, p, hp, stream, hstream, hmem⟩ := SentStage.mem_requests.mp hrequest
    change exec.execute p ⟨j, 1⟩ = _ at hstream
    rcases h.only j hj p hp with hempty | ⟨i, hi, q, hq, hread⟩
    · rw [hempty] at hstream
      cases hstream
      cases hmem
    · rw [hread] at hstream
      cases hstream
      exact ⟨i, hi, q, hq, List.mem_singleton.mp hmem⟩
  refine ⟨?_, ?_, ?_⟩
  · intro request hrequest
    obtain ⟨i, -, q, -, rfl⟩ := hshape request hrequest
    rfl
  · intro request hrequest
    obtain ⟨i, -, q, hq, rfl⟩ := hshape request hrequest
    exact ⟨hq, Nat.le_refl _⟩
  · intro i hi q hq
    obtain ⟨⟨j, p⟩, ⟨hj, hp, hread⟩, -⟩ := h.once i hi q hq
    exact ⟨_, SentStage.mem_requests.mpr ⟨j, hj, p, hp, _, hread, List.mem_cons_self⟩, rfl, rfl⟩

/-! ## The partitions of the final plan -/

/-- The head of a shuffle has as many partitions as the consumers of the shuffle read. -/
theorem NetworkShuffleExec.Sized.producerHead_ok (hlaw : df.Lawful) {exec : NetworkShuffleExec κ}
    (h : exec.Sized) {consumers : ℕ}
    (hhead : exec.producerHead df.rangeScale consumers = .ok head) :
    ∃ partitioning order, head = .repartitionExec partitioning order ∧
      (exec.mode = .direct → partitioning.partitionCount =
        exec.properties.partitionCount * consumers) ∧
      (∀ salt, exec.mode = .twoPhase salt → partitioning.partitionCount = consumers) := by
  unfold NetworkShuffleExec.producerHead at hhead
  cases hmode : exec.mode with
  | direct =>
    rw [hmode] at hhead
    obtain ⟨partitioning, hpart, hhead⟩ := bind_ok_iff.mp hhead
    cases hhead
    refine ⟨partitioning, _, rfl, ?_, fun _ htwo => by cases htwo⟩
    intro _
    rw [PlanProperties.partitionCount, h.direct hmode]
    have hshuffled := h.shuffled
    cases hproducer : exec.producerPartitioning with
    | hash exprs n =>
      rw [hproducer] at hpart
      cases hpart
      rfl
    | range range =>
      rw [hproducer, Partitioning.scaleShuffle] at hpart
      cases hscaled : df.rangeScale range consumers with
      | error e =>
        rw [hscaled] at hpart
        cases hpart
      | ok scaled =>
        rw [hscaled] at hpart
        cases hpart
        rw [if_pos (by rfl), Partitioning.partitionCount_unknownPartitioning, Nat.one_mul]
        exact hlaw.rangeScale_count range scaled consumers hscaled
    | _ =>
      rw [hproducer] at hshuffled
      cases hshuffled
  | twoPhase salt =>
    rw [hmode] at hhead
    obtain ⟨partitioning, hpart, hhead⟩ := bind_ok_iff.mp hhead
    cases hhead
    refine ⟨partitioning, _, rfl, fun hdirect => (by cases hdirect), ?_⟩
    intro _ _
    obtain ⟨⟨exprs, n, hhash⟩, -⟩ := h.twoPhase salt hmode
    rw [hhash] at hpart
    cases hpart
    rfl

theorem partitionCount_insert_repartition {partitioning : Partitioning κ} {order : Bool}
    (h : (ProducerHead.repartitionExec partitioning order).insert df plan =
      .ok final) :
    final.partitionCount df = partitioning.partitionCount := by
  rw [repartitionTryNew_ok h]
  rfl

theorem insert_broadcast_ok {outputPartitions : ℕ}
    (h : (ProducerHead.broadcastExec outputPartitions).insert df plan = .ok final) :
    plan.withoutHead.partitionCount df ≠ 0 ∧
      final = node (.broadcast (outputPartitions / plan.withoutHead.partitionCount df)) none
        [plan.withoutHead] := by
  obtain ⟨hne, h⟩ := ite_error_ok_iff.mp h
  cases h
  exact ⟨hne, rfl⟩

theorem partitionCount_broadcast (n : ℕ) (recorded : Option TaskCountAnnotation) (below : Plan κ) :
    (node (.broadcast n) recorded [below]).partitionCount df = below.partitionCount df * n := by
  rfl

namespace SentStage

theorem finalPlan_ok {final : Plan κ} :
    self.finalPlan df = .ok final ↔ ∃ head,
      self.consumer.producerHead df self.consumers = .ok head ∧
        head.insert df self.plan = .ok final := by
  unfold finalPlan
  rw [bind_ok_iff]
  exact exists_congr fun head => and_congr_right fun _ => TaskData.plan_first

/-- What the planner and the coordinator guarantee of a stage that was sent. -/
structure Sound (df : DataFusion κ) (sent : SentStage κ) : Prop where
  remote : ∃ num workers, sent.consumer.inputStage = some (.remoteStage num workers) ∧ 0 < workers
  shuffle : ∀ exec, sent.consumer = .networkShuffle exec → exec.Sized
  coalesce : ∀ exec, sent.consumer = .networkCoalesce exec → sent.consumers = 1 ∧
    NetworkCoalesceExec.Built 1 sent.producers (sent.plan.partitionCount df) exec

/-- The number of partitions that the consumers request from each producer task. -/
def requested (df : DataFusion κ) (self : SentStage κ) : ℕ :=
  match self.consumer with
  | .networkShuffle exec =>
    match exec.mode with
    | .direct => exec.properties.partitionCount * self.consumers
    | .twoPhase _ => self.consumers
  | .networkBroadcast exec => exec.properties.partitionCount * self.consumers
  | _ => self.plan.partitionCount df

/-- The consumers request the first `requested` partitions of every producer task. -/
theorem Sound.covers (h : self.Sound df) {head : ProducerHead κ}
    (hhead : self.consumer.producerHead df self.consumers = .ok head) :
    Covers (self.requests df) head self.producers (self.requested df) := by
  obtain ⟨num, workers, hstage, hpos⟩ := h.remote
  have hproducers : self.producers = workers := by
    rw [producers, hstage]
    rfl
  obtain ⟨consumer, consumers, plan⟩ := self
  rw [hproducers]
  cases consumer with
  | networkShuffle exec =>
    have hremote : exec.inputStage = .remoteStage num workers := Option.some.inj hstage
    have hexec : ∀ p ctx, exec.execute df.rangeScale p ctx =
        exec.executeRemote df.rangeScale workers p ctx := by
      intro p ctx
      rw [NetworkShuffleExec.execute, hremote]
    cases hmode : exec.mode with
    | direct =>
      have hcovers : Covers (SentStage.requests df _) head workers _ :=
        covers_of_runs ⟨.networkShuffle exec, consumers, plan⟩ fun j _ p hp =>
          (hexec p ⟨j, consumers⟩).trans
            (NetworkShuffleExec.executeRemote_direct hmode hhead hp hpos)
      simpa [requested, hmode, NodeKind.outPartitions] using hcovers
    | twoPhase salt =>
      have hcount : exec.properties.partitionCount = workers := by
        rw [PlanProperties.partitionCount, ((h.shuffle exec rfl).twoPhase salt hmode).2, hremote]
        rfl
      have hcovers : Covers (SentStage.requests df _) head _ _ :=
        covers_of_columns ⟨.networkShuffle exec, consumers, plan⟩ fun j _ p hp =>
          (hexec p ⟨j, consumers⟩).trans
            (NetworkShuffleExec.executeRemote_twoPhase hmode hhead (Nat.lt_of_lt_of_eq hp hcount))
      have hout : (NodeKind.networkShuffle exec : NodeKind κ).outPartitions = workers := hcount
      rw [hout] at hcovers
      simpa [requested, hmode] using hcovers
  | networkBroadcast exec =>
    have hremote : exec.inputStage = .remoteStage num workers := Option.some.inj hstage
    cases hhead
    refine covers_of_runs ⟨.networkBroadcast exec, consumers, plan⟩ fun j _ p hp => ?_
    change exec.execute p ⟨j, consumers⟩ = _
    rw [NetworkBroadcastExec.execute, hremote]
    dsimp only
    rw [NetworkBroadcastExec.executeRemote_eq hp]
    simp only [NodeKind.outPartitions, Nat.mul_comm]
  | networkCoalesce exec =>
    have hremote : exec.inputStage = .remoteStage num workers := Option.some.inj hstage
    obtain ⟨rfl, hbuilt⟩ := h.coalesce exec rfl
    obtain ⟨hcount, -, -⟩ := hbuilt.partitionCount
    rw [hproducers] at hcount
    cases hhead
    change Covers _ _ workers (plan.partitionCount df)
    rcases Nat.eq_zero_or_pos (plan.partitionCount df) with hzero | hpartitions
    · -- Nothing is advertised, so nothing is read.
      have hnil : ∀ request,
          request ∉ (⟨.networkCoalesce exec, 1, plan⟩ : SentStage κ).requests df := by
        intro request hrequest
        obtain ⟨j, -, p, hp, -⟩ := mem_requests.mp hrequest
        change p < exec.properties.partitionCount at hp
        rw [hcount, hzero, Nat.zero_mul] at hp
        exact absurd hp (Nat.not_lt_zero p)
      refine ⟨fun r hr => absurd hr (hnil r), fun r hr => absurd hr (hnil r), ?_⟩
      intro i _ q hq
      rw [hzero] at hq
      exact absurd hq (Nat.not_lt_zero q)
    · exact covers_of_exactCover (NetworkCoalesceExec.exactCover_of_partitionCount hremote hcount
        Nat.one_pos hpartitions) plan
  | _ => cases hstage

/-- The producer plans have as many partitions as are requested. -/
theorem Sound.agrees_of_count (h : self.Sound df)
    (hcount : ∀ final, self.finalPlan df = .ok final →
      final.partitionCount df = self.requested df) : self.Agrees df := by
  refine ⟨?_, ?_⟩
  · intro final hfinal i hi q
    obtain ⟨head, hhead, -⟩ := finalPlan_ok.mp hfinal
    rw [hcount final hfinal]
    exact (h.covers hhead).exact hi q
  · intro final hfinal arrivals harrivals
    obtain ⟨head, hhead, hinsert⟩ := finalPlan_ok.mp hfinal
    have hcovers := h.covers hhead
    constructor
    · rw [TaskData.serve_eq hinsert (.inl rfl), List.map_map]
      · rfl
      · intro other hother
        obtain ⟨request, hrequest, rfl⟩ := List.mem_map.mp hother
        exact hcovers.head request (harrivals request hrequest)
    · intro request hrequest
      rw [hcount final hfinal]
      exact (hcovers.within request (harrivals request hrequest)).2

/-- Nothing is taken off the plan of a stage that a coalesce reads, and a broadcast was sized for
the plan below its head. -/
structure Fits (df : DataFusion κ) (sent : SentStage κ) : Prop where
  coalesce : ∀ exec, sent.consumer = .networkCoalesce exec → sent.plan.kind.isHead = false
  broadcast : ∀ exec, sent.consumer = .networkBroadcast exec →
    sent.plan.withoutHead.partitionCount df ∣ exec.properties.partitionCount * sent.consumers

theorem Sound.agrees (hlaw : df.Lawful) (h : self.Sound df) (hfits : self.Fits df) :
    self.Agrees df := by
  apply h.agrees_of_count
  obtain ⟨num, workers, hstage, -⟩ := h.remote
  obtain ⟨consumer, consumers, plan⟩ := self
  intro final hfinal
  obtain ⟨head, hhead, hinsert⟩ := finalPlan_ok.mp hfinal
  cases consumer with
  | networkShuffle exec =>
    obtain ⟨partitioning, order, rfl, hdirect, htwoPhase⟩ :=
      (h.shuffle exec rfl).producerHead_ok hlaw hhead
    rw [partitionCount_insert_repartition hinsert]
    cases hmode : exec.mode with
    | direct =>
      rw [hdirect hmode]
      simp [requested, hmode]
    | twoPhase salt =>
      rw [htwoPhase salt hmode]
      simp [requested, hmode]
  | networkBroadcast exec =>
    cases hhead
    rw [(insert_broadcast_ok hinsert).2, partitionCount_broadcast,
      Nat.mul_div_cancel' (hfits.broadcast exec rfl)]
    rfl
  | networkCoalesce exec =>
    cases hhead
    cases hinsert
    exact congrArg (partitionCount df) (withoutHead_of_not_head (hfits.coalesce exec rfl))
  | _ => cases hstage

/-! ## A head that is inserted twice -/

end SentStage

end DatafusionDistributed
