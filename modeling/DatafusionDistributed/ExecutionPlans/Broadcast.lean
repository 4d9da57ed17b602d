import DatafusionDistributed.Coordinator.SentStage
import DatafusionDistributed.ExecutionPlans.BroadcastSystem
import DatafusionDistributed.Library.Tallies

/-!
# `BroadcastExec`

A producer task of a broadcast. Output partition `q` of a `BroadcastExec` over `P` input
partitions is reader `q / P` of the queue of input partition `q % P`. The queue is made when the
first of its readers is asked for, and a reader can be claimed once.

`broadcast_coverage` follows the consumer count from the `NetworkBroadcastExec` to the reader
slots: the boundary asks for a head with `P * C` partitions, the head divides by `P` again, and
the requests of `C` consumer tasks name every reader once, in whichever order they arrive.
-/

namespace DatafusionDistributed

open Library Plan

/-- The part of `BroadcastExec` that executing it reads: the queues of the input partitions, once
they are made. A failure of the input is kept in place of the queue. -/
structure BroadcastExec (T : Type) where
  inputPartitionCount : ℕ
  consumerTaskCount : ℕ
  queues : List (Option (Result (BroadcastSystem T)))

namespace BroadcastExec

variable {T : Type}

def new (inputPartitionCount consumerTaskCount : ℕ) : BroadcastExec T where
  inputPartitionCount
  consumerTaskCount
  queues := List.replicate inputPartitionCount none

/-- The `BroadcastExec` that a plan is. -/
def ofPlan {κ : Type} (df : DataFusion κ) (T : Type) : Plan κ → Option (BroadcastExec T)
  | node (.broadcast consumerTaskCount) _ [input] =>
    some (new (input.partitionCount df) consumerTaskCount)
  | _ => none

/-- `execute`, and the reader that the returned stream polls: the input partition and the
consumer task. `inputExecute` is whether executing the input partition succeeds. -/
def execute (self : BroadcastExec T) (inputExecute : ℕ → Result Unit) (partition : ℕ) :
    BroadcastExec T × Result (ℕ × ℕ) :=
  if self.inputPartitionCount = 0 then
    (self, .error (.panic "attempt to calculate the remainder with a divisor of zero"))
  else
    let realPartition := partition % self.inputPartitionCount
    let consumerTask := partition / self.inputPartitionCount
    match self.queues[realPartition]? with
    | none => (self, .error (.panic "index out of bounds"))
    | some queue =>
      -- `get_or_init`
      let queueOrErr := queue.getD
        ((inputExecute realPartition).map fun _ => .new self.consumerTaskCount)
      match queueOrErr with
      | .error err =>
        ({ self with queues := self.queues.set realPartition (some (.error err)) },
          .error (.shared err))
      | .ok readers =>
        ({ self with
          queues := self.queues.set realPartition (some (readers.step (.claim consumerTask))) },
          (readers.queue.claim consumerTask).map fun _ => (realPartition, consumerTask))

section execute

variable {self : BroadcastExec T} {inputExecute : ℕ → Result Unit} {P C q : ℕ}
  {queue : Option (Result (BroadcastSystem T))}

theorem execute_failed (hcount : self.inputPartitionCount = P)
    (htasks : self.consumerTaskCount = C) (hpos : 0 < P)
    (hqueue : self.queues[q % P]? = some queue) {err : DataFusionError}
    (herr : queue.getD ((inputExecute (q % P)).map fun _ => .new C) = .error err) :
    self.execute inputExecute q =
      ({ self with queues := self.queues.set (q % P) (some (.error err)) },
        .error (.shared err)) := by
  subst hcount htasks
  unfold execute
  rw [if_neg (by omega)]
  dsimp only
  rw [hqueue]
  dsimp only
  rw [herr]

theorem execute_claimed (hcount : self.inputPartitionCount = P)
    (htasks : self.consumerTaskCount = C) (hpos : 0 < P)
    (hqueue : self.queues[q % P]? = some queue) {readers next : BroadcastSystem T}
    (hreaders : queue.getD ((inputExecute (q % P)).map fun _ => .new C) = .ok readers)
    (hclaim : ∃ claimed, readers.queue.claim (q / P) = .ok claimed)
    (hnext : readers.step (.claim (q / P)) = .ok next) :
    self.execute inputExecute q =
      ({ self with queues := self.queues.set (q % P) (some (.ok next)) },
        .ok (q % P, q / P)) := by
  subst hcount htasks
  obtain ⟨claimed, hclaim⟩ := hclaim
  unfold execute
  rw [if_neg (by omega)]
  dsimp only
  rw [hqueue]
  dsimp only
  rw [hreaders]
  dsimp only
  rw [hclaim, hnext]
  rfl

end execute

end BroadcastExec

/-- A producer task with a `BroadcastExec`: the requests on their way to it, those it has answered
and how, and whether its plan was dropped. -/
structure BroadcastTask (T : Type) where
  exec : BroadcastExec T
  inFlight : List ℕ
  served : List (ℕ × Result (ℕ × ℕ))
  dropped : Bool

/-- A request arrives, the plan is dropped, or something happens to the queue of an input
partition. -/
inductive BroadcastTaskAction (T : Type) where
  | execute (partition : ℕ)
  | drop
  | queue (realPartition : ℕ) (action : BroadcastAction T)

namespace BroadcastTask

variable {T : Type}

/-- Readers are claimed by `execute` only, and given up unclaimed when the plan is dropped. -/
def allows (self : BroadcastTask T) : BroadcastAction T → Bool
  | .claim _ => false
  | .releasePending => self.dropped
  | _ => true

inductive Step (inputExecute : ℕ → Result Unit) :
    BroadcastTask T → BroadcastTaskAction T → BroadcastTask T → Prop
  | execute {s : BroadcastTask T} {partition : ℕ} (hdropped : s.dropped = false)
      (hflight : partition ∈ s.inFlight) :
      Step inputExecute s (.execute partition)
        { s with
          exec := (s.exec.execute inputExecute partition).1
          inFlight := s.inFlight.erase partition
          served := (partition, (s.exec.execute inputExecute partition).2) :: s.served }
  | drop {s : BroadcastTask T} : Step inputExecute s .drop { s with dropped := true }
  | queue {s : BroadcastTask T} {p : ℕ} {action : BroadcastAction T}
      {system next : BroadcastSystem T} (hsystem : s.exec.queues[p]? = some (some (.ok system)))
      (hallows : s.allows action = true) (henabled : system.enabled action = true)
      (hnext : system.step action = .ok next) :
      Step inputExecute s (.queue p action)
        { s with exec := { s.exec with queues := s.exec.queues.set p (some (.ok next)) } }

/-- All interleavings of a producer task that these requests are sent to. -/
def transitions (exec : BroadcastExec T) (inputExecute : ℕ → Result Unit) (requests : List ℕ) :
    Transition (BroadcastTask T) (BroadcastTaskAction T) where
  init := fun s => s = ⟨exec, requests, [], false⟩
  step := Step inputExecute

/-- The answer to a request for a reader that is free. -/
def answer (inputExecute : ℕ → Result Unit) (realPartition consumerTask : ℕ) :
    Result (ℕ × ℕ) :=
  match inputExecute realPartition with
  | .ok _ => .ok (realPartition, consumerTask)
  | .error err => .error (.shared err)

/-- What is known of the queue of input partition `p`, after the requests `served`. -/
def QueueServes (inputExecute : ℕ → Result Unit) (P C p : ℕ) (served : List ℕ) (dropped : Bool) :
    Option (Result (BroadcastSystem T)) → Prop
  | none => ∀ q ∈ served, q % P ≠ p
  | some (.error err) => inputExecute p = .error err
  | some (.ok system) => inputExecute p = .ok () ∧
      (BroadcastSystem.transitions T C).Reachable system ∧
      ∀ j < C, (P * j + p ∈ served → (system.consumers j).isSome = true) ∧
        (P * j + p ∉ served → dropped = false → system.queue.readers[j]? = some .pending)

/-- The invariant of a producer task with `P` input partitions and `C` consumer tasks. -/
structure Inv (inputExecute : ℕ → Result Unit) (P C : ℕ) (s : BroadcastTask T) : Prop where
  inputPartitionCount : s.exec.inputPartitionCount = P
  consumerTaskCount : s.exec.consumerTaskCount = C
  length : s.exec.queues.length = P
  requests : (s.served.map Prod.fst ++ s.inFlight).Perm (List.range (P * C))
  answers : ∀ entry ∈ s.served, entry.2 = answer inputExecute (entry.1 % P) (entry.1 / P)
  queues : ∀ p queue, s.exec.queues[p]? = some queue →
    QueueServes inputExecute P C p (s.served.map Prod.fst) s.dropped queue

variable {inputExecute : ℕ → Result Unit} {P C : ℕ}

theorem Inv.init : (⟨.new P C, List.range (P * C), [], false⟩ : BroadcastTask T).Inv
    inputExecute P C where
  inputPartitionCount := rfl
  consumerTaskCount := rfl
  length := List.length_replicate
  requests := .refl _
  answers := by simp
  queues := by
    intro p queue hqueue
    rw [List.eq_of_mem_replicate (List.mem_of_getElem? hqueue)]
    exact List.forall_mem_nil _

variable {s : BroadcastTask T} {q : ℕ}

/-- A request on its way names a reader that no answered request has named. -/
theorem Inv.inFlight_fresh (h : s.Inv inputExecute P C) (hq : q ∈ s.inFlight) :
    q < P * C ∧ q ∉ s.served.map Prod.fst := by
  constructor
  · exact List.mem_range.mp (h.requests.mem_iff.mp (List.mem_append_right _ hq))
  · intro hserved
    exact (List.nodup_append.mp (h.requests.nodup_iff.mpr List.nodup_range)).2.2 q hserved q hq rfl

theorem request_mod {j p : ℕ} (hp : p < P) : (P * j + p) % P = p := by
  rw [Nat.mul_add_mod, Nat.mod_eq_of_lt hp]

theorem request_inj {i j p : ℕ} (hp : p < P) (hq : q < P) (h : P * i + p = P * j + q) :
    i = j ∧ p = q := by
  have hmod : p = q := by
    have hmod := congrArg (· % P) h
    simpa only [request_mod hp, request_mod hq] using hmod
  subst hmod
  exact ⟨Nat.eq_of_mul_eq_mul_left (by omega) (Nat.add_right_cancel h), rfl⟩

section QueueServes

variable {p : ℕ} {served : List ℕ} {queue : Option (Result (BroadcastSystem T))}
  {system next : BroadcastSystem T}

theorem QueueServes.other {dropped : Bool} {q : ℕ} (hlt : p < P) (hp : q % P ≠ p)
    (h : QueueServes inputExecute P C p served dropped queue) :
    QueueServes inputExecute P C p (q :: served) dropped queue := by
  rcases queue with _ | err | system
  · exact List.forall_mem_cons.mpr ⟨hp, h⟩
  · exact h
  · obtain ⟨hinput, hreachable, hslots⟩ := h
    refine ⟨hinput, hreachable, ?_⟩
    intro j hj
    have hne : P * j + p ≠ q := by
      rintro rfl
      exact hp (request_mod hlt)
    rw [List.mem_cons, or_iff_right hne]
    exact hslots j hj

/-- Making the queue: no reader of it was asked for. -/
theorem QueueServes.getOrInit (hlt : p < P)
    (h : QueueServes inputExecute P C p served false queue) :
    QueueServes inputExecute P C p served false
      (some (queue.getD ((inputExecute p).map fun _ => .new C))) := by
  cases queue with
  | some result => exact h
  | none =>
    cases hinput : inputExecute p with
    | error err => exact hinput
    | ok _ =>
      refine ⟨hinput, .init rfl, ?_⟩
      intro j hj
      have hfresh : P * j + p ∉ served := by
        exact fun hserved => h _ hserved (request_mod hlt)
      refine ⟨fun hserved => absurd hserved hfresh, fun _ _ => ?_⟩
      exact List.getElem?_eq_some_iff.mpr ⟨by simpa [BroadcastSystem.new, QueueState.new] using hj,
        by simp [BroadcastSystem.new, QueueState.new]⟩

/-- Claiming a reader that no answered request has named. -/
theorem QueueServes.claim {j : ℕ} (hlt : p < P) (hj : j < C) (hfresh : P * j + p ∉ served)
    (h : QueueServes inputExecute P C p served false (some (.ok system))) :
    (∃ claimed, system.queue.claim j = .ok claimed) ∧ ∃ next, system.step (.claim j) = .ok next ∧
      QueueServes inputExecute P C p ((P * j + p) :: served) false (some (.ok next)) := by
  obtain ⟨hinput, hreachable, hslots⟩ := h
  have hinv := BroadcastSystem.reachable_inv hreachable
  have hpending : system.queue.readers[j]? = some .pending := (hslots j hj).2 hfresh rfl
  have hclaim : system.queue.claim j =
      .ok { system.queue with readers := system.queue.readers.set j (.reading 0) } := by
    unfold QueueState.claim
    rw [hpending]
  obtain ⟨next, hnext, heffect⟩ : ∃ next, system.step (.claim j) = .ok next ∧
      BroadcastSystem.Effect system (.claim j) next := hinv.effect rfl
  refine ⟨⟨_, hclaim⟩, next, hnext, hinput, .step hreachable ⟨rfl, hnext⟩, ?_⟩
  intro k hk
  by_cases hkj : k = j
  · subst hkj
    refine ⟨fun _ => ?_, fun hnot => absurd List.mem_cons_self hnot⟩
    unfold BroadcastSystem.step at hnext
    dsimp only at hnext
    rw [hclaim] at hnext
    cases hnext
    dsimp only
    rw [Function.update_self]
    rfl
  · rw [List.mem_cons, or_iff_right fun hsame => hkj (request_inj hlt hlt hsame).1]
    refine ⟨fun hserved => heffect.isSome ((hslots k hk).1 hserved), ?_⟩
    intro hnot hdropped
    refine heffect.pending hinv ?_ (by simp) ((hslots k hk).2 hnot hdropped)
    intro hclaims
    exact hkj (BroadcastAction.claim.inj hclaims).symm

theorem QueueServes.step {dropped : Bool} {action : BroadcastAction T}
    (hclaim : ∀ j, action ≠ .claim j) (hrelease : action = .releasePending → dropped = true)
    (henabled : system.enabled action = true) (hnext : system.step action = .ok next)
    (h : QueueServes inputExecute P C p served dropped (some (.ok system))) :
    QueueServes inputExecute P C p served dropped (some (.ok next)) := by
  obtain ⟨hinput, hreachable, hslots⟩ := h
  have hinv := BroadcastSystem.reachable_inv hreachable
  have heffect := hinv.effect_of_step henabled hnext
  refine ⟨hinput, .step hreachable ⟨henabled, hnext⟩, ?_⟩
  intro j hj
  refine ⟨fun hserved => heffect.isSome ((hslots j hj).1 hserved), ?_⟩
  intro hnot hdropped
  refine heffect.pending hinv (hclaim j) ?_ ((hslots j hj).2 hnot hdropped)
  intro hreleases
  rw [hrelease hreleases] at hdropped
  cases hdropped

theorem QueueServes.drop {dropped : Bool}
    (h : QueueServes inputExecute P C p served dropped queue) :
    QueueServes inputExecute P C p served true queue := by
  rcases queue with _ | err | system
  · exact h
  · exact h
  · exact ⟨h.1, h.2.1, fun j hj => ⟨(h.2.2 j hj).1, by simp⟩⟩

end QueueServes

/-- A request is answered with the reader that it names. -/
theorem Inv.execute (h : s.Inv inputExecute P C) (hdropped : s.dropped = false)
    (hq : q ∈ s.inFlight) :
    ({ s with
      exec := (s.exec.execute inputExecute q).1
      inFlight := s.inFlight.erase q
      served := (q, (s.exec.execute inputExecute q).2) :: s.served } : BroadcastTask T).Inv
      inputExecute P C := by
  obtain ⟨hbound, hfresh⟩ := h.inFlight_fresh hq
  have hpos : 0 < P := Nat.pos_of_ne_zero fun hzero => by simp [hzero] at hbound
  have hlt : q % P < P := Nat.mod_lt _ hpos
  have hconsumer : q / P < C := Nat.div_lt_of_lt_mul hbound
  have hsplit : P * (q / P) + q % P = q := Nat.div_add_mod q P
  obtain ⟨queue, hqueue⟩ : ∃ queue, s.exec.queues[q % P]? = some queue :=
    ⟨_, List.getElem?_eq_getElem (h.length ▸ hlt)⟩
  have hserves := h.queues _ queue hqueue
  rw [hdropped] at hserves
  have hinit := hserves.getOrInit hlt
  have hrequests : ((q :: s.served.map Prod.fst) ++ s.inFlight.erase q).Perm
      (List.range (P * C)) := by
    refine List.Perm.trans ?_ h.requests
    exact (List.perm_middle.symm.trans ((List.perm_cons_erase hq).symm.append_left _))
  -- what is left is the queue of the request; the other queues are as before
  have hother : ∀ (result : Result (BroadcastSystem T)),
      QueueServes inputExecute P C (q % P) (q :: s.served.map Prod.fst) false (some result) →
      ∀ p other, (s.exec.queues.set (q % P) (some result))[p]? = some other →
        QueueServes inputExecute P C p (q :: s.served.map Prod.fst) s.dropped other := by
    intro result hresult p other hget
    rw [hdropped]
    rcases getElem?_set_cases hqueue hget with ⟨rfl, rfl⟩ | ⟨hp, hget⟩
    · exact hresult
    · obtain ⟨hltp, -⟩ := List.getElem?_eq_some_iff.mp hget
      have hold := h.queues p other hget
      rw [hdropped] at hold
      exact hold.other (h.length ▸ hltp) hp
  have hanswers : ∀ result, result = answer inputExecute (q % P) (q / P) →
      ∀ entry ∈ (q, result) :: s.served,
        entry.2 = answer inputExecute (entry.1 % P) (entry.1 / P) := by
    intro result hresult
    exact List.forall_mem_cons.mpr ⟨hresult, h.answers⟩
  cases hresult : queue.getD ((inputExecute (q % P)).map fun _ => .new C) with
  | error err =>
    rw [hresult] at hinit
    have hinput : inputExecute (q % P) = .error err := hinit
    rw [BroadcastExec.execute_failed h.inputPartitionCount h.consumerTaskCount hpos hqueue hresult]
    exact ⟨h.inputPartitionCount, h.consumerTaskCount, List.length_set.trans h.length, hrequests,
      hanswers _ (by rw [answer, hinput]), hother _ hinput⟩
  | ok system =>
    rw [hresult] at hinit
    obtain ⟨hclaimed, next, hnext, hserved⟩ :=
      hinit.claim hlt hconsumer (by rw [hsplit]; exact hfresh)
    rw [hsplit] at hserved
    rw [BroadcastExec.execute_claimed h.inputPartitionCount h.consumerTaskCount hpos hqueue hresult
      hclaimed hnext]
    exact ⟨h.inputPartitionCount, h.consumerTaskCount, List.length_set.trans h.length, hrequests,
      hanswers _ (by rw [answer, hinit.1]), hother _ hserved⟩

/-- The step lemma. -/
theorem Inv.step {next : BroadcastTask T} {action : BroadcastTaskAction T}
    (h : s.Inv inputExecute P C) (hstep : Step inputExecute s action next) :
    next.Inv inputExecute P C := by
  cases hstep with
  | execute hdropped hflight => exact h.execute hdropped hflight
  | drop =>
    exact ⟨h.inputPartitionCount, h.consumerTaskCount, h.length, h.requests, h.answers,
      fun p queue hqueue => (h.queues p queue hqueue).drop⟩
  | @queue p action system next hsystem hallows henabled hnext =>
    refine ⟨h.inputPartitionCount, h.consumerTaskCount, List.length_set.trans h.length,
      h.requests, h.answers, ?_⟩
    intro other queue hqueue
    rcases getElem?_set_cases hsystem hqueue with ⟨rfl, rfl⟩ | ⟨-, hqueue⟩
    · refine QueueServes.step ?_ ?_ henabled hnext (h.queues p _ hsystem)
      · rintro j rfl
        cases hallows
      · rintro rfl
        exact hallows
    · exact h.queues other queue hqueue

theorem reachable_inv (h : (transitions (.new P C) inputExecute (List.range (P * C))).Reachable s) :
    s.Inv inputExecute P C := by
  refine h.invariant ?_ fun s action next hinv hstep => hinv.step hstep
  rintro s rfl
  exact Inv.init

/-- Every request is answered with the reader that it names, unless the input partition fails, and
once all requests have arrived every reader was handed out exactly once. -/
structure Covered (inputExecute : ℕ → Result Unit) (P C : ℕ) (s : BroadcastTask T) : Prop where
  answers : ∀ p < P, ∀ j result, (P * j + p, result) ∈ s.served →
    result = answer inputExecute p j
  claimed : s.inFlight = [] → ∀ p < P, ∀ j < C, inputExecute p = .ok () →
    (s.served.map Prod.snd).count (.ok (p, j)) = 1 ∧
      ∃ system, s.exec.queues[p]? = some (some (.ok system)) ∧
        (system.consumers j).isSome = true ∧ system.Correct

theorem answer_eq_ok {p j : ℕ} (hp : p < P) (hinput : inputExecute p = .ok ()) :
    answer inputExecute (q % P) (q / P) = .ok (p, j) ↔ q = P * j + p := by
  constructor
  · intro h
    unfold answer at h
    split at h
    · cases h
      exact (Nat.div_add_mod q P).symm
    · cases h
  · rintro rfl
    rw [request_mod hp, Nat.mul_add_div (by omega), Nat.div_eq_of_lt hp, Nat.add_zero,
      answer, hinput]

theorem Inv.covered (h : s.Inv inputExecute P C) :
    s.Covered inputExecute P C where
  answers := by
    intro p hp j result hserved
    have hanswer := h.answers _ hserved
    rwa [request_mod hp, Nat.mul_add_div (by omega), Nat.div_eq_of_lt hp] at hanswer
  claimed := by
    intro hall p hp j hj hinput
    have hbound : P * j + p < P * C :=
      calc P * j + p < P * j + P := Nat.add_lt_add_left hp _
        _ = P * (j + 1) := (Nat.mul_succ P j).symm
        _ ≤ P * C := Nat.mul_le_mul_left P hj
    have hrequests := h.requests
    rw [hall, List.append_nil] at hrequests
    have hserved : P * j + p ∈ s.served.map Prod.fst :=
      hrequests.mem_iff.mpr (List.mem_range.mpr hbound)
    constructor
    · have hanswers : s.served.map Prod.snd =
          (s.served.map Prod.fst).map fun q => answer inputExecute (q % P) (q / P) := by
        rw [List.map_map]
        exact List.map_congr_left h.answers
      rw [hanswers, (hrequests.map _).count_eq, List.count, List.countP_map,
        ← List.count_eq_one_of_mem List.nodup_range (List.mem_range.mpr hbound)]
      refine List.countP_congr fun q _ => ?_
      simp only [Function.comp_apply, beq_iff_eq]
      exact answer_eq_ok hp hinput
    · obtain ⟨queue, hqueue⟩ : ∃ queue, s.exec.queues[p]? = some queue :=
        ⟨_, List.getElem?_eq_getElem (h.length ▸ hp)⟩
      have hserves := h.queues p queue hqueue
      rcases queue with _ | err | system
      · exact absurd (request_mod hp) (hserves _ hserved)
      · cases hinput.symm.trans hserves
      · exact ⟨system, hqueue, (hserves.2.2 j hj).1 hserved,
          (BroadcastSystem.reachable_inv hserves.2.1).correct⟩

end BroadcastTask

/-! ## From the boundary to the readers -/

variable {κ : Type} {df : DataFusion κ}

theorem flatMap_range_blocks (P C : ℕ) :
    ((List.range C).flatMap fun j => (List.range P).map fun p => P * j + p) =
      List.range (P * C) := by
  induction C with
  | zero => rfl
  | succ C ih =>
    rw [List.range_succ, List.flatMap_append, ih, List.flatMap_singleton, Nat.mul_succ,
      List.range_add]

/-- A stage of `N` tasks over a `BroadcastExec`, as `insert_broadcast_execs` puts it over `input`,
once it is prepared for `C` consumer tasks and sent to its workers. -/
def sentBroadcast (df : DataFusion κ) (input : Plan κ) (recorded : Option TaskCountAnnotation)
    (num N C : ℕ) : Result (SentStage κ) := do
  let plan := node (.broadcast 1) recorded [input]
  let exec := NetworkBroadcastExec.fromStage (.localStage num N) (plan.properties df)
  let head ← exec.producerHead C
  let planned ← head.insert df plan
  return ⟨.networkBroadcast (exec.withInputStage (.remoteStage num N)), C, planned⟩

theorem insert_broadcast_eq {outputPartitions : ℕ} {plan : Plan κ}
    (h : plan.withoutHead.partitionCount df ≠ 0) :
    (ProducerHead.broadcastExec outputPartitions).insert df plan =
      .ok (node (.broadcast (outputPartitions / plan.withoutHead.partitionCount df)) none
        [plan.withoutHead]) := by
  exact if_neg h

/-- The requests of the consumer tasks to one producer task. -/
theorem requests_to_producer (sent : SentStage κ) {P N : ℕ} {head : ProducerHead κ}
    (hcount : sent.consumer.outPartitions = P)
    (h : ∀ j < sent.consumers, ∀ p < P, sent.consumer.execute df p ⟨j, sent.consumers⟩ =
      .ok (.remote ((List.range N).map fun i => ⟨(P * j, P * j + P), i, P * j + p, head⟩)))
    {i : ℕ} (hi : i < N) :
    ((sent.requests df).filter (·.targetTask = i)).map (·.targetPartition) =
      List.range (P * sent.consumers) := by
  rw [← flatMap_range_blocks]
  unfold SentStage.requests
  rw [List.filter_flatMap, List.map_flatMap, hcount]
  refine List.flatMap_congr fun j hj => ?_
  rw [List.filter_flatMap, List.map_flatMap, List.map_eq_flatMap]
  refine List.flatMap_congr fun p hp => ?_
  rw [h j (List.mem_range.mp hj) p (List.mem_range.mp hp)]
  -- one request to each producer task
  have hone : (List.range N).filter (fun k => decide (k = i)) = [i] := by
    rw [List.filter_eq, List.count_eq_one_of_mem List.nodup_range (List.mem_range.mpr hi)]
    rfl
  simp only [BoundaryStream.requests]
  rw [List.filter_map]
  simp only [Function.comp_def]
  rw [hone]
  rfl

/-- Every consumer task receives every input partition of every producer task once: the workers
execute a `BroadcastExec` with `C` readers for each input partition, consumer task `j` asks every
producer task for reader `j` of every partition, and every producer task answers with that reader,
in whichever order the requests arrive. -/
theorem broadcast_coverage (df : DataFusion κ) (input : Plan κ)
    (recorded : Option TaskCountAnnotation) (num N C : ℕ) (hP : 1 ≤ input.partitionCount df) :
    ∃ sent head, sentBroadcast df input recorded num N C = .ok sent ∧
      sent.consumer.producerHead df C = .ok head ∧
      sent.finalPlan df = .ok (node (.broadcast C) none [input]) ∧
      sent.consumer.outPartitions = input.partitionCount df ∧
      (∀ j < C, ∀ p < input.partitionCount df, sent.consumer.execute df p ⟨j, C⟩ =
        .ok (.remote ((List.range N).map fun i =>
          ⟨(input.partitionCount df * j, input.partitionCount df * j + input.partitionCount df), i,
            input.partitionCount df * j + p, head⟩))) ∧
      ∀ i < N, ∀ (T : Type) (exec : BroadcastExec T) (inputExecute : ℕ → Result Unit)
        (s : BroadcastTask T), BroadcastExec.ofPlan df T (node (.broadcast C) none [input]) =
          some exec →
        (BroadcastTask.transitions exec inputExecute
          (((sent.requests df).filter (·.targetTask = i)).map (·.targetPartition))).Reachable s →
        s.Covered inputExecute (input.partitionCount df) C := by
  have hne : input.partitionCount df ≠ 0 := by omega
  have hcount : (node (.broadcast 1) recorded [input]).partitionCount df =
      input.partitionCount df := by
    rw [partitionCount_broadcast, Nat.mul_one]
  have hinsert : ∀ plan : Plan κ, plan.withoutHead = input →
      (ProducerHead.broadcastExec (input.partitionCount df * C)).insert df plan =
        .ok (node (.broadcast C) none [input]) := by
    intro plan hplan
    rw [insert_broadcast_eq (hplan ▸ hne), hplan, Nat.mul_div_cancel_left C hP]
  let exec := NetworkBroadcastExec.fromStage (.localStage num N)
    ((node (.broadcast 1) recorded [input]).properties df)
  have hhead : exec.producerHead C = .ok (.broadcastExec (input.partitionCount df * C)) := by
    rw [← hcount]
    rfl
  have hexecute : ∀ j < C, ∀ p < input.partitionCount df,
      (exec.withInputStage (.remoteStage num N)).execute p ⟨j, C⟩ =
        .ok (.remote ((List.range N).map fun i =>
          ⟨(input.partitionCount df * j, input.partitionCount df * j + input.partitionCount df), i,
            input.partitionCount df * j + p,
            .broadcastExec (input.partitionCount df * C)⟩)) := by
    intro j _ p hp
    rw [← hcount] at hp ⊢
    exact NetworkBroadcastExec.executeRemote_eq hp N ⟨j, C⟩
  let sent : SentStage κ := ⟨.networkBroadcast (exec.withInputStage (.remoteStage num N)), C,
    node (.broadcast C) none [input]⟩
  refine ⟨sent, .broadcastExec (input.partitionCount df * C), ?_, hhead, ?_, hcount, hexecute, ?_⟩
  · exact bind_ok_iff.mpr ⟨_, hhead, bind_ok_iff.mpr ⟨_, hinsert _ rfl, rfl⟩⟩
  · exact SentStage.finalPlan_ok.mpr ⟨_, hhead, hinsert _ rfl⟩
  · intro i hi T task inputExecute s htask hs
    cases htask
    rw [requests_to_producer sent hcount hexecute hi] at hs
    exact (BroadcastTask.reachable_inv hs).covered

/-- Two producer tasks, three consumer tasks and an input of two partitions. -/
theorem broadcast_coverage_two_three :
    (node (.empty 2) none [] : Plan ℕ).partitionCount (.ofLeaves fun _ => 1) = 2 ∧
      ∃ sent, sentBroadcast (.ofLeaves fun _ => 1) (node (.empty 2) none [] : Plan ℕ) none 0 2 3 =
          .ok sent ∧
        sent.finalPlan (.ofLeaves fun _ => 1) =
          .ok (node (.broadcast 3) none [node (.empty 2) none []]) := by
  obtain ⟨sent, head, hsent, -, hfinal, -⟩ := broadcast_coverage (.ofLeaves fun _ => 1)
    (node (.empty 2) none [] : Plan ℕ) none 0 2 3 (by decide)
  exact ⟨by decide, sent, hsent, hfinal⟩

end DatafusionDistributed
