import DatafusionDistributed.ExecutionPlans.BroadcastQueue
import DatafusionDistributed.Library.Transition

/-!
# The readers and the producer of a broadcast queue

The critical sections of a producer and of any number of readers, in any order. Notifications go
through a watch channel after the mutex is released, so they are steps of their own.
The main result is `broadcast_queue_correct`.
-/

namespace DatafusionDistributed

open Library

/-- What a consumer stream is about to do. -/
inductive ConsumerPhase where
  /-- Take the mutex, at the next poll. -/
  | idle
  /-- Look at the watch channel: nothing was found under the mutex. -/
  | checked
  /-- Release its reader: the queue was found closed. -/
  | closing
  /-- Nothing, until it is woken or polled. -/
  | parked
  /-- Nothing: it has returned the end of the stream. -/
  | finished
  /-- Nothing: it was dropped. -/
  | dropped
  deriving DecidableEq, Repr

/-- `BroadcastConsumer`, with the version of the watch channel that it has seen and the values it
has returned. `WatchStream::new` yields the value that is current at the first poll, so a new
consumer has not seen any version. -/
structure BroadcastConsumer (T : Type) where
  phase : ConsumerPhase := .idle
  seen : Option ℕ := none
  received : List T := []

/-- What the producer is about to do. -/
inductive ProducerPhase where
  | running
  /-- Notify: it has appended a value. -/
  | notifying
  /-- Notify: it has closed the queue. -/
  | dropping
  | gone
  deriving DecidableEq, Repr

def ProducerPhase.notifies : ProducerPhase → Bool
  | notifying | dropping => true
  | _ => false

/-- `BroadcastShared` with its producer and its consumers, and the values pushed so far. The
cancellation token is set right after the mutex is released; nothing in the queue reads it. -/
structure BroadcastSystem (T : Type) where
  queue : QueueState T
  version : ℕ
  cancelled : Bool
  producer : ProducerPhase
  consumers : ℕ → Option (BroadcastConsumer T)
  pushed : List T

/-- One step of the producer, of a consumer, or of the plan that owns the readers. -/
inductive BroadcastAction (T : Type) where
  | push (value : T)
  | notify
  | dropQueue
  | claim (consumerTask : ℕ)
  | poll (consumerId : ℕ)
  | watch (consumerId : ℕ)
  | finish (consumerId : ℕ)
  | dropConsumer (consumerId : ℕ)
  | releasePending

namespace BroadcastConsumer

variable {T : Type}

/-- A notification wakes a parked consumer. -/
def wake (self : BroadcastConsumer T) : BroadcastConsumer T :=
  if self.phase = .parked then { self with phase := .idle } else self

/-- After the first critical section of `poll_next`. -/
def afterPoll (self : BroadcastConsumer T) : Polled T → BroadcastConsumer T
  | .item value => { self with phase := .idle, received := self.received ++ [value] }
  | .nothing closed => { self with phase := if closed then .closing else .checked }
  | .released => { self with phase := .finished }

/-- `poll_next` of the watch stream. -/
def afterWatch (self : BroadcastConsumer T) (version : ℕ) : BroadcastConsumer T :=
  if self.seen = some version then { self with phase := .parked }
  else { self with phase := .idle, seen := some version }

end BroadcastConsumer

namespace BroadcastSystem

variable {T : Type}

def new (expectedReaders : ℕ) : BroadcastSystem T where
  queue := .new expectedReaders
  version := 0
  cancelled := false
  producer := .running
  consumers := fun _ => none
  pushed := []

/-- Whether the consumer exists and is in one of these phases. -/
def isIn (self : BroadcastSystem T) (i : ℕ) (phases : List ConsumerPhase) : Bool :=
  (self.consumers i).any fun consumer => phases.contains consumer.phase

/-- Whether the action can be taken: the producer notifies before it goes on, and a consumer
finishes a poll before it is dropped. -/
def enabled (self : BroadcastSystem T) : BroadcastAction T → Bool
  | .push _ | .dropQueue => self.producer = .running
  | .notify => self.producer.notifies
  | .claim _ | .releasePending => true
  | .poll i | .dropConsumer i => self.isIn i [.idle, .parked, .finished]
  | .watch i => self.isIn i [.checked]
  | .finish i => self.isIn i [.closing]

/-- `send_replace` on the watch channel. -/
def notify (self : BroadcastSystem T) : BroadcastSystem T :=
  { self with
    version := self.version + 1
    producer := if self.producer = .dropping then .gone else .running
    consumers := fun i => (self.consumers i).map BroadcastConsumer.wake }

/-- `release`, after which the consumer is in another phase. -/
def release (self : BroadcastSystem T) (i : ℕ) (phase : ConsumerPhase) :
    Result (BroadcastSystem T) := do
  let (queue, noReadersRemain) ← self.queue.release i
  return { self with
    queue
    cancelled := self.cancelled || noReadersRemain
    consumers := Function.update self.consumers i
      ((self.consumers i).map fun consumer => { consumer with phase }) }

/-- The effect of an action. An error of `claim` goes to the caller and changes nothing. -/
def step (self : BroadcastSystem T) : BroadcastAction T → Result (BroadcastSystem T)
  | .push value => do
    let (queue, appended) ← self.queue.push value
    if appended then
      return { self with queue, producer := .notifying, pushed := self.pushed ++ [value] }
    else return { self with queue }
  | .notify => return self.notify
  | .dropQueue => return { self with queue := self.queue.close, producer := .dropping }
  | .claim i =>
    match self.queue.claim i with
    | .ok queue =>
      return { self with queue, consumers := Function.update self.consumers i (some {}) }
    | .error _ => return self
  | .poll i => do
    let (queue, polled) ← self.queue.poll i
    return { self with
      queue
      consumers := Function.update self.consumers i
        ((self.consumers i).map fun consumer => consumer.afterPoll polled) }
  | .watch i =>
    return { self with
      consumers := Function.update self.consumers i
        ((self.consumers i).map fun consumer => consumer.afterWatch self.version) }
  | .finish i => self.release i .finished
  | .dropConsumer i => self.release i .dropped
  | .releasePending => do
    let (queue, noReadersRemain) ← self.queue.releasePending
    return { self with queue, cancelled := self.cancelled || noReadersRemain }

/-- All interleavings of a queue for `expectedReaders` readers. -/
def transitions (T : Type) (expectedReaders : ℕ) :
    Transition (BroadcastSystem T) (BroadcastAction T) where
  init := fun s => s = new expectedReaders
  step := fun s action next => s.enabled action = true ∧ s.step action = .ok next

/-! ## The invariant -/

/-- The slot of a consumer in this phase that has received `n` values. -/
def slotOf (phase : ConsumerPhase) (n : ℕ) : ReaderSlot :=
  match phase with
  | .finished | .dropped => .released
  | _ => .reading n

/-- There is something for the consumer to return. -/
def Visible (pushed : List T) (closed : Bool) (consumer : BroadcastConsumer T) : Prop :=
  consumer.received.length < pushed.length ∨ closed = true

/-- What holds of a consumer: it has received a prefix of the pushed values, ends only with all
of them, and does not look away from the watch channel while there is something for it, unless a
notification is on its way. -/
structure Follows (slot : Option ReaderSlot) (pushed : List T) (version : ℕ)
    (notifies closed : Bool) (consumer : BroadcastConsumer T) : Prop where
  slot : slot = some (slotOf consumer.phase consumer.received.length)
  received : consumer.received <+: pushed
  seen : ∀ v, consumer.seen = some v → v ≤ version
  ended : consumer.phase = .closing ∨ consumer.phase = .finished →
    closed = true ∧ consumer.received = pushed
  checked : consumer.phase = .checked → Visible pushed closed consumer →
    notifies = true ∨ consumer.seen ≠ some version
  parked : consumer.phase = .parked → Visible pushed closed consumer → notifies = true

structure Inv (s : BroadcastSystem T) : Prop where
  logged : s.queue.Logged s.pushed
  counted : s.queue.Counted
  closed : s.queue.closed = true ↔ s.producer = .dropping ∨ s.producer = .gone
  consumers : ∀ i consumer, s.consumers i = some consumer →
    Follows s.queue.readers[i]? s.pushed s.version s.producer.notifies s.queue.closed consumer

section Follows

variable {slot : Option ReaderSlot} {pushed : List T} {version : ℕ} {notifies closed : Bool}
  {consumer : BroadcastConsumer T}

/-- A value is pushed, and its notification is now on its way. -/
theorem Follows.push (h : Follows slot pushed version notifies false consumer) (value : T) :
    Follows slot (pushed ++ [value]) version true false consumer where
  slot := h.slot
  received := h.received.trans (List.prefix_append _ _)
  seen := h.seen
  ended := by
    intro hphase
    cases (h.ended hphase).1
  checked := fun _ _ => .inl rfl
  parked := fun _ _ => rfl

variable (h : Follows slot pushed version notifies closed consumer)
include h

/-- The queue is closed, and the notification of it is now on its way. -/
theorem Follows.close : Follows slot pushed version true true consumer where
  slot := h.slot
  received := h.received
  seen := h.seen
  ended := fun hphase => ⟨rfl, (h.ended hphase).2⟩
  checked := fun _ _ => .inl rfl
  parked := fun _ _ => rfl

/-- The notification is sent: no consumer is parked, and none has seen it. -/
theorem Follows.wake : Follows slot pushed (version + 1) false closed consumer.wake := by
  have hseen : ∀ v, consumer.seen = some v → v ≤ version + 1 :=
    fun v hv => Nat.le_succ_of_le (h.seen v hv)
  have hnew : consumer.seen ≠ some (version + 1) := by
    intro hsame
    have := h.seen _ hsame
    omega
  have hslot := h.slot
  unfold BroadcastConsumer.wake
  split
  · rename_i hparked
    rw [hparked] at hslot
    refine ⟨hslot, h.received, hseen, ?_, ?_, ?_⟩ <;> simp
  · rename_i hparked
    exact ⟨hslot, h.received, hseen, h.ended, fun _ _ => .inr hnew,
      fun hphase => absurd hphase hparked⟩

theorem Follows.watch (hphase : consumer.phase = .checked) :
    Follows slot pushed version notifies closed (consumer.afterWatch version) := by
  have hslot := h.slot
  rw [hphase] at hslot
  unfold BroadcastConsumer.afterWatch
  split
  · rename_i hsame
    refine ⟨hslot, h.received, h.seen, by simp, by simp, ?_⟩
    intro _ hvisible
    rcases h.checked hphase hvisible with hnotifies | hnew
    · exact hnotifies
    · exact absurd hsame hnew
  · refine ⟨hslot, h.received, ?_, by simp, by simp, by simp⟩
    intro v hv
    cases hv
    exact le_rfl

theorem Follows.item {value : T} (hvalue : pushed[consumer.received.length]? = some value) :
    Follows (some (.reading (consumer.received.length + 1))) pushed version notifies closed
      (consumer.afterPoll (.item value)) := by
  refine ⟨by simp [BroadcastConsumer.afterPoll, slotOf], ?_, h.seen, ?_, ?_, ?_⟩
  · obtain ⟨rest, hrest⟩ := h.received
    rw [← hrest, List.getElem?_append_right le_rfl, Nat.sub_self] at hvalue
    cases rest with
    | nil => cases hvalue
    | cons first rest =>
      cases hvalue
      exact ⟨rest, by simp [BroadcastConsumer.afterPoll, ← hrest]⟩
  all_goals simp [BroadcastConsumer.afterPoll]

/-- The consumer finds nothing to return, and whether the queue is closed. -/
theorem Follows.nothing (hslot : slot = some (.reading consumer.received.length))
    (hall : consumer.received.length = pushed.length) :
    Follows slot pushed version notifies closed (consumer.afterPoll (.nothing closed)) := by
  have hreceived := h.received.eq_of_length hall
  cases closed with
  | true => exact ⟨hslot, h.received, h.seen, fun _ => ⟨rfl, hreceived⟩, by
      simp [BroadcastConsumer.afterPoll], by simp [BroadcastConsumer.afterPoll]⟩
  | false =>
    refine ⟨hslot, h.received, h.seen, by simp [BroadcastConsumer.afterPoll], ?_, by
      simp [BroadcastConsumer.afterPoll]⟩
    rintro - (hlt | hclosed)
    · exact absurd hall (Nat.ne_of_lt hlt)
    · cases hclosed

theorem Follows.released {phase : ConsumerPhase} (hphase : phase = .dropped ∨ phase = .finished ∧
      (consumer.phase = .closing ∨ consumer.phase = .finished)) :
    Follows (some .released) pushed version notifies closed { consumer with phase } := by
  rcases hphase with rfl | ⟨rfl, hended⟩
  · exact ⟨rfl, h.received, h.seen, by simp, by simp, by simp⟩
  · exact ⟨rfl, h.received, h.seen, fun _ => h.ended hended, by simp, by simp⟩

end Follows

theorem new_inv (expectedReaders : ℕ) : (new expectedReaders : BroadcastSystem T).Inv where
  logged := QueueState.new_logged expectedReaders
  counted := QueueState.new_counted expectedReaders
  closed := by simp [new, QueueState.new]
  consumers := by
    intro i consumer hconsumer
    cases hconsumer

variable {s next : BroadcastSystem T} {i j : ℕ} {action : BroadcastAction T}
  {consumer : BroadcastConsumer T}

theorem isIn_iff {phases : List ConsumerPhase} :
    s.isIn i phases = true ↔ ∃ consumer, s.consumers i = some consumer ∧
      consumer.phase ∈ phases := by
  unfold isIn
  cases s.consumers i with
  | none | some consumer => simp

/-! ## What a step does -/

/-- The effect of an enabled action, in a state with the invariant. -/
inductive Effect (s : BroadcastSystem T) : BroadcastAction T → BroadcastSystem T → Prop
  | refused {value : T} (hzero : s.queue.retainingReaders = 0) : Effect s (.push value) s
  | appended {value : T} {queue : QueueState T} (hopen : s.queue.closed = false)
      (hlogged : queue.Logged (s.pushed ++ [value])) (hcounted : queue.Counted)
      (hreaders : queue.readers = s.queue.readers) (hclosed : queue.closed = s.queue.closed) :
      Effect s (.push value)
        { s with queue, producer := .notifying, pushed := s.pushed ++ [value] }
  | notified (hnotifies : s.producer.notifies = true) : Effect s .notify s.notify
  | closed : Effect s .dropQueue { s with queue := s.queue.close, producer := .dropping }
  | rejected {i : ℕ} : Effect s (.claim i) s
  | claimed {i : ℕ} {queue : QueueState T} (hpending : s.queue.readers[i]? = some .pending)
      (hlogged : queue.Logged s.pushed) (hcounted : queue.Counted)
      (hreaders : queue.readers = s.queue.readers.set i (.reading 0))
      (hclosed : queue.closed = s.queue.closed) :
      Effect s (.claim i) { s with queue, consumers := Function.update s.consumers i (some {}) }
  | item {i : ℕ} {consumer : BroadcastConsumer T} {value : T}
      (hconsumer : s.consumers i = some consumer)
      (hslot : s.queue.readers[i]? = some (.reading consumer.received.length))
      (hvalue : s.pushed[consumer.received.length]? = some value) :
      Effect s (.poll i)
        { s with
          queue := { s.queue with
            readers := s.queue.readers.set i (.reading (consumer.received.length + 1)) }
          consumers := Function.update s.consumers i (some (consumer.afterPoll (.item value))) }
  | nothing {i : ℕ} {consumer : BroadcastConsumer T} (hconsumer : s.consumers i = some consumer)
      (hslot : s.queue.readers[i]? = some (.reading consumer.received.length))
      (hall : consumer.received.length = s.pushed.length) :
      Effect s (.poll i)
        { s with
          consumers := Function.update s.consumers i
            (some (consumer.afterPoll (.nothing s.queue.closed))) }
  | finished {i : ℕ} {consumer : BroadcastConsumer T} (hconsumer : s.consumers i = some consumer)
      (hphase : consumer.phase = .finished) (hslot : s.queue.readers[i]? = some .released) :
      Effect s (.poll i)
        { s with consumers := Function.update s.consumers i (some (consumer.afterPoll .released)) }
  | watched {i : ℕ} {consumer : BroadcastConsumer T} (hconsumer : s.consumers i = some consumer)
      (hphase : consumer.phase = .checked) :
      Effect s (.watch i)
        { s with consumers := Function.update s.consumers i (some (consumer.afterWatch s.version)) }
  | released {action : BroadcastAction T} {i : ℕ} {consumer : BroadcastConsumer T}
      {phase : ConsumerPhase} {queue : QueueState T} {last : Bool}
      (haction : action = .finish i ∨ action = .dropConsumer i)
      (hconsumer : s.consumers i = some consumer)
      (hphase : phase = .dropped ∨ phase = .finished ∧ consumer.phase = .closing)
      (hlogged : queue.Logged s.pushed) (hcounted : queue.Counted)
      (hreaders : queue.readers = s.queue.readers.set i .released)
      (hclosed : queue.closed = s.queue.closed) (hlast : last = true → queue.retainingReaders = 0) :
      Effect s action
        { s with
          queue
          cancelled := s.cancelled || last
          consumers := Function.update s.consumers i (some { consumer with phase }) }
  | pendingReleased {queue : QueueState T} {last : Bool} (hlogged : queue.Logged s.pushed)
      (hcounted : queue.Counted)
      (hreaders : queue.readers = s.queue.readers.map QueueState.releaseSlot)
      (hclosed : queue.closed = s.queue.closed) (hlast : last = true → queue.retainingReaders = 0) :
      Effect s .releasePending { s with queue, cancelled := s.cancelled || last }

theorem Inv.release_effect (h : s.Inv) (haction : action = .finish i ∨ action = .dropConsumer i)
    (hconsumer : s.consumers i = some consumer) {phase : ConsumerPhase}
    (hphase : phase = .dropped ∨ phase = .finished ∧ consumer.phase = .closing) :
    ∃ next, s.release i phase = .ok next ∧ Effect s action next := by
  obtain ⟨queue, last, hqueue, hlogged, hcounted, hreaders, hclosed⟩ :=
    h.logged.release h.counted (h.consumers i consumer hconsumer).slot
  have hlast : last = true → queue.retainingReaders = 0 := by
    rintro rfl
    exact QueueState.release_last hqueue
  unfold BroadcastSystem.release
  rw [hqueue, hconsumer]
  exact ⟨_, rfl, .released haction hconsumer hphase hlogged hcounted hreaders hclosed hlast⟩

/-- A consumer that was polled and has not ended still has its reader. -/
theorem slotOf_reading {phase : ConsumerPhase}
    (h : phase ∈ [.idle, .parked, ConsumerPhase.finished])
    (hphase : phase ≠ .finished) (n : ℕ) : slotOf phase n = .reading n := by
  cases phase <;> first | rfl | exact absurd rfl hphase | simp at h

theorem Inv.poll_effect (h : s.Inv) (hconsumer : s.consumers i = some consumer)
    (hphase : consumer.phase ∈ [.idle, .parked, ConsumerPhase.finished]) :
    ∃ next, s.step (.poll i) = .ok next ∧ Effect s (.poll i) next := by
  have hslot := (h.consumers i consumer hconsumer).slot
  unfold BroadcastSystem.step
  dsimp only
  by_cases hfinished : consumer.phase = .finished
  · rw [hfinished] at hslot
    rw [QueueState.poll_released hslot, hconsumer]
    exact ⟨_, rfl, .finished hconsumer hfinished hslot⟩
  · rw [slotOf_reading hphase hfinished] at hslot
    rcases h.logged.poll hslot with ⟨value, hvalue, hpoll⟩ | ⟨hall, hpoll⟩
    · rw [hpoll, hconsumer]
      exact ⟨_, rfl, .item hconsumer hslot hvalue⟩
    · rw [hpoll, hconsumer]
      exact ⟨_, rfl, .nothing hconsumer hslot hall⟩

/-- An enabled action does not panic. -/
theorem Inv.effect (h : s.Inv) (henabled : s.enabled action = true) :
    ∃ next, s.step action = .ok next ∧
      Effect s action next := by
  cases action with
  | push value =>
    have hrunning : s.producer = .running := of_decide_eq_true henabled
    have hopen : s.queue.closed = false := by
      rw [Bool.eq_false_iff]
      intro hclosed
      rcases h.closed.mp hclosed with hphase | hphase <;> rw [hrunning] at hphase <;> cases hphase
    unfold BroadcastSystem.step
    dsimp only
    rcases h.logged.push value with ⟨hzero, hpush⟩ |
      ⟨-, queue, hpush, hlogged, hreaders, hretaining, hclosed⟩
    · rw [hpush]
      exact ⟨_, rfl, .refused hzero⟩
    · have hcounted : queue.Counted := by
        unfold QueueState.Counted
        rw [hretaining, hreaders, h.counted]
      rw [hpush]
      exact ⟨_, rfl, .appended hopen hlogged hcounted hreaders hclosed⟩
  | notify => exact ⟨_, rfl, .notified henabled⟩
  | dropQueue => exact ⟨_, rfl, .closed⟩
  | claim i =>
    unfold BroadcastSystem.step
    dsimp only
    cases hclaim : s.queue.claim i with
    | error e => exact ⟨_, rfl, .rejected⟩
    | ok queue =>
      obtain ⟨hpending, hlogged, hcounted, hreaders, hclosed⟩ :=
        h.logged.claim h.counted hclaim
      exact ⟨_, rfl, .claimed hpending hlogged hcounted hreaders hclosed⟩
  | poll i =>
    obtain ⟨consumer, hconsumer, hphase⟩ := isIn_iff.mp henabled
    exact h.poll_effect hconsumer hphase
  | watch i =>
    obtain ⟨consumer, hconsumer, hphase⟩ := isIn_iff.mp henabled
    unfold BroadcastSystem.step
    dsimp only
    rw [hconsumer]
    exact ⟨_, rfl, .watched hconsumer (List.mem_singleton.mp hphase)⟩
  | finish i =>
    obtain ⟨consumer, hconsumer, hphase⟩ := isIn_iff.mp henabled
    exact h.release_effect (.inl rfl) hconsumer (.inr ⟨rfl, List.mem_singleton.mp hphase⟩)
  | dropConsumer i =>
    obtain ⟨consumer, hconsumer, -⟩ := isIn_iff.mp henabled
    exact h.release_effect (.inr rfl) hconsumer (.inl rfl)
  | releasePending =>
    obtain ⟨queue, last, hqueue, hlogged, hcounted, hreaders, hclosed⟩ :=
      h.logged.releasePending h.counted
    have hlast : last = true → queue.retainingReaders = 0 := by
      rintro rfl
      exact QueueState.releasePending_last hqueue
    unfold BroadcastSystem.step
    rw [hqueue]
    exact ⟨_, rfl, .pendingReleased hlogged hcounted hreaders hclosed hlast⟩

theorem Inv.effect_of_step (h : s.Inv) (henabled : s.enabled action = true)
    (hstep : s.step action = .ok next) :
    Effect s action next := by
  obtain ⟨other, hother, heffect⟩ := h.effect henabled
  rw [hother] at hstep
  cases hstep
  exact heffect

theorem Inv.update (h : s.Inv) {queue : QueueState T} {slot : ReaderSlot}
    (hlogged : queue.Logged s.pushed) (hcounted : queue.Counted)
    (hclosed : queue.closed = s.queue.closed)
    (hreaders : queue.readers = s.queue.readers.set i slot) (hlt : i < s.queue.readers.length)
    (hconsumer : Follows (some slot) s.pushed s.version s.producer.notifies s.queue.closed consumer)
    (cancelled : Bool) :
    ({ s with queue, cancelled, consumers := Function.update s.consumers i (some consumer) } :
      BroadcastSystem T).Inv := by
  refine ⟨hlogged, hcounted, by dsimp only; rw [hclosed]; exact h.closed, ?_⟩
  intro j c hc
  dsimp only at hc ⊢
  rw [hclosed, hreaders]
  by_cases hj : j = i
  · subst hj
    rw [Function.update_self] at hc
    cases hc
    rw [List.getElem?_set_self hlt]
    exact hconsumer
  · rw [Function.update_of_ne hj] at hc
    rw [List.getElem?_set_ne (Ne.symm hj)]
    exact h.consumers j c hc

theorem Inv.updateConsumer (h : s.Inv)
    (hconsumer : Follows s.queue.readers[i]? s.pushed s.version s.producer.notifies s.queue.closed
      consumer) :
    ({ s with consumers := Function.update s.consumers i (some consumer) } :
      BroadcastSystem T).Inv := by
  obtain ⟨hlt, hslot⟩ := List.getElem?_eq_some_iff.mp hconsumer.slot
  refine h.update h.logged h.counted rfl ?_ hlt (hconsumer.slot ▸ hconsumer) s.cancelled
  rw [← hslot, List.set_getElem_self]

/-- The step lemma: a step keeps the invariant. -/
theorem Inv.of_effect (h : s.Inv) (heffect : Effect s action next) : next.Inv := by
  cases heffect with
  | refused => exact h
  | appended hopen hlogged hcounted hreaders hclosed =>
    refine ⟨hlogged, hcounted, by simp [hclosed, hopen], ?_⟩
    intro i consumer hconsumer
    have hfollows := h.consumers i consumer hconsumer
    rw [hopen] at hfollows
    rw [hclosed, hreaders, hopen]
    exact hfollows.push _
  | notified hnotifies =>
    refine ⟨h.logged, h.counted, ?_, ?_⟩
    · simp only [BroadcastSystem.notify, h.closed]
      cases hproducer : s.producer <;> simp [hproducer, ProducerPhase.notifies] at hnotifies ⊢
    · intro i consumer hconsumer
      obtain ⟨old, hold, rfl⟩ := Option.map_eq_some_iff.mp hconsumer
      have hsilent : s.notify.producer.notifies = false := by
        unfold BroadcastSystem.notify
        split <;> rfl
      rw [hsilent]
      exact (h.consumers i old hold).wake
  | closed =>
    refine ⟨⟨h.logged.tail, h.logged.base_le, h.logged.entries, h.logged.cursors⟩, h.counted,
      by simp [QueueState.close], ?_⟩
    intro i consumer hconsumer
    exact (h.consumers i consumer hconsumer).close
  | rejected => exact h
  | claimed hpending hlogged hcounted hreaders hclosed =>
    obtain ⟨hlt, -⟩ := List.getElem?_eq_some_iff.mp hpending
    exact h.update hlogged hcounted hclosed hreaders hlt
      ⟨rfl, List.nil_prefix, by simp, by simp, by simp, by simp⟩ _
  | @item i consumer value hconsumer hslot hvalue =>
    obtain ⟨hlt, -⟩ := List.getElem?_eq_some_iff.mp hslot
    have hbase := (h.logged.cursors _ (List.mem_of_getElem? hslot) _ rfl).1
    have hnext := (List.getElem?_eq_some_iff.mp hvalue).1
    have htail := h.logged.tail
    refine h.update (h.logged.set i (.reading (consumer.received.length + 1)) ?_ _)
      (h.counted.set hslot rfl) rfl rfl hlt ((h.consumers i consumer hconsumer).item hvalue) _
    intro cursor hcursor
    cases hcursor
    omega
  | nothing hconsumer hslot hall =>
    exact h.updateConsumer ((h.consumers _ _ hconsumer).nothing hslot hall)
  | finished hconsumer hphase hslot =>
    refine h.updateConsumer ?_
    rw [hslot]
    exact (h.consumers _ _ hconsumer).released (.inr ⟨rfl, .inr hphase⟩)
  | watched hconsumer hphase =>
    exact h.updateConsumer ((h.consumers _ _ hconsumer).watch hphase)
  | released haction hconsumer hphase hlogged hcounted hreaders hclosed hlast =>
    have hfollows := h.consumers _ _ hconsumer
    obtain ⟨hlt, -⟩ := List.getElem?_eq_some_iff.mp hfollows.slot
    refine h.update hlogged hcounted hclosed hreaders hlt (hfollows.released ?_) _
    rcases hphase with rfl | ⟨rfl, hclosing⟩
    · exact .inl rfl
    · exact .inr ⟨rfl, .inl hclosing⟩
  | pendingReleased hlogged hcounted hreaders hclosed hlast =>
    refine ⟨hlogged, hcounted, by dsimp only; rw [hclosed]; exact h.closed, ?_⟩
    intro i consumer hconsumer
    have hfollows := h.consumers i consumer hconsumer
    have hsame : (s.queue.readers.map QueueState.releaseSlot)[i]? = s.queue.readers[i]? := by
      rw [List.getElem?_map, hfollows.slot]
      cases consumer.phase <;> rfl
    rw [hclosed, hreaders, hsame]
    exact hfollows

theorem Inv.step (h : s.Inv) (henabled : s.enabled action = true) :
    ∃ next, s.step action = .ok next ∧ next.Inv := by
  obtain ⟨next, hnext, heffect⟩ := h.effect henabled
  exact ⟨next, hnext, h.of_effect heffect⟩

theorem reachable_inv {expectedReaders : ℕ} (h : (transitions T expectedReaders).Reachable s) :
    s.Inv := by
  refine h.invariant ?_ ?_
  · rintro s rfl
    exact new_inv expectedReaders
  · rintro s action next hinv ⟨henabled, hstep⟩
    exact hinv.of_effect (hinv.effect_of_step henabled hstep)

/-! ## Readers that are claimed, and readers that are left -/

theorem slotOf_ne_pending (phase : ConsumerPhase) (n : ℕ) : slotOf phase n ≠ .pending := by
  cases phase <;> simp [slotOf]

/-- A reader stays pending until it is claimed, or all pending readers are released. -/
theorem Effect.pending (h : s.Inv) (heffect : Effect s action next) (hclaim : action ≠ .claim j)
    (hrelease : action ≠ .releasePending) (hpending : s.queue.readers[j]? = some .pending) :
    next.queue.readers[j]? = some .pending := by
  cases heffect with
  | refused | notified | closed | rejected | nothing | finished | watched => exact hpending
  | appended _ _ _ hreaders => simpa only [hreaders] using hpending
  | @claimed i _ _ _ _ hreaders =>
    have hne : i ≠ j := fun hsame => hclaim (by rw [hsame])
    simpa only [hreaders, List.getElem?_set_ne hne] using hpending
  | @item i _ _ _ hslot =>
    have hne : i ≠ j := by
      rintro rfl
      rw [hslot] at hpending
      cases hpending
    simpa only [List.getElem?_set_ne hne] using hpending
  | @released _ i consumer _ _ _ _ hconsumer _ _ _ hreaders =>
    have hne : i ≠ j := by
      rintro rfl
      rw [(h.consumers i consumer hconsumer).slot, Option.some.injEq] at hpending
      exact slotOf_ne_pending _ _ hpending
    simpa only [hreaders, List.getElem?_set_ne hne] using hpending
  | pendingReleased => exact absurd rfl hrelease

theorem isSome_update {consumers : ℕ → Option (BroadcastConsumer T)} (i : ℕ)
    (consumer : BroadcastConsumer T) (h : (consumers j).isSome = true) :
    (Function.update consumers i (some consumer) j).isSome = true := by
  by_cases hj : j = i
  · rw [hj, Function.update_self]
    rfl
  · rw [Function.update_of_ne hj]
    exact h

theorem Effect.isSome (heffect : Effect s action next) (h : (s.consumers j).isSome = true) :
    (next.consumers j).isSome = true := by
  cases heffect with
  | refused | appended | closed | rejected | pendingReleased => exact h
  | notified => exact Option.isSome_map.trans h
  | claimed | item | nothing | finished | watched | released => exact isSome_update _ _ h

def AllReleased (s : BroadcastSystem T) : Prop :=
  ∀ slot ∈ s.queue.readers, slot = .released

theorem allReleased_iff (hcounted : s.queue.Counted) :
    s.queue.retainingReaders = 0 ↔ s.AllReleased := by
  rw [hcounted, List.countP_eq_zero]
  refine forall_congr' fun slot => imp_congr_right fun _ => ?_
  cases slot <;> simp [ReaderSlot.retains, ReaderSlot.cursor]

/-- Once no reader is left, none comes back. -/
theorem Effect.allReleased (heffect : Effect s action next) (hall : s.AllReleased) :
    next.AllReleased := by
  unfold AllReleased at hall ⊢
  cases heffect with
  | refused | notified | closed | rejected | nothing | finished | watched => exact hall
  | appended _ _ _ hreaders => simpa only [hreaders] using hall
  | claimed hpending => cases hall _ (List.mem_of_getElem? hpending)
  | item _ hslot => cases hall _ (List.mem_of_getElem? hslot)
  | released _ _ _ _ _ hreaders =>
    intro slot hslot
    simp only [hreaders] at hslot
    rcases List.mem_or_eq_of_mem_set hslot with hold | rfl
    · exact hall slot hold
    · rfl
  | pendingReleased _ _ hreaders =>
    intro slot hslot
    simp only [hreaders, List.mem_map] at hslot
    obtain ⟨old, hold, rfl⟩ := hslot
    rw [hall old hold]
    rfl

/-- The token is cancelled only when no reader is left. -/
theorem Effect.cancelled (heffect : Effect s action next)
    (hold : s.cancelled = true → s.AllReleased) (hcancelled : next.cancelled = true) :
    next.AllReleased := by
  by_cases hbefore : s.cancelled = true
  · exact heffect.allReleased (hold hbefore)
  · cases heffect with
    | refused | appended | notified | closed | rejected | claimed | item | nothing | finished |
        watched => exact absurd hcancelled hbefore
    | released _ _ _ _ hcounted _ _ hlast | pendingReleased _ hcounted _ _ hlast =>
      simp only [hbefore] at hcancelled
      exact (allReleased_iff hcounted).mp (hlast hcancelled)

theorem Effect.pushed (heffect : Effect s action next) (hpush : ∀ value, action ≠ .push value) :
    next.pushed = s.pushed := by
  cases heffect with
  | appended => exact absurd rfl (hpush _)
  | _ => rfl

/-- Only dropping the queue closes it. -/
theorem Effect.closes (heffect : Effect s action next) (hdrop : action ≠ .dropQueue) :
    next.queue.closed = s.queue.closed := by
  cases heffect with
  | closed => exact absurd rfl hdrop
  | refused | notified | rejected | item | nothing | finished | watched => rfl
  | appended _ _ _ _ hclosed | claimed _ _ _ _ hclosed | released _ _ _ _ _ _ hclosed
  | pendingReleased _ _ _ hclosed => exact hclosed

/-- The consumer is about to end, or has ended. -/
def Ends (s : BroadcastSystem T) (i : ℕ) : Prop :=
  ∃ consumer, s.consumers i = some consumer ∧
    (consumer.phase = .closing ∨ consumer.phase = .finished)

/-- A consumer comes to its end while it still has its reader. -/
theorem Effect.ends (heffect : Effect s action next) (hends : next.Ends j) :
    s.Ends j ∨ ¬ s.AllReleased := by
  -- a step of one consumer: either it is another one, or the step itself brings it to its end
  have hupdate : ∀ (i : ℕ) (consumer : BroadcastConsumer T),
      (∃ c, Function.update s.consumers i (some consumer) j = some c ∧
        (c.phase = .closing ∨ c.phase = .finished)) →
      (consumer.phase = .closing ∨ consumer.phase = .finished → s.Ends i ∨ ¬ s.AllReleased) →
      s.Ends j ∨ ¬ s.AllReleased := by
    rintro i consumer ⟨c, hc, hphase⟩ hself
    by_cases hj : j = i
    · subst hj
      rw [Function.update_self] at hc
      cases hc
      exact hself hphase
    · rw [Function.update_of_ne hj] at hc
      exact .inl ⟨c, hc, hphase⟩
  cases heffect with
  | refused | appended | closed | rejected | pendingReleased => exact .inl hends
  | notified =>
    obtain ⟨c, hc, hphase⟩ := hends
    obtain ⟨old, hold, rfl⟩ := Option.map_eq_some_iff.mp hc
    unfold BroadcastConsumer.wake at hphase
    split at hphase
    · simp at hphase
    · exact .inl ⟨old, hold, hphase⟩
  | claimed => exact hupdate _ _ hends (by simp)
  | item => exact hupdate _ _ hends (by simp [BroadcastConsumer.afterPoll])
  | nothing _ hslot =>
    refine hupdate _ _ hends fun _ => .inr fun hall => ?_
    cases hall _ (List.mem_of_getElem? hslot)
  | finished hconsumer hphase =>
    exact hupdate _ _ hends fun _ => .inl ⟨_, hconsumer, .inr hphase⟩
  | watched =>
    refine hupdate _ _ hends ?_
    unfold BroadcastConsumer.afterWatch
    split <;> simp
  | released _ hconsumer hphase =>
    refine hupdate _ _ hends ?_
    rcases hphase with rfl | ⟨-, hclosing⟩
    · simp
    · exact fun _ => .inl ⟨_, hconsumer, .inl hclosing⟩

/-! ## Correctness -/

/-- The consumer is parked while there is something for it. -/
def Waits (s : BroadcastSystem T) (i : ℕ) : Prop :=
  ∃ consumer, s.consumers i = some consumer ∧ consumer.phase = .parked ∧
    Visible s.pushed s.queue.closed consumer

/-- What holds of the queue in every state. -/
structure Correct (s : BroadcastSystem T) : Prop where
  entries : s.queue.baseCursor + s.queue.entries.length = s.queue.tailCursor
  retaining : s.queue.retainingReaders = s.queue.readers.countP (· ≠ .released)
  base : ∀ slot ∈ s.queue.readers, ∀ cursor, slot.cursor = some cursor →
    s.queue.baseCursor ≤ cursor
  /-- No subtraction underflows, no `expect` and no unreachable branch fires. -/
  noPanic : ∀ action, s.enabled action = true → ∃ next, s.step action = .ok next
  received : ∀ i consumer, s.consumers i = some consumer → consumer.received <+: s.pushed
  /-- A reader that is behind gets the next entry. -/
  next : ∀ i consumer, s.consumers i = some consumer → s.enabled (.poll i) = true →
    ∀ value, consumer.phase ≠ .finished → s.pushed[consumer.received.length]? = some value →
      ∃ queue, s.queue.poll i = .ok (queue, .item value)
  /-- A reader ends after all entries, and after the producer has closed. -/
  ended : ∀ i consumer, s.consumers i = some consumer → consumer.phase = .finished →
    s.queue.closed = true ∧ consumer.received = s.pushed
  /-- Nothing is pushed after the producer has closed. -/
  closed : s.queue.closed = true → ∀ value, s.enabled (.push value) = false
  push : ∀ value, (∃ queue, s.queue.push value = .ok (queue, false)) ↔
    ∀ slot ∈ s.queue.readers, slot = .released

theorem retains_eq_ne_released : ReaderSlot.retains = fun slot => decide (slot ≠ .released) := by
  funext slot
  cases slot <;> rfl

theorem Inv.push_iff (h : s.Inv) (value : T) :
    (∃ queue, s.queue.push value = .ok (queue, false)) ↔
      ∀ slot ∈ s.queue.readers, slot = .released := by
  refine Iff.trans ?_ (allReleased_iff h.counted)
  constructor
  · rintro ⟨queue, hpush⟩
    rcases h.logged.push value with ⟨hzero, -⟩ | ⟨-, next, hnext, -⟩
    · exact hzero
    · rw [hnext] at hpush
      cases hpush
  · intro hzero
    exact ⟨s.queue, if_pos hzero⟩

theorem Inv.correct (h : s.Inv) : s.Correct where
  entries := h.logged.length
  retaining := by
    have hcounted := h.counted
    rwa [QueueState.Counted, retains_eq_ne_released] at hcounted
  base := fun slot hslot cursor hcursor => (h.logged.cursors slot hslot cursor hcursor).1
  noPanic := by
    intro action henabled
    obtain ⟨next, hnext, -⟩ := h.step henabled
    exact ⟨next, hnext⟩
  received := fun i consumer hconsumer => (h.consumers i consumer hconsumer).received
  next := by
    intro i consumer hconsumer henabled value hphase hvalue
    have hslot := (h.consumers i consumer hconsumer).slot
    obtain ⟨other, hother, hin⟩ := isIn_iff.mp henabled
    rw [hconsumer] at hother
    cases hother
    rw [slotOf_reading hin hphase] at hslot
    rcases h.logged.poll hslot with ⟨found, hfound, hpoll⟩ | ⟨hall, -⟩
    · rw [hfound] at hvalue
      cases hvalue
      exact ⟨_, hpoll⟩
    · rw [hall, List.getElem?_eq_none le_rfl] at hvalue
      cases hvalue
  ended := fun i consumer hconsumer hphase =>
    (h.consumers i consumer hconsumer).ended (.inr hphase)
  closed := by
    intro hclosed value
    rcases h.closed.mp hclosed with hphase | hphase <;> simp [enabled, hphase]
  push := h.push_iff

/-- In every state the queue is correct, for any number of readers and any interleaving. In a run
in which the producer sends the notifications it owes, no reader stays parked for ever while there
is an entry or a close for it. -/
theorem broadcast_queue_correct (T : Type) (expectedReaders : ℕ) :
    (∀ s, (transitions T expectedReaders).Reachable s → s.Correct) ∧
      ∀ run : (transitions T expectedReaders).Run,
        run.Fair (fun s => s.producer.notifies = true) (fun action => action = .notify) →
        ∀ i t, (run.state t).Waits i → ∃ u > t, ¬ (run.state u).Waits i := by
  refine ⟨fun s hs => (reachable_inv hs).correct, ?_⟩
  intro run hfair i t hwaits
  refine hfair.ends (fun s => s.Waits i) ?_ ?_ hwaits
  · rintro s hs ⟨consumer, hconsumer, hparked, hvisible⟩
    exact ((reachable_inv hs).consumers i consumer hconsumer).parked hparked hvisible
  · rintro s action next ⟨-, hstep⟩ rfl ⟨consumer, hconsumer, hparked, -⟩
    cases hstep
    obtain ⟨old, -, rfl⟩ := Option.map_eq_some_iff.mp hconsumer
    unfold BroadcastConsumer.wake at hparked
    split at hparked
    · cases hparked
    · rename_i hnot
      exact hnot hparked

/-- A reader looks at an empty queue and at the watch channel until it is parked. -/
def parking : List (BroadcastAction ℕ) :=
  [.claim 0, .poll 0, .watch 0, .poll 0, .watch 0, .push 7, .notify]

/-- The reader is parked when the value is pushed, and the notification wakes it. -/
theorem parked_reader_is_woken : ∃ run : (transitions ℕ 1).Run,
    (run.state 6).Waits 0 ∧ ∃ u > 6, ¬ (run.state u).Waits 0 := by
  have hpast : ∀ t ≥ parking.length, parking.take t = parking := fun _ => List.take_of_length_le
  let run : (transitions ℕ 1).Run :=
    { state := fun t => ((parking.take t).foldlM step (new 1)).toOption.getD (new 1)
      action := fun t => parking[t]?
      starts := rfl
      pauses := fun t ht => by
        have ht : 7 ≤ t := List.getElem?_eq_none_iff.mp ht
        simp only [hpast t ht, hpast (t + 1) (Nat.le_succ_of_le ht)]
      steps := fun t a ha => by
        rcases t with _ | _ | _ | _ | _ | _ | _ | t <;> cases ha <;> exact ⟨rfl, rfl⟩ }
  have hwaits : (run.state 6).Waits 0 := ⟨_, rfl, rfl, .inl Nat.zero_lt_one⟩
  refine ⟨run, hwaits, (broadcast_queue_correct ℕ 1).2 run (fun t ht => ?_) 0 6 hwaits⟩
  rcases Nat.lt_or_ge t 7 with hlt | hge
  · exact ⟨6, Nat.le_of_lt_succ hlt, .notify, rfl, rfl⟩
  · simp only [run, hpast t hge] at ht
    cases ht

end BroadcastSystem

/-- A reader that is claimed after the first entry was pushed still starts with it. -/
example : ((([.push 7, .notify, .claim 1, .poll 1, .push 8, .poll 1] :
    List (BroadcastAction ℕ)).foldlM BroadcastSystem.step (.new 2)).map
      fun s => (s.consumers 1).map BroadcastConsumer.received) = .ok (some [7, 8]) := by
  rfl

end DatafusionDistributed
