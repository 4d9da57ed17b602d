import DatafusionDistributed.ExecutionPlans.BroadcastSystem

/-!
# The producer task of a broadcast queue

The task that `BroadcastExec::execute` spawns for an input partition. It reads the partition and
pushes what it gets. It leaves its loop when the partition ends, after an error, and when no
reader is left; a panic of the partition takes it out of the loop as well. In all of these cases
the queue is dropped, which closes it.
-/

namespace DatafusionDistributed

open Library

variable {E B : Type}

/-- The queue with its readers, what is left of the input partition, and whether the loop was
left. -/
structure BroadcastProducer (E B : Type) where
  system : BroadcastSystem (Except E B)
  input : InputStream (Except E B)
  leaving : Bool := false

/-- A turn of the loop, the cancellation of the loop, the drop of the queue, or a step of somebody
else. -/
inductive BroadcastProducerAction (E B : Type) where
  | next
  | cancel
  | dropQueue
  | others (action : BroadcastAction (Except E B))

/-- The steps that only the task takes. -/
def BroadcastAction.isOfProducer {T : Type} : BroadcastAction T → Bool
  | .push _ | .dropQueue => true
  | _ => false

namespace BroadcastProducer

def new (input : InputStream (Except E B)) (expectedReaders : ℕ) : BroadcastProducer E B where
  system := .new expectedReaders
  input

/-- The task is in its loop, and has sent its notifications. -/
def isRunning (self : BroadcastProducer E B) : Bool :=
  !self.leaving && self.system.producer = .running

def enabled (self : BroadcastProducer E B) : BroadcastProducerAction E B → Bool
  | .next => self.isRunning
  | .cancel => self.isRunning && self.system.cancelled
  | .dropQueue => self.leaving && self.system.enabled .dropQueue
  | .others action => !action.isOfProducer && self.system.enabled action

/-- `push`, and whether the value was appended. -/
def push (self : BroadcastProducer E B) (value : Except E B) :
    Result (BroadcastSystem (Except E B) × Bool) := do
  let (_, appended) ← self.system.queue.push value
  let system ← self.system.step (.push value)
  return (system, appended)

def step (self : BroadcastProducer E B) :
    BroadcastProducerAction E B → Result (BroadcastProducer E B)
  | .next =>
    match self.input.next with
    | .item (.ok recordBatch) input => do
      let (system, appended) ← self.push (.ok recordBatch)
      return { system, input, leaving := !appended }
    | .item (.error err) input => do
      let (system, _) ← self.push (.error err)
      return { system, input, leaving := true }
    | .finish => return { self with leaving := true }
    -- unwinding drops what the task owns
    | .panic => return { self with leaving := true }
  | .cancel => return { self with leaving := true }
  | .dropQueue => do
    let system ← self.system.step .dropQueue
    return { self with system }
  | .others action => do
    let system ← self.system.step action
    return { self with system }

/-- All interleavings of the task with the readers of its queue. -/
def transitions (input : InputStream (Except E B)) (expectedReaders : ℕ) :
    Transition (BroadcastProducer E B) (BroadcastProducerAction E B) where
  init := fun s => s = new input expectedReaders
  step := fun s action next => s.enabled action = true ∧ s.step action = .ok next

/-! ## The end of the queue -/

/-- Everything that was read was pushed, and the loop is left only at the end or after an error. -/
structure Complete (input : InputStream (Except E B)) (s : BroadcastProducer E B) : Prop where
  items : s.system.pushed ++ s.input.items = input.items
  leaving : s.leaving = true → s.input.items = [] ∨ ∃ e, .error e ∈ s.system.pushed

structure Inv (input : InputStream (Except E B)) (s : BroadcastProducer E B) : Prop where
  system : s.system.Inv
  cancelled : s.system.cancelled = true → s.system.AllReleased
  closed : s.system.queue.closed = true → s.leaving = true
  complete : s.system.AllReleased ∨ Complete input s
  ends : ∀ i, s.system.Ends i → Complete input s

variable {input : InputStream (Except E B)} {s next : BroadcastProducer E B}

theorem new_inv (input : InputStream (Except E B)) (expectedReaders : ℕ) :
    (new input expectedReaders).Inv input where
  system := BroadcastSystem.new_inv expectedReaders
  cancelled h := by cases h
  closed h := by cases h
  complete := .inr ⟨rfl, fun hleaving => by cases hleaving⟩
  ends := by
    rintro i ⟨consumer, hconsumer, -⟩
    cases hconsumer

variable {system : BroadcastSystem (Except E B)} {value : Except E B} {appended : Bool}

theorem Inv.of_effect (h : s.Inv input) {action : BroadcastAction (Except E B)}
    (heffect : s.system.Effect action system) (hpush : ∀ value, action ≠ .push value)
    (hdrop : action = .dropQueue → s.leaving = true) :
    ({ s with system } : BroadcastProducer E B).Inv input := by
  have hpushed := heffect.pushed hpush
  have hcomplete : Complete input s → Complete input { s with system } := by
    intro hold
    refine ⟨?_, ?_⟩
    · simpa only [hpushed] using hold.items
    · simpa only [hpushed] using hold.leaving
  refine ⟨h.system.of_effect heffect, heffect.cancelled h.cancelled, ?_, ?_, ?_⟩
  · intro hclosed
    by_cases hdropped : action = .dropQueue
    · exact hdrop hdropped
    · rw [heffect.closes hdropped] at hclosed
      exact h.closed hclosed
  · rcases h.complete with hall | hold
    · exact .inl (heffect.allReleased hall)
    · exact .inr (hcomplete hold)
  · intro i hends
    rcases heffect.ends hends with hbefore | hreader
    · exact hcomplete (h.ends i hbefore)
    · exact hcomplete (h.complete.resolve_left hreader)

/-- No consumer is at its end while the task is in its loop. -/
theorem Inv.not_ends (h : s.Inv input) (hrunning : s.leaving = false) (i : ℕ) :
    ¬ s.system.Ends i := by
  rintro ⟨consumer, hconsumer, hphase⟩
  have hclosed := ((h.system.consumers i consumer hconsumer).ended hphase).1
  rw [h.closed hclosed] at hrunning
  cases hrunning

/-- The loop is left with everything pushed, or with no reader left. -/
theorem Inv.leave (h : s.Inv input) (hrunning : s.leaving = false)
    (hwhy : s.system.AllReleased ∨ s.input.items = []) :
    ({ s with leaving := true } : BroadcastProducer E B).Inv input := by
  refine ⟨h.system, h.cancelled, fun _ => rfl, ?_,
    fun i hends => absurd hends (h.not_ends hrunning i)⟩
  rcases hwhy with hall | hend
  · exact .inl hall
  · rcases h.complete with hall | hold
    · exact .inl hall
    · exact .inr ⟨hold.items, fun _ => .inl hend⟩

/-- `push` appends the value, unless no reader is left. -/
theorem push_ok (h : s.system.Inv) (hrunning : s.system.producer = .running)
    (hpush : s.push value = .ok (system, appended)) :
    s.system.Effect (.push value) system ∧ (appended = false → s.system.AllReleased) ∧
      (appended = true → system.pushed = s.system.pushed ++ [value]) := by
  obtain ⟨⟨queue, pushed⟩, hqueue, hpush⟩ := bind_ok_iff.mp hpush
  obtain ⟨next, hstep, hpush⟩ := bind_ok_iff.mp hpush
  cases hpush
  have heffect := h.effect_of_step (by simp [BroadcastSystem.enabled, hrunning]) hstep
  refine ⟨heffect, ?_, ?_⟩
  · rintro rfl
    exact (h.push_iff value).mp ⟨queue, hqueue⟩
  · rintro rfl
    unfold BroadcastSystem.step at hstep
    dsimp only at hstep
    rw [hqueue] at hstep
    cases hstep
    rfl

theorem Inv.pushed (h : s.Inv input) (hrunning : s.isRunning = true)
    {rest : InputStream (Except E B)} (hitems : s.input.items = value :: rest.items)
    {leaving : Bool} (hpush : s.push value = .ok (system, appended))
    (hleaving : leaving = true → appended = false ∨ ∃ e, value = .error e) :
    ({ system, input := rest, leaving } : BroadcastProducer E B).Inv input := by
  simp only [isRunning, Bool.and_eq_true, Bool.not_eq_true', decide_eq_true_eq] at hrunning
  obtain ⟨heffect, hrefused, happended⟩ := push_ok h.system hrunning.2 hpush
  have hopen : system.queue.closed ≠ true := by
    rw [heffect.closes (by simp)]
    intro hclosed
    have hleft := h.closed hclosed
    rw [hrunning.1] at hleft
    cases hleft
  have hinv := h.system.of_effect heffect
  refine ⟨hinv, heffect.cancelled h.cancelled, fun hclosed => absurd hclosed hopen, ?_, ?_⟩
  · by_cases hall : s.system.AllReleased
    · exact .inl (heffect.allReleased hall)
    · right
      have htrue : appended = true := by
        cases appended with
        | true => rfl
        | false => exact absurd (hrefused rfl) hall
      have hold := (h.complete.resolve_left hall).items
      refine ⟨?_, ?_⟩
      · rw [happended htrue, List.append_assoc, List.singleton_append, ← hitems]
        exact hold
      · intro hleft
        rcases hleaving hleft with hfalse | ⟨e, rfl⟩
        · rw [htrue] at hfalse
          cases hfalse
        · exact .inr ⟨e, by dsimp only; rw [happended htrue]; simp⟩
  · rintro i ⟨consumer, hconsumer, hphase⟩
    exact absurd ((hinv.consumers i consumer hconsumer).ended hphase).1 hopen

/-- The step lemma. -/
theorem Inv.step (h : s.Inv input) {action : BroadcastProducerAction E B}
    (henabled : s.enabled action = true) (hstep : s.step action = .ok next) : next.Inv input := by
  unfold BroadcastProducer.step at hstep
  cases action with
  | next =>
    have hrunning : s.isRunning = true := henabled
    have hin : s.leaving = false := by
      simp only [isRunning, Bool.and_eq_true, Bool.not_eq_true'] at hrunning
      exact hrunning.1
    dsimp only at hstep
    split at hstep
    · rename_i recordBatch rest hnext
      obtain ⟨⟨system, appended⟩, hpush, hstep⟩ := bind_ok_iff.mp hstep
      cases hstep
      exact h.pushed hrunning (InputStream.items_of_item hnext) hpush fun hleft =>
        .inl (by simpa using hleft)
    · rename_i err rest hnext
      obtain ⟨⟨system, appended⟩, hpush, hstep⟩ := bind_ok_iff.mp hstep
      cases hstep
      exact h.pushed hrunning (InputStream.items_of_item hnext) hpush fun _ => .inr ⟨err, rfl⟩
    · rename_i hnext
      cases hstep
      exact h.leave hin (.inr (InputStream.items_of_end (.inl hnext)))
    · rename_i hnext
      cases hstep
      exact h.leave hin (.inr (InputStream.items_of_end (.inr hnext)))
  | cancel =>
    simp only [enabled, isRunning, Bool.and_eq_true, Bool.not_eq_true'] at henabled
    cases hstep
    exact h.leave henabled.1.1 (.inl (h.cancelled henabled.2))
  | dropQueue =>
    simp only [enabled, Bool.and_eq_true] at henabled
    obtain ⟨system, hsystem, hstep⟩ := bind_ok_iff.mp hstep
    cases hstep
    exact h.of_effect (h.system.effect_of_step henabled.2 hsystem) (by simp) fun _ => henabled.1
  | others action =>
    simp only [enabled, Bool.and_eq_true] at henabled
    obtain ⟨system, hsystem, hstep⟩ := bind_ok_iff.mp hstep
    cases hstep
    refine h.of_effect (h.system.effect_of_step henabled.2 hsystem) ?_ ?_
    · rintro value rfl
      cases henabled.1
    · rintro rfl
      cases henabled.1

theorem reachable_inv {expectedReaders : ℕ}
    (h : (transitions input expectedReaders).Reachable s) : s.Inv input := by
  refine h.invariant ?_ ?_
  · rintro s rfl
    exact new_inv input expectedReaders
  · rintro s action next hinv ⟨henabled, hstep⟩
    exact hinv.step henabled hstep

/-- A reader that has ended was given an error, in case the partition was not read to its end, if
and only if the partition does not panic, or yields an error. -/
theorem Inv.end_iff (h : s.Inv input) {i : ℕ} {consumer : BroadcastConsumer (Except E B)}
    (hconsumer : s.system.consumers i = some consumer) (hphase : consumer.phase = .finished) :
    (input.Abnormal → ∃ e, .error e ∈ consumer.received) ↔
      (input.last = .panicked → input.Errs) := by
  have hfollows := h.system.consumers i consumer hconsumer
  obtain ⟨hclosed, hreceived⟩ := hfollows.ended (.inr hphase)
  have hcomplete := h.ends i ⟨consumer, hconsumer, .inr hphase⟩
  have hsub : ∀ e, .error e ∈ consumer.received → input.Errs := by
    intro e he
    rw [hreceived] at he
    exact ⟨e, hcomplete.items ▸ List.mem_append_left _ he⟩
  constructor
  · intro hnotice hpanicked
    obtain ⟨e, he⟩ := hnotice (.inl hpanicked)
    exact hsub e he
  · intro hpanics habnormal
    have herrs : input.Errs := by
      rcases habnormal with hpanicked | herrs
      · exact hpanics hpanicked
      · exact herrs
    rw [hreceived]
    rcases hcomplete.leaving (h.closed hclosed) with hend | herror
    · obtain ⟨e, he⟩ := herrs
      rw [← hcomplete.items, hend, List.append_nil] at he
      exact ⟨e, he⟩
    · exact herror

end BroadcastProducer

end DatafusionDistributed
