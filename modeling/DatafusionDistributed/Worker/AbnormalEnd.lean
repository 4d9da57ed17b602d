import DatafusionDistributed.ExecutionPlans.BroadcastProducer
import DatafusionDistributed.Protocol.SpawnSelectAll

/-!
# The end of a partition that was not read to its end

A task that reads a partition signals the end of it by dropping what it writes to: the sender of
a channel in `spawn_select_all`, the queue in `BroadcastExec`. An error is a message that is
written before. A panic writes nothing, and unwinding drops the sender or the queue as well.

`clean_end_iff` says which ends a reader can rely on, and `panic_ends_cleanly` is a partition of
which a reader sees the first batch and then the end.
-/

namespace DatafusionDistributed

open Library

/-- Whoever sees the end of a stream was given an error before, in case the stream of a partition
was not read to its end, if and only if a stream that panics is one of a request, or a partition,
with an error. For every interleaving of `spawn_select_all` and of `BroadcastExec`. -/
theorem clean_end_iff (E B : Type) :
    (∀ (inner : List (InputStream (Except E B))) (queueSize : ℕ) (s : SelectAll (Except E B)),
      (SelectAll.transitions queueSize inner).Reachable s → s.ended = true →
      ((∀ input ∈ inner, input.Abnormal → ∃ i e, (i, .error e) ∈ s.emitted) ↔
        ((∃ input ∈ inner, input.last = .panicked) → ∃ input ∈ inner, input.Errs))) ∧
    ∀ (input : InputStream (Except E B)) (expectedReaders : ℕ) (s : BroadcastProducer E B),
      (BroadcastProducer.transitions input expectedReaders).Reachable s →
      ∀ i consumer, s.system.consumers i = some consumer → consumer.phase = .finished →
      ((input.Abnormal → ∃ e, .error e ∈ consumer.received) ↔
        (input.last = .panicked → input.Errs)) := by
  constructor
  · intro inner queueSize s hs hended
    exact (SelectAll.reachable_inv hs).end_iff hended
  · intro input expectedReaders s hs i consumer hconsumer hphase
    exact (BroadcastProducer.reachable_inv hs).end_iff hconsumer hphase

/-- A step of the task or of a reader, if it can be taken. -/
def BroadcastProducer.attempt {E B : Type} (self : BroadcastProducer E B)
    (action : BroadcastProducerAction E B) : Option (BroadcastProducer E B) :=
  if self.enabled action then (self.step action).toOption else none

theorem BroadcastProducer.reachable_of_attempts {E B : Type} {input : InputStream (Except E B)}
    {expectedReaders : ℕ} {actions : List (BroadcastProducerAction E B)}
    {s : BroadcastProducer E B}
    (h : actions.foldlM attempt (new input expectedReaders) = some s) :
    (transitions input expectedReaders).Reachable s := by
  refine Transition.Reachable.foldlM ?_ (.init rfl) h
  intro s action next hnext
  obtain ⟨henabled, hnext⟩ := Option.ite_none_right_eq_some.mp hnext
  cases hstep : s.step action with
  | error e =>
    rw [hstep] at hnext
    cases hnext
  | ok found =>
    rw [hstep] at hnext
    cases hnext
    exact ⟨henabled, hstep⟩

/-- One reader takes everything that a partition with two messages yields. -/
def readTwo : List (BroadcastProducerAction ℕ ℕ) :=
  [.others (.claim 0), .next, .others .notify, .others (.poll 0), .next, .others .notify,
    .others (.poll 0), .dropQueue, .others .notify, .others (.poll 0), .others (.finish 0)]

/-- A partition that yields an error and then panics: the reader is given the error. -/
theorem clean_end_of_error : ∃ s consumer,
    (BroadcastProducer.transitions ⟨[.ok 1, .error 2], .panicked⟩ 1).Reachable s ∧
      s.system.consumers 0 = some consumer ∧ consumer.phase = .finished ∧
      ∃ e : ℕ, (.error e : Except ℕ ℕ) ∈ consumer.received := by
  have hrun : (readTwo.foldlM BroadcastProducer.attempt
      (.new ⟨[.ok 1, .error 2], .panicked⟩ 1)).map (fun s => s.system.consumers 0) =
      some (some ⟨.finished, none, [.ok 1, .error 2]⟩) := by
    rfl
  obtain ⟨s, hs, hconsumer⟩ := Option.map_eq_some_iff.mp hrun
  have hreachable := BroadcastProducer.reachable_of_attempts hs
  refine ⟨s, _, hreachable, hconsumer, rfl, ?_⟩
  refine ((clean_end_iff ℕ ℕ).2 _ 1 s hreachable 0 _ hconsumer rfl).mpr ?_ (.inl rfl)
  intro _
  exact ⟨2, by simp⟩

/-- A partition that yields one batch and then panics: the readers see the batch and the end, on
the worker side of a network stream and below a `BroadcastExec`. -/
theorem panic_ends_cleanly :
    (∃ s, (SelectAll.transitions 1 [⟨[.ok 1], .panicked⟩]).Reachable s ∧ s.ended = true ∧
      s.emitted = [(0, (.ok 1 : Except ℕ ℕ))]) ∧
    ∃ s consumer, (BroadcastProducer.transitions ⟨[.ok 1], .panicked⟩ 1).Reachable s ∧
      s.system.consumers 0 = some consumer ∧ consumer.phase = .finished ∧
      consumer.received = [(.ok 1 : Except ℕ ℕ)] := by
  constructor
  · have hrun : [.poll 0, .send 0, .receive 0, .poll 0, .finish].foldlM (SelectAll.step 1)
        (.new [⟨[(.ok 1 : Except ℕ ℕ)], .panicked⟩]) =
        some ⟨[⟨⟨[], .panicked⟩, .unwound, []⟩], [(0, .ok 1)], true, false⟩ := by
      rfl
    exact ⟨_, Transition.Reachable.foldlM (fun _ _ _ hnext => hnext) (.init rfl) hrun, rfl, rfl⟩
  · have hrun : (([.others (.claim 0), .next, .others .notify, .others (.poll 0), .next, .dropQueue,
        .others .notify, .others (.poll 0), .others (.finish 0)] :
          List (BroadcastProducerAction ℕ ℕ)).foldlM BroadcastProducer.attempt
        (.new ⟨[.ok 1], .panicked⟩ 1)).map (fun s => s.system.consumers 0) =
        some (some ⟨.finished, none, [.ok 1]⟩) := by
      rfl
    obtain ⟨s, hs, hconsumer⟩ := Option.map_eq_some_iff.mp hrun
    exact ⟨s, _, BroadcastProducer.reachable_of_attempts hs, hconsumer, rfl, rfl⟩

end DatafusionDistributed
