import DatafusionDistributed.Protocol.WorkerClient

/-!
# The gate in front of the reader

The reader of a connection stops at a gate while the reservation is at least the budget. The
reservation is what the queues hold (`Memory`), and the gate has a three-part invariant: a reader
that is past it has seen less than the budget, a reader that is parked at it has a wake-up coming
or the budget is still used up, and the bytes in the queues exceed the budget by less than the
last message that was let through.

A gate with a budget of zero is never passed: `backpressure_iff`.
-/

namespace DatafusionDistributed

open Library

namespace Connection

variable {E M : Type} {cfg : ConnectionConfig E M} {inner : List (InputStream (Except E M))}
  {s next : Connection E M} {action : ConnectionAction E}

/-! ## The reservation -/

variable (cfg) in
def bufferedBytes (self : Connection E M) : ℕ :=
  (self.streams.map (queuedBytes cfg)).sum

variable (cfg) in
/-- The reservation is what the queues hold, and a dropped stream holds nothing. -/
structure Memory (s : Connection E M) : Prop where
  reservation : s.reservation = s.bufferedBytes cfg
  dropped : ∀ stream ∈ s.streams, stream.dropped = true → stream.queue = []

theorem queuedBytes_send_error (stream : PartitionStream E M) (err : E) :
    queuedBytes cfg (stream.send (.error err)) = queuedBytes cfg stream := by
  unfold PartitionStream.send
  split
  · rfl
  · simp [queuedBytes, msgBytes]

theorem bufferedBytes_set {i : ℕ} {stream : PartitionStream E M}
    (h : s.streams[i]? = some stream) (cfg : ConnectionConfig E M) (other : PartitionStream E M) :
    ((s.streams.set i other).map (queuedBytes cfg)).sum + queuedBytes cfg stream =
      s.bufferedBytes cfg + queuedBytes cfg other :=
  sum_map_set h

theorem Memory.fanout (h : Memory cfg s) (err : E) : Memory cfg (s.fanout err) where
  reservation := by
    show s.reservation = ((s.streams.map (·.send (.error err))).map (queuedBytes cfg)).sum
    rw [h.reservation, List.map_map]
    unfold bufferedBytes
    congr 1
    apply List.map_congr_left
    intro stream _
    exact (queuedBytes_send_error stream err).symm
  dropped := by
    intro stream hstream hdropped
    obtain ⟨before, hbefore, rfl⟩ := List.mem_map.mp hstream
    by_cases hgone : before.dropped = true
    · simp [PartitionStream.send, hgone, h.dropped before hbefore hgone]
    · simp [hgone] at hdropped

/-- A stream is replaced, and the reservation follows. -/
theorem Memory.set {i : ℕ} {stream other : PartitionStream E M} (h : Memory cfg s)
    (hstream : s.streams[i]? = some stream) (hstreams : next.streams = s.streams.set i other)
    (hreservation : next.reservation + queuedBytes cfg stream =
      s.reservation + queuedBytes cfg other)
    (hdropped : other.dropped = true → other.queue = []) : Memory cfg next where
  reservation := by
    have hsum := bufferedBytes_set hstream cfg other
    rw [bufferedBytes, hstreams]
    rw [h.reservation] at hreservation
    omega
  dropped := by
    rw [hstreams]
    exact forall_mem_set h.dropped hdropped

theorem Memory.queuedBytes_le {i : ℕ} {stream : PartitionStream E M} (h : Memory cfg s)
    (hstream : s.streams[i]? = some stream) : queuedBytes cfg stream ≤ s.reservation := by
  rw [h.reservation]
  exact le_sum_map hstream

theorem Memory.moves (h : Memory cfg s) (hmoves : Moves cfg s action next) : Memory cfg next := by
  cases hmoves with
  | poll hstream _ hopen | finish hstream _ hopen =>
    exact h.set hstream rfl rfl (by simp [hopen])
  | @take i stream msg queue hstream _ hopen hqueue =>
    refine h.set hstream rfl ?_ (by simp [hopen])
    have hle := h.queuedBytes_le hstream
    simp only [queuedBytes, hqueue, List.map_cons, List.sum_cons] at hle ⊢
    omega
  | @drop i stream hstream _ =>
    refine h.set hstream rfl ?_ fun _ => rfl
    have hle := h.queuedBytes_le hstream
    show s.reservation - queuedBytes cfg stream + queuedBytes cfg stream = s.reservation + 0
    omega
  | @callback i stream hstream hdropped _ =>
    exact h.set hstream rfl rfl fun _ => h.dropped stream (List.mem_of_getElem? hstream) hdropped
  | deliver _ _ _ hstream hopen =>
    refine h.set hstream rfl ?_ (by simp [hopen])
    simp only [queuedBytes, List.map_append, List.sum_append, List.map_cons, List.map_nil,
      List.sum_cons, List.sum_nil]
    omega
  | refused | readError | fail => exact h.fanout _
  | server | notify | start | connected | closed | park | pass | wake | reject | readEnd
    | cancelWaiting | cancel | abort => exact ⟨h.reservation, h.dropped⟩

theorem memory_new : Memory cfg (new inner) where
  reservation := by simp [new, bufferedBytes, queuedBytes]
  dropped := by simp [new]

theorem memory_of_reachable (h : (transitions cfg inner).Reachable s) : Memory cfg s :=
  (invariant_of_moves memory_new (fun _ _ _ _ hs hmoves => hs.moves hmoves) h).2

/-! ## The gate -/

/-- A release has notified the reader, or is about to. -/
def WakeUpPending (s : Connection E M) : Prop :=
  s.memAvailable = true ∨ 0 < s.notifying

variable (cfg) in
structure Gate (s : Connection E M) : Prop where
  parked : s.phase = .parked → s.WakeUpPending ∨ cfg.bufferBudgetBytes ≤ s.reservation
  reading : s.phase = .reading → s.reservation < cfg.bufferBudgetBytes
  bounded : s.reservation = 0 ∨ ∃ entry ∈ s.server.emitted.take s.taken,
    s.reservation < cfg.bufferBudgetBytes + msgBytes cfg (mark cfg entry)

/-- The bytes of a queue are released with a notification. -/
theorem sum_msgBytes_eq_zero {queue : List (WorkerMsg E M)} (h : reservations queue = 0) :
    (queue.map (msgBytes cfg)).sum = 0 := by
  rw [sum_map_eq_zero_iff]
  intro msg hmsg
  cases msg with
  | error err => rfl
  | ok data => exact absurd rfl (List.countP_eq_zero.mp h (.ok data) hmsg)

/-- Some bytes are released, with a notification if there were any. -/
theorem Gate.release (h : Gate cfg s) (queue : List (WorkerMsg E M))
    (hphase : next.phase = s.phase) (hserver : next.server = s.server)
    (htaken : next.taken = s.taken) (hpermit : next.memAvailable = s.memAvailable)
    (hreservation : next.reservation = s.reservation - (queue.map (msgBytes cfg)).sum)
    (hnotifying : next.notifying = s.notifying + reservations queue) : Gate cfg next where
  parked := by
    rw [hphase]
    intro hparked
    unfold WakeUpPending
    rw [hpermit, hnotifying, hreservation]
    by_cases hnone : reservations queue = 0
    · rw [sum_msgBytes_eq_zero hnone, hnone]
      exact h.parked hparked
    · exact .inl (.inr (by omega))
  reading := by
    rw [hphase]
    intro hreading
    have := h.reading hreading
    omega
  bounded := by
    rw [hserver, htaken]
    rcases h.bounded with hzero | ⟨entry, hentry, hlt⟩
    · omega
    · right
      exact ⟨entry, hentry, by omega⟩

theorem Gate.moves (h : Gate cfg s) (hmoves : Moves cfg s action next) : Gate cfg next := by
  cases hmoves with
  | server _ _ _ hserver =>
    obtain ⟨more, hmore, -⟩ := SelectAll.emitted_step hserver
    refine ⟨h.parked, h.reading, h.bounded.imp_right ?_⟩
    rintro ⟨entry, hentry, hlt⟩
    refine ⟨entry, ?_, hlt⟩
    rw [hmore, List.take_append]
    exact List.mem_append_left _ hentry
  | poll | finish | callback => exact ⟨h.parked, h.reading, h.bounded⟩
  | @take i stream msg queue _ _ _ _ =>
    exact h.release [msg] rfl rfl rfl rfl (by simp) rfl
  | @drop i stream _ _ => exact h.release stream.queue rfl rfl rfl rfl rfl rfl
  | notify => exact ⟨fun _ => .inl (.inl rfl), h.reading, h.bounded⟩
  | park _ hfull => exact ⟨fun _ => .inr hfull, by simp, h.bounded⟩
  | pass _ hroom => exact ⟨by simp, fun _ => hroom, h.bounded⟩
  | @deliver i body stream hphase _ hentry _ _ =>
    refine ⟨by simp, by simp, .inr ⟨(i, .ok body), ?_, ?_⟩⟩
    · rw [List.take_add_one, hentry]
      simp
    · have := h.reading hphase
      show s.reservation + _ < _
      omega
  | reject _ _ _ _ _ =>
    refine ⟨by simp, by simp, h.bounded.imp_right ?_⟩
    rintro ⟨entry, hentry, hlt⟩
    refine ⟨entry, ?_, hlt⟩
    rw [List.take_add_one]
    exact List.mem_append_left _ hentry
  | start | connected | closed | wake | refused | readError | readEnd | fail | cancelWaiting
  | cancel
    | abort => exact ⟨by simp [Connection.fanout], by simp [Connection.fanout], h.bounded⟩

theorem gate_of_reachable (h : (transitions cfg inner).Reachable s) : Gate cfg s := by
  refine (invariant_of_moves ?_ (fun _ _ _ _ hs hmoves => hs.moves hmoves) h).2
  exact ⟨by simp [new], by simp [new], .inl rfl⟩

variable (cfg) in
/-- The reader is not stranded: the bytes in the queues do not exceed the budget by more than one
message, it does not park with nothing in the queues, a reader that waits at the gate with no
wake-up coming has bytes to wait for, and a reader that could go on has a wake-up coming. -/
structure NotStranded (s : Connection E M) : Prop where
  bounded : s.bufferedBytes cfg = 0 ∨ ∃ entry ∈ s.server.emitted.take s.taken,
    s.bufferedBytes cfg ≤ cfg.bufferBudgetBytes + msgBytes cfg (mark cfg entry)
  parks : ∀ next, s.step cfg .check = some next → next.phase = .parked → 0 < s.bufferedBytes cfg
  waits : s.phase = .parked → ¬ s.WakeUpPending → 0 < s.bufferedBytes cfg
  woken : s.phase = .parked →
    s.bufferedBytes cfg < cfg.bufferBudgetBytes ∨ s.bufferedBytes cfg = 0 → s.WakeUpPending

/-- Who parks has found the budget used up. -/
theorem budget_le_of_parks (hstep : s.step cfg .check = some next)
    (hparked : next.phase = .parked) :
    cfg.bufferBudgetBytes ≤ s.reservation := by
  obtain ⟨-, hstep⟩ := Option.ite_none_right_eq_some.mp hstep
  split at hstep
  · assumption
  · obtain rfl := Option.some.inj hstep
    cases hparked

theorem Gate.notStranded (h : Gate cfg s) (hmemory : Memory cfg s)
    (hbudget : 0 < cfg.bufferBudgetBytes) : NotStranded cfg s := by
  have hbounded := h.bounded
  have hparked := h.parked
  rw [hmemory.reservation] at hbounded hparked
  refine ⟨hbounded.imp_right ?_, ?_, ?_, ?_⟩
  · rintro ⟨entry, hentry, hlt⟩
    exact ⟨entry, hentry, hlt.le⟩
  · intro next hstep hphase
    have hfull := budget_le_of_parks hstep hphase
    rw [hmemory.reservation] at hfull
    omega
  · intro hphase hnone
    rcases hparked hphase with hpending | hfull
    · exact absurd hpending hnone
    · omega
  · intro hphase hroom
    rcases hparked hphase with hpending | hfull
    · exact hpending
    · omega

/-- The reader of a connection with one partition, at the gate for the first time. -/
def firstCheck : List (ConnectionAction E) :=
  [.poll 0, .start, .connect (.ok ()), .check]

/-- With a budget of zero the first look at the gate parks the reader. -/
theorem firstCheck_parks (cfg : ConnectionConfig E M) (hbudget : cfg.bufferBudgetBytes = 0)
    (input : InputStream (Except E M)) :
    ∃ s, (transitions cfg [input]).Reachable s ∧ s.phase = .parked ∧ ¬ s.WakeUpPending ∧
      s.bufferedBytes cfg = 0 := by
  have hrun : firstCheck.foldlM (step cfg) (new [input]) =
      some { new [input] with
        streams := [{ opened := true }], phase := .parked, connected := true } := by
    have hfull : cfg.bufferBudgetBytes ≤ 0 := by omega
    simp [firstCheck, step, stepStream, stepReader, new, hfull]
  refine ⟨_, .foldlM (fun _ _ _ h => h) (.init rfl) hrun, rfl, ?_, ?_⟩
  · simp [WakeUpPending, new]
  · simp [bufferedBytes, queuedBytes]

end Connection

open Connection in
/-- The reader of a connection is never stranded, whatever the sizes of the messages and however
they are consumed and dropped, if and only if the budget is not zero. -/
theorem backpressure_iff {E M : Type} (cfg : ConnectionConfig E M) :
    (∀ inner s, (transitions cfg inner).Reachable s → NotStranded cfg s) ↔
      0 < cfg.bufferBudgetBytes := by
  constructor
  · intro hsafe
    by_contra hzero
    obtain ⟨s, hs, hparked, hnone, hempty⟩ := firstCheck_parks cfg (by omega) ⟨[], .finished⟩
    have := (hsafe _ s hs).waits hparked hnone
    omega
  · intro hbudget inner s hs
    exact (gate_of_reachable hs).notStranded (memory_of_reachable hs) hbudget

/-- A connection without a budget. Partitions are written in unary, and a message has as many
bytes as its body says. -/
def unbuffered : ConnectionConfig String ℕ where
  targetPartitionStart := 4
  bufferBudgetBytes := 0
  encodedLen := FlightData.body
  metadata :=
    { encode := fun partition => List.replicate partition 0
      decode := fun bytes => .ok bytes.length
      decode_encode := by simp }
  internal := id

open Connection in
/-- The reader of one partition with one message waits for ever, with nothing in the queue. -/
theorem unbuffered_reader_stranded :
    ∃ s, (transitions unbuffered [⟨[.ok 100], .finished⟩]).Reachable s ∧
      s.phase = .parked ∧ ¬ s.WakeUpPending ∧ s.bufferedBytes unbuffered = 0 :=
  firstCheck_parks unbuffered rfl ⟨[.ok 100], .finished⟩

end DatafusionDistributed
