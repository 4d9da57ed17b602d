import DatafusionDistributed.Protocol.Backpressure

/-!
# What the streams of a connection receive

The messages of all partitions come in one merged stream and leave in one stream for each
partition. `Routing` says where every message is that the reader has taken: what a stream has
received and what is in its queue are, in this order, the messages of its partition, followed by
the error that ended the connection if there was one. `Life` says how the reader can have come to
its end.

Every step leaves less to do (`decreases_work`), so a connection comes to rest whatever the
schedule. `demultiplexing_iff` says what is true then, and that this needs a budget.
-/

namespace DatafusionDistributed

open Library

namespace ConnectionAction

variable {E : Type}

/-- The steps that the worker, the reader and the consumers take by themselves. A consumer need
not drop its stream, and a connection need not fail. -/
def isForced : ConnectionAction E → Bool
  | drop _ | fail _ | connect (.error _) => false
  | _ => true

end ConnectionAction

namespace Connection

variable {E M : Type} {cfg : ConnectionConfig E M} {inner : List (InputStream (Except E M))}
  {s next : Connection E M} {action : ConnectionAction E}

/-! ## Where the messages are -/

/-- The messages for one partition that the reader has taken from the merged stream. -/
def takenFor (self : Connection E M) (i : ℕ) : List (ℕ × Except E M) :=
  (self.server.emitted.take self.taken).filter fun entry => entry.1 = i

variable (cfg) in
/-- The messages for one partition that the reader has taken, and the error after them. -/
def history (self : Connection E M) (i : ℕ) : List (WorkerMsg E M) :=
  (self.takenFor i).map (mark cfg) ++ self.failed.toList.map .error

variable (cfg) in
structure Routing (inner : List (InputStream (Except E M))) (s : Connection E M) : Prop where
  faithful : s.server.Faithful inner
  taken_le : s.taken ≤ s.server.emitted.length
  ok : ∀ entry ∈ s.server.emitted.take s.taken, ∃ body, entry.2 = .ok body
  streams : ∀ i stream, s.streams[i]? = some stream →
    ∃ rest, stream.received ++ rest = s.history cfg i ∧
      (stream.dropped = false → rest = stream.queue)

variable {i : ℕ} {stream : PartitionStream E M} {input : InputStream (Except E M)}

theorem Routing.set {other : PartitionStream E M} {firstPoll cancelled : Bool}
    {reservation notifying notConsumedStreams : ℕ} (h : Routing cfg inner s)
    (hstream : s.streams[i]? = some stream)
    (hother : ∀ rest, stream.received ++ rest = s.history cfg i →
      (stream.dropped = false → rest = stream.queue) →
      ∃ rest, other.received ++ rest = s.history cfg i ∧
        (other.dropped = false → rest = other.queue)) :
    Routing cfg inner { s with
      streams := s.streams.set i other
      reservation
      notifying
      notConsumedStreams
      firstPoll
      cancelled } where
  faithful := h.faithful
  taken_le := h.taken_le
  ok := h.ok
  streams := by
    intro j entry hentry
    rcases getElem?_set_cases hstream hentry with ⟨rfl, rfl⟩ | ⟨-, hentry⟩
    · obtain ⟨rest, hrest, hqueue⟩ := h.streams i stream hstream
      exact hother rest hrest hqueue
    · exact h.streams j entry hentry

theorem Routing.fanout (h : Routing cfg inner s) (hfailed : s.failed = none) (err : E) :
    Routing cfg inner (s.fanout err) where
  faithful := h.faithful
  taken_le := h.taken_le
  ok := h.ok
  streams := by
    intro i stream hstream
    obtain ⟨before, hbefore, rfl⟩ := Option.map_eq_some_iff.mp
      ((List.getElem?_map ..).symm.trans hstream)
    obtain ⟨rest, hrest, hqueue⟩ := h.streams i before hbefore
    have hhistory : (s.fanout err).history cfg i = s.history cfg i ++ [.error err] := by
      simp [history, takenFor, Connection.fanout, hfailed]
    refine ⟨rest ++ [.error err], ?_, ?_⟩
    · rw [hhistory, ← hrest, ← List.append_assoc]
      unfold PartitionStream.send
      split <;> rfl
    · by_cases hdropped : before.dropped = true
      · simp [hdropped]
      · simp [PartitionStream.send, hdropped, hqueue (Bool.eq_false_iff.mpr hdropped)]

variable (cfg) in
/-- The history of one partition grows by the message that is read. -/
theorem history_read {j : ℕ} {body : M} (hfailed : s.failed = none)
    (hentry : s.server.emitted[s.taken]? = some (j, .ok body)) (i : ℕ) :
    ({ s with taken := s.taken + 1 } : Connection E M).history cfg i =
      s.history cfg i ++ if j = i then [mark cfg (j, .ok body)] else [] := by
  unfold history takenFor
  rw [hfailed, List.take_add_one, hentry]
  by_cases hj : j = i <;> simp [hj]

/-- A message is read, and the streams of the other partitions stay. -/
theorem Routing.read {j : ℕ} {body : M} {phase : DemuxPhase} {reservation notifying : ℕ}
    (h : Routing cfg inner s) (hfailed : s.failed = none)
    (hentry : s.server.emitted[s.taken]? = some (j, .ok body))
    (hstream : s.streams[j]? = some stream) (other : PartitionStream E M)
    (hreceived : other.received = stream.received)
    (hother : other.dropped = false → stream.dropped = false ∧
      other.queue = stream.queue ++ [mark cfg (j, .ok body)]) :
    Routing cfg inner { s with
      taken := s.taken + 1
      phase
      streams := s.streams.set j other
      reservation
      notifying } where
  faithful := h.faithful
  taken_le := (List.getElem?_eq_some_iff.mp hentry).1
  ok := by
    rw [List.take_add_one, hentry]
    intro entry hmem
    rcases List.mem_append.mp hmem with hold | hnew
    · exact h.ok entry hold
    · simp only [Option.toList_some, List.mem_singleton] at hnew
      exact ⟨body, by rw [hnew]⟩
  streams := by
    intro i entry hi
    have hhistory := history_read cfg hfailed hentry i
    unfold history takenFor at hhistory ⊢
    rw [hhistory]
    rcases getElem?_set_cases hstream hi with ⟨rfl, rfl⟩ | ⟨hj, hi⟩
    · obtain ⟨rest, hrest, hqueue⟩ := h.streams j stream hstream
      refine ⟨rest ++ [mark cfg (j, .ok body)], ?_, ?_⟩
      · rw [hreceived, ← List.append_assoc, hrest, if_pos rfl, history, takenFor]
      · intro hopen
        obtain ⟨hdropped, hnew⟩ := hother hopen
        rw [hnew, hqueue hdropped]
    · rw [if_neg hj, List.append_nil]
      exact h.streams i entry hi

/-! ## How the reader ends -/

structure Life (s : Connection E M) : Prop where
  counted : ∀ stream ∈ s.streams, stream.counted = true → stream.dropped = true
  remaining : s.notConsumedStreams =
    (s.streams.map fun stream => if stream.counted then 0 else 1).sum
  cancelled : s.cancelled = true → ∀ stream ∈ s.streams, stream.dropped = true
  waiting : s.phase = .waiting → (∃ stream ∈ s.streams, stream.opened = true) → s.firstPoll = true
  closing : s.phase = .closing → s.cancelled = true
  connected : s.phase = .gate ∨ s.phase = .parked ∨ s.phase = .reading → s.connected = true
  server : s.server.dropped = true → s.phase = .done
  failed : s.failed.isSome = true → s.phase = .done
  done : s.phase = .done → s.failed = none →
    (s.server.ended = true ∧ s.taken = s.server.emitted.length) ∨
      ∀ stream ∈ s.streams, stream.dropped = true
  ended : ∀ stream ∈ s.streams, stream.ended = true → stream.queue = [] ∧ s.phase = .done

/-- Only the reader moves. -/
theorem Life.of_phase {connected memAvailable firstPoll : Bool} {taken reservation notifying : ℕ}
    {phase : DemuxPhase} (h : Life s) (hwaiting : phase ≠ .waiting)
    (hclosing : phase = .closing → s.cancelled = true)
    (hconnected : phase = .gate ∨ phase = .parked ∨ phase = .reading → connected = true)
    (hdone : s.phase ≠ .done)
    (hends : phase = .done → s.failed = none →
      (s.server.ended = true ∧ taken = s.server.emitted.length) ∨
        ∀ stream ∈ s.streams, stream.dropped = true) :
    Life { s with connected, taken, phase, reservation, memAvailable, notifying, firstPoll } where
  counted := h.counted
  remaining := h.remaining
  cancelled := h.cancelled
  waiting := fun hphase => absurd hphase hwaiting
  closing := hclosing
  connected := hconnected
  server := fun hdropped => absurd (h.server hdropped) hdone
  failed := fun hsome => absurd (h.failed hsome) hdone
  done := hends
  ended := fun stream hstream hended => absurd (h.ended stream hstream hended).2 hdone

theorem Life.set {firstPoll : Bool} {reservation notifying : ℕ} {other : PartitionStream E M}
    (h : Life s) (hstream : s.streams[i]? = some stream)
    (hcounted : other.counted = stream.counted)
    (hdropped : stream.dropped = true → other.dropped = true)
    (hopened : s.phase = .waiting → other.opened = true →
      stream.opened = true ∨ firstPoll = true)
    (hended : other.ended = true → other.queue = [] ∧ s.phase = .done)
    (hfirst : s.firstPoll = true → firstPoll = true) :
    Life { s with streams := s.streams.set i other, reservation, notifying, firstPoll } where
  counted := by
    refine forall_mem_set h.counted ?_
    rw [hcounted]
    exact fun hcount => hdropped (h.counted stream (List.mem_of_getElem? hstream) hcount)
  remaining := by
    have hsum := sum_map_set (f := fun stream : PartitionStream E M =>
      if stream.counted then 0 else 1) (y := other) hstream
    rw [hcounted] at hsum
    dsimp only
    rw [h.remaining]
    omega
  cancelled := by
    intro hcancel
    refine forall_mem_set (h.cancelled hcancel) (hdropped ?_)
    exact h.cancelled hcancel stream (List.mem_of_getElem? hstream)
  waiting := by
    rintro hwaiting ⟨entry, hentry, hopen⟩
    rcases List.mem_or_eq_of_mem_set hentry with hold | rfl
    · exact hfirst (h.waiting hwaiting ⟨entry, hold, hopen⟩)
    · rcases hopened hwaiting hopen with hbefore | hpermit
      · exact hfirst (h.waiting hwaiting ⟨stream, List.mem_of_getElem? hstream, hbefore⟩)
      · exact hpermit
  closing := h.closing
  connected := h.connected
  server := h.server
  failed := h.failed
  done := by
    intro hdone hnone
    refine (h.done hdone hnone).imp_right fun hall => ?_
    exact forall_mem_set hall (hdropped (hall stream (List.mem_of_getElem? hstream)))
  ended := forall_mem_set h.ended hended

theorem Life.fanout (h : Life s) (hphase : s.phase ≠ .done) (err : E) : Life (s.fanout err) where
  counted := by
    intro stream hstream
    obtain ⟨before, hbefore, rfl⟩ := List.mem_map.mp hstream
    simpa using h.counted before hbefore
  remaining := by
    show s.notConsumedStreams = ((s.streams.map (·.send (.error err))).map _).sum
    rw [h.remaining]
    simp [Function.comp_def]
  cancelled := by
    intro hcancelled stream hstream
    obtain ⟨before, hbefore, rfl⟩ := List.mem_map.mp hstream
    simpa using h.cancelled hcancelled before hbefore
  waiting := by simp [Connection.fanout]
  closing := by simp [Connection.fanout]
  connected := by simp [Connection.fanout]
  server := fun _ => rfl
  failed := fun _ => rfl
  done := by simp [Connection.fanout]
  ended := by
    intro stream hstream hended
    obtain ⟨before, hbefore, rfl⟩ := List.mem_map.mp hstream
    exact absurd (h.ended before hbefore (by simpa using hended)).2 hphase

/-- The callback of a stream cancels the reader once all callbacks have run. -/
theorem Life.countStream (h : Life s) (hstream : s.streams[i]? = some stream)
    (hdropped : stream.dropped = true) (hcounted : stream.counted = false) :
    Life (s.countStream i stream) := by
  have hmem := List.mem_of_getElem? hstream
  have hsum := sum_map_set (f := fun stream : PartitionStream E M =>
    if stream.counted then 0 else 1) (y := { stream with counted := true }) hstream
  simp only [hcounted, Bool.false_eq_true, if_false, if_true] at hsum
  have hcountedAll : ∀ entry ∈ s.streams.set i { stream with counted := true },
      entry.counted = true → entry.dropped = true :=
    forall_mem_set h.counted fun _ => hdropped
  have hremaining : s.notConsumedStreams - 1 =
      ((s.streams.set i { stream with counted := true }).map fun stream =>
        if stream.counted then 0 else 1).sum := by
    rw [h.remaining]
    omega
  refine ⟨hcountedAll, hremaining, ?_, ?_, ?_, h.connected, h.server, h.failed, ?_, ?_⟩
  · intro hcancelled
    simp only [Connection.countStream, Bool.or_eq_true, beq_iff_eq] at hcancelled
    rcases hcancelled with hbefore | hlast
    · exact forall_mem_set (h.cancelled hbefore) hdropped
    · rw [hremaining, sum_map_eq_zero_iff] at hlast
      intro entry hentry
      apply hcountedAll entry hentry
      have hzero := hlast entry hentry
      by_contra hopen
      simp [hopen] at hzero
  · rintro hwaiting ⟨entry, hentry, hopen⟩
    rcases List.mem_or_eq_of_mem_set hentry with hold | rfl
    · exact h.waiting hwaiting ⟨entry, hold, hopen⟩
    · exact h.waiting hwaiting ⟨stream, hmem, hopen⟩
  · intro hclosing
    show (s.cancelled || _) = true
    rw [h.closing hclosing, Bool.true_or]
  · intro hdone hnone
    exact (h.done hdone hnone).imp_right fun hall => forall_mem_set hall hdropped
  · exact forall_mem_set h.ended (h.ended stream hmem)

theorem Life.moves (hshape : Shape inner s) (hrouting : Routing cfg inner s) (h : Life s)
    (hmoves : Moves cfg s action next) : Life next := by
  cases hmoves with
  | @server action server hconnected hfinish hdrop hstep =>
    refine ⟨h.counted, h.remaining, h.cancelled, h.waiting, h.closing, h.connected, ?_, h.failed,
      ?_, h.ended⟩
    · intro hdropped
      rcases SelectAll.dropped_step hstep hdropped with hbefore | hnow
      · exact h.server hbefore
      · exact (hdrop hnow).2
    · intro hdone hnone
      refine (h.done hdone hnone).imp_left ?_
      rintro ⟨hended, htaken⟩
      obtain ⟨hstill, hemitted⟩ := hshape.server.step_of_ended hstep hended
      refine ⟨hstill, ?_⟩
      rw [hemitted, htaken]
  | @poll i stream hstream hnew hopen =>
    exact h.set hstream rfl id (fun _ _ => .inr rfl)
      (h.ended stream (List.mem_of_getElem? hstream)) fun _ => rfl
  | @take i stream msg queue hstream hopened hopen hqueue =>
    refine h.set hstream rfl id (fun _ _ => .inl hopened) ?_ id
    intro hended
    have hempty := (h.ended stream (List.mem_of_getElem? hstream) hended).1
    rw [hqueue] at hempty
    cases hempty
  | @finish i stream hstream hopened hopen _ hqueue hdone =>
    exact h.set hstream rfl id (fun _ _ => .inl hopened) (fun _ => ⟨hqueue, hdone⟩) id
  | @drop i stream hstream hopen =>
    exact h.set hstream rfl (fun _ => rfl) (fun _ hopened => .inl hopened)
      (fun hended => ⟨rfl, (h.ended stream (List.mem_of_getElem? hstream) hended).2⟩) id
  | callback hstream hdropped hcounted => exact h.countStream hstream hdropped hcounted
  | notify =>
    exact ⟨h.counted, h.remaining, h.cancelled, h.waiting, h.closing, h.connected, h.server,
      h.failed, h.done, h.ended⟩
  | @deliver i body stream hphase hcancelled hentry hstream hopen =>
    let other := { stream with queue := stream.queue ++ [mark cfg (i, .ok body)] }
    have hset : Life { s with streams := s.streams.set i other } := by
      refine h.set hstream rfl id (fun _ hopened => .inl hopened) ?_ id
      intro hended
      have hdone := (h.ended stream (List.mem_of_getElem? hstream) hended).2
      rw [hphase] at hdone
      cases hdone
    exact hset.of_phase (by simp) (by simp)
      (fun _ => h.connected (by simp [hphase])) (by simp [hphase]) (by simp)
  | start hphase =>
    exact h.of_phase (by simp) (by simp) (by simp) (by simp [hphase]) (by simp)
  | connected hphase =>
    exact h.of_phase (by simp) (by simp) (fun _ => rfl) (by simp [hphase])
      (by simp)
  | park hphase | pass hphase | wake hphase | reject hphase =>
    exact h.of_phase (by simp) (by simp)
      (fun _ => h.connected (by simp [hphase])) (by simp [hphase]) (by simp)
  | refused hphase | readError hphase | fail hphase => exact h.fanout (by simp [hphase]) _
  | readEnd hphase _ hentry hended =>
    refine h.of_phase (by simp) (by simp) (by simp) (by simp [hphase]) ?_
    intro _ _
    exact .inl ⟨hended, Nat.le_antisymm hrouting.taken_le (List.getElem?_eq_none_iff.mp hentry)⟩
  | closed hphase =>
    exact h.of_phase (by simp) (by simp) (by simp) (by simp [hphase])
      fun _ _ => .inr (h.cancelled (h.closing hphase))
  | cancelWaiting hphase hcancelled =>
    exact h.of_phase (by simp) (fun _ => hcancelled) (by simp) (by simp [hphase])
      (by simp)
  | cancel hphase hcancelled =>
    refine h.of_phase (by simp) (by simp) (by simp) ?_
      fun _ _ => .inr (h.cancelled hcancelled)
    rcases hphase with hphase | hphase <;> simp [hphase]
  | abort hphase hdropped =>
    exact h.of_phase (by simp) (by simp) (by simp) hphase
      fun _ _ => .inr hdropped

theorem Routing.moves (hshape : Shape inner s) (hlife : Life s) (h : Routing cfg inner s)
    (hmoves : Moves cfg s action next) : Routing cfg inner next := by
  have hnone : s.phase ≠ .done → s.failed = none := by
    intro hphase
    by_contra hsome
    exact hphase (hlife.failed (Option.isSome_iff_ne_none.mpr hsome))
  cases hmoves with
  | @server action server _ _ _ hstep =>
    obtain ⟨more, hmore, -⟩ := SelectAll.emitted_step hstep
    have htake : server.emitted.take s.taken = s.server.emitted.take s.taken := by
      rw [hmore, List.take_append_of_le_length h.taken_le]
    refine ⟨h.faithful.step hshape.server hstep, ?_, ?_, ?_⟩
    · have hle := h.taken_le
      show s.taken ≤ server.emitted.length
      rw [hmore, List.length_append]
      omega
    · rw [htake]
      exact h.ok
    · intro i stream hstream
      have hhistory : ({ s with server } : Connection E M).history cfg i = s.history cfg i := by
        simp only [history, takenFor, htake]
      rw [hhistory]
      exact h.streams i stream hstream
  | poll hstream | finish hstream | callback hstream =>
    exact h.set hstream fun rest hrest hqueue => ⟨rest, hrest, hqueue⟩
  | @take i stream msg queue hstream _ hopen hqueue =>
    refine h.set hstream fun rest hrest hold => ⟨queue, ?_, fun _ => rfl⟩
    rw [← hrest, hold hopen, hqueue, List.append_assoc]
    rfl
  | drop hstream => exact h.set hstream fun rest hrest _ => ⟨rest, hrest, by simp⟩
  | @deliver i body stream hphase _ hentry hstream hopen =>
    exact h.read (hnone (by simp [hphase])) hentry hstream
      { stream with queue := stream.queue ++ [mark cfg (i, .ok body)] } rfl fun _ => ⟨hopen, rfl⟩
  | @reject i body stream hphase _ hentry hstream hdropped =>
    have hsame : s.streams = s.streams.set i stream := by
      obtain ⟨hlt, rfl⟩ := List.getElem?_eq_some_iff.mp hstream
      exact (List.set_getElem_self hlt).symm
    rw [hsame]
    refine h.read (hnone (by simp [hphase])) hentry hstream stream rfl ?_
    intro hopen
    rw [hdropped] at hopen
    cases hopen
  | refused hphase | readError hphase | fail hphase => exact h.fanout (hnone (by simp [hphase])) _
  | notify | start | connected | closed | park | pass | wake | readEnd | cancelWaiting | cancel
    | abort => exact ⟨h.faithful, h.taken_le, h.ok, h.streams⟩

theorem routing_new : Routing cfg inner (new inner) where
  faithful := fun i input _ => List.nil_prefix
  taken_le := Nat.le_refl 0
  ok := by simp [new]
  streams := by
    intro i stream hstream
    obtain ⟨-, rfl⟩ := List.mem_replicate.mp (List.mem_of_getElem? hstream)
    exact ⟨[], rfl, fun _ => rfl⟩

theorem life_new : Life (new inner : Connection E M) where
  counted := by simp [new]
  remaining := by simp [new]
  cancelled := by simp [new]
  waiting := by simp [new]
  closing := by simp [new]
  connected := by simp [new]
  server := by simp [new, SelectAll.new]
  failed := by simp [new]
  done := by simp [new]
  ended := by simp [new]

/-- The run lemma of both invariants. -/
theorem routing_of_reachable (h : (transitions cfg inner).Reachable s) :
    Routing cfg inner s ∧ Life s := by
  refine (invariant_of_moves (p := fun s => Routing cfg inner s ∧ Life s)
    ⟨routing_new, life_new⟩ ?_ h).2
  intro s action next hshape hs hmoves
  exact ⟨hs.1.moves hshape hs.2 hmoves, hs.2.moves hshape hs.1 hmoves⟩

/-! ## Every step leaves less to do -/

/-- What is left to do with a stream. A message that is taken out of a queue may cost a
notification and one more look at the gate. -/
def streamWork (stream : PartitionStream E M) : ℕ :=
  4 * stream.queue.length + 2 * (!stream.opened).toNat + (!stream.ended).toNat +
    (!stream.dropped).toNat + (!stream.counted).toNat

/-- What is left to do for the reader. On its way to the end it may send an error to each of
`streams` streams. -/
def readerWork (streams : ℕ) : DemuxPhase → ℕ
  | .waiting => 4 * streams + 6
  | .connecting => 4 * streams + 3
  | .gate => 4 * streams + 2
  | .closing | .parked | .reading => 4 * streams + 1
  | .done => 0

/-- What is left to do. Every message goes from the worker through the reader into a queue. -/
def work (self : Connection E M) : ℕ :=
  7 * self.server.work + 6 * (self.server.emitted.length - self.taken) +
    (self.streams.map streamWork).sum + 3 * self.notifying + 2 * self.memAvailable.toNat +
    self.firstPoll.toNat + readerWork self.streams.length self.phase

theorem reservations_le (queue : List (WorkerMsg E M)) : reservations queue ≤ queue.length :=
  List.countP_le_length

theorem sum_streamWork_send (streams : List (PartitionStream E M)) (err : E) :
    ((streams.map (·.send (.error err))).map streamWork).sum ≤
      (streams.map streamWork).sum + 4 * streams.length := by
  induction streams with
  | nil => simp
  | cons stream streams ih =>
    have hsend : streamWork (stream.send (.error err)) ≤ streamWork stream + 4 := by
      by_cases hdropped : stream.dropped = true
      · simp [PartitionStream.send, hdropped]
      · simp [PartitionStream.send, hdropped, streamWork]
        omega
    simp only [List.map_cons, List.sum_cons, List.length_cons]
    omega

theorem work_fanout (err : E) (hphase : s.phase ≠ .done) : (s.fanout err).work < s.work := by
  have hsum := sum_streamWork_send s.streams err
  have hreader : 4 * s.streams.length < readerWork s.streams.length s.phase := by
    cases h : s.phase with
    | done => exact absurd h hphase
    | _ => simp [readerWork]
  have hdone : readerWork s.streams.length .done = 0 := rfl
  simp only [work, Connection.fanout, List.length_map]
  omega

theorem work_reader {phase : DemuxPhase}
    (h : readerWork s.streams.length phase < readerWork s.streams.length s.phase) :
    ({ s with phase } : Connection E M).work < s.work := by
  simp only [work]
  omega

theorem streamWork_set (h : s.streams[i]? = some stream) (other : PartitionStream E M) :
    ((s.streams.set i other).map streamWork).sum + streamWork stream =
      (s.streams.map streamWork).sum + streamWork other :=
  sum_map_set h

/-- One stream has less to do, more than what it leaves to the others. -/
theorem work_set {other : PartitionStream E M} {reservation notifying notConsumedStreams : ℕ}
    {firstPoll cancelled : Bool} (hstream : s.streams[i]? = some stream)
    (h : streamWork other + 3 * notifying + firstPoll.toNat <
      streamWork stream + 3 * s.notifying + s.firstPoll.toNat) :
    ({ s with
      streams := s.streams.set i other
      reservation
      notifying
      notConsumedStreams
      firstPoll
      cancelled } : Connection E M).work < s.work := by
  have hsum := streamWork_set hstream other
  simp only [work, List.length_set]
  omega

theorem work_moves (hmoves : Moves cfg s action next) : next.work < s.work := by
  cases hmoves with
  | @server action server _ hfinish hdrop hstep =>
    have hless := SelectAll.work_step hstep hfinish fun h => (hdrop h).1
    obtain ⟨more, hmore, hone⟩ := SelectAll.emitted_step hstep
    simp only [work, hmore, List.length_append]
    omega
  | @poll i stream hstream hnew _ =>
    apply work_set hstream
    simp [streamWork, hnew]
    omega
  | @take i stream msg queue hstream _ _ hqueue =>
    have hone : reservations [msg] ≤ 1 := reservations_le [msg]
    apply work_set hstream
    simp [streamWork, hqueue]
    omega
  | @finish i stream hstream _ _ hended _ _ =>
    apply work_set hstream
    simp [streamWork, hended]
  | @drop i stream hstream hopen =>
    have hle := reservations_le stream.queue
    apply work_set hstream
    simp [streamWork, hopen]
    omega
  | @callback i stream hstream _ hcounted =>
    apply work_set hstream
    simp [streamWork, hcounted]
  | notify hpending =>
    have hpermit : (true : Bool).toNat = 1 := rfl
    simp only [work]
    omega
  | start hphase hfirst _ =>
    simp [work, hphase, readerWork]
    omega
  | connected hphase => simp [work, hphase, readerWork]
  | wake hphase hpermit _ =>
    simp [work, hphase, hpermit, readerWork]
    omega
  | @deliver i body stream hphase _ hentry hstream _ =>
    have hsum := streamWork_set hstream
      { stream with queue := stream.queue ++ [mark cfg (i, .ok body)] }
    have hcost : streamWork { stream with queue := stream.queue ++ [mark cfg (i, .ok body)] } =
        streamWork stream + 4 := by
      simp [streamWork]
      omega
    obtain ⟨hlt, -⟩ := List.getElem?_eq_some_iff.mp hentry
    simp only [work, hphase, readerWork, List.length_set]
    omega
  | reject hphase _ hentry _ _ =>
    obtain ⟨hlt, -⟩ := List.getElem?_eq_some_iff.mp hentry
    simp only [work, hphase, readerWork]
    omega
  | refused hphase | readError hphase | fail hphase => exact work_fanout _ (by simp [hphase])
  | closed hphase | park hphase | pass hphase | readEnd hphase | cancelWaiting hphase =>
    exact work_reader (by simp [hphase, readerWork])
  | cancel hphase _ =>
    apply work_reader
    rcases hphase with hphase | hphase <;> simp [hphase, readerWork]
  | abort hphase _ =>
    apply work_reader
    cases h : s.phase with
    | done => exact absurd h hphase
    | _ => simp [readerWork]

theorem decreases_work : (transitions cfg inner).Decreases work :=
  fun _ _ _ hs hstep => work_moves (moves_of_step (shape_of_reachable hs) hstep)

/-! ## At rest -/

variable (cfg) in
/-- Nobody has anything to do, unless a stream is dropped or the connection fails. -/
def AtRest (s : Connection E M) : Prop :=
  ∀ action : ConnectionAction E, action.isForced = true → s.step cfg action = none

section Resting

variable {i : ℕ} {stream : PartitionStream E M}

section OpenStream

variable (h : AtRest cfg s) (hstream : s.streams[i]? = some stream) (hopen : stream.dropped = false)
include h hstream hopen

theorem AtRest.opened : stream.opened = true := by
  by_contra hnew
  have hnone := h (.poll i) rfl
  simp [step, stepStream, hstream, hnew, hopen] at hnone

theorem AtRest.queue : stream.queue = [] := by
  by_contra hne
  obtain ⟨msg, queue, hqueue⟩ := List.exists_cons_of_ne_nil hne
  have hnone := h (.take i) rfl
  simp [step, stepStream, takeFrom, hstream, h.opened hstream hopen, hopen, hqueue] at hnone

theorem AtRest.ended (hdone : s.phase = .done) : stream.ended = true := by
  by_contra hne
  have hnone := h (.finish i) rfl
  simp [step, stepStream, hstream, h.opened hstream hopen, h.queue hstream hopen, hopen, hne,
    hdone] at hnone

end OpenStream

theorem AtRest.done_of_dropped (h : AtRest cfg s)
    (hdropped : ∀ stream ∈ s.streams, stream.dropped = true) : s.phase = .done := by
  by_contra hne
  have hnone := h .abort rfl
  have hall : s.streams.all PartitionStream.dropped = true := List.all_eq_true.mpr hdropped
  simp only [step, stepReader, ne_eq, hne, hall] at hnone
  cases hnone

theorem AtRest.bufferedBytes (h : AtRest cfg s) (hmemory : Memory cfg s) :
    s.bufferedBytes cfg = 0 := by
  rw [Connection.bufferedBytes, sum_map_eq_zero_iff]
  intro stream hstream
  obtain ⟨i, hi⟩ := List.mem_iff_getElem?.mp hstream
  have hqueue : stream.queue = [] := by
    by_cases hdropped : stream.dropped = true
    · exact hmemory.dropped stream hstream hdropped
    · exact h.queue hi (Bool.eq_false_iff.mpr hdropped)
  simp [queuedBytes, hqueue]

/-- With a budget, the reader of a connection at rest has come to its end. -/
theorem AtRest.done (h : AtRest cfg s) (hmemory : Memory cfg s) (hgate : Gate cfg s)
    (hlife : Life s) (hbudget : 0 < cfg.bufferBudgetBytes) : s.phase = .done := by
  by_cases hdropped : ∀ stream ∈ s.streams, stream.dropped = true
  · exact h.done_of_dropped hdropped
  · have hcancelled : s.cancelled = false := by
      rw [Bool.eq_false_iff]
      exact fun hcancelled => hdropped (hlife.cancelled hcancelled)
    simp only [not_forall] at hdropped
    obtain ⟨stream, hmem, hopen⟩ := hdropped
    obtain ⟨i, hstream⟩ := List.mem_iff_getElem?.mp hmem
    cases hphase : s.phase with
    | done => rfl
    | waiting =>
      have hopened := h.opened hstream (Bool.eq_false_iff.mpr hopen)
      have hfirst := hlife.waiting hphase ⟨stream, hmem, hopened⟩
      have hnone := h .start rfl
      simp [step, stepReader, hphase, hfirst, hcancelled] at hnone
    | closing | connecting =>
      have hnone := h (.connect (.ok ())) rfl
      simp [step, stepReader, hphase] at hnone
    | gate =>
      have hnone := h .check rfl
      simp [step, stepReader, hphase] at hnone
      split at hnone <;> cases hnone
    | parked =>
      have hempty := h.bufferedBytes hmemory
      rw [← hmemory.reservation] at hempty
      rcases hgate.parked hphase with (hpermit | hpending) | hfull
      · have hnone := h .wake rfl
        simp [step, stepReader, hphase, hpermit, hcancelled] at hnone
      · have hnone := h .notify rfl
        simp [step] at hnone
        omega
      · omega
    | reading =>
      have hnext := h .next rfl
      have hlive : s.server.dropped = false := by
        rw [Bool.eq_false_iff]
        intro hgone
        have hdone := hlife.server hgone
        rw [hphase] at hdone
        cases hdone
      have hentry : s.server.emitted[s.taken]? = none := by
        cases hentry : s.server.emitted[s.taken]? with
        | none => rfl
        | some entry =>
          obtain ⟨j, msg⟩ := entry
          cases msg <;> simp [step, stepReader, readNext, mark, Except.map, hphase, hcancelled,
            hentry] at hnext
      have hopenEnd : s.server.ended = false := by
        rw [Bool.eq_false_iff]
        intro hended
        simp [step, stepReader, readNext, hphase, hcancelled, hentry, hended] at hnext
      have hconnected := hlife.connected (by simp [hphase])
      obtain ⟨action, moved, hdrop, hmoved⟩ :=
        SelectAll.exists_step (show 0 < recordBatchBufferSize by decide) hlive
      have hnone := h (.server action) rfl
      simp [step, stepServer, hconnected, hopenEnd, hdrop, hmoved] at hnone

end Resting

/-! ## What a stream has received -/

def bodies (msgs : List (WorkerMsg E M)) : List (Except E M) :=
  msgs.map (Except.map FlightData.body)

theorem bodies_mark (entries : List (ℕ × Except E M)) :
    bodies (entries.map (mark cfg)) = entries.map Prod.snd := by
  unfold bodies
  rw [List.map_map]
  apply List.map_congr_left
  rintro ⟨i, msg⟩ _
  cases msg <;> rfl

/-- The messages of one partition that the reader has taken are the first ones of its stream. -/
theorem Routing.taken_prefix (h : Routing cfg inner s) (hinput : inner[i]? = some input) :
    (s.takenFor i).map Prod.snd <+: input.items := by
  refine List.IsPrefix.trans ?_ (h.faithful i input hinput)
  exact ((List.take_prefix _ _).filter _).map _

/-- A stream that was not dropped, and the stream of the worker for its partition. -/
structure Feeds (s : Connection E M) (inner : List (InputStream (Except E M))) (i : ℕ)
    (input : InputStream (Except E M)) (stream : PartitionStream E M) : Prop where
  served : inner[i]? = some input
  opened : s.streams[i]? = some stream
  dropped : stream.dropped = false

theorem Feeds.mem (h : s.Feeds inner i input stream) : stream ∈ s.streams :=
  List.mem_of_getElem? h.opened

/-- What a stream has received and will receive from its queue: all that the reader has taken of
its partition, and the error. -/
theorem Routing.bodies_eq (h : Routing cfg inner s) (hfeeds : s.Feeds inner i input stream) :
    bodies (stream.received ++ stream.queue) =
      (s.takenFor i).map Prod.snd ++ s.failed.toList.map .error := by
  obtain ⟨rest, hrest, hqueue⟩ := h.streams i stream hfeeds.opened
  rw [← hqueue hfeeds.dropped, hrest, history, bodies, List.map_append, ← bodies, bodies_mark,
    List.map_map]
  rfl

variable (cfg) in
/-- The streams of a connection over the streams `inner` of the worker. -/
structure Demultiplexes (inner : List (InputStream (Except E M))) : Prop where
  /-- Without an error every stream that was not dropped gets the messages of its partition, in
  their order, and then ends. -/
  complete : ∀ s, (transitions cfg inner).Reachable s → AtRest cfg s → s.failed = none →
    ∀ i input stream, s.Feeds inner i input stream →
      bodies stream.received = input.items ∧ stream.ended = true
  /-- At no time, and whatever other streams were dropped, does a stream have anything else, or
  end before it has everything. -/
  undisturbed : ∀ s, (transitions cfg inner).Reachable s → s.failed = none →
    ∀ i input stream, s.Feeds inner i input stream →
      bodies (stream.received ++ stream.queue) <+: input.items ∧
        (stream.ended = true → bodies stream.received = input.items)
  /-- An error comes after all messages that the reader has taken of the partition, and is
  delivered. -/
  error : ∀ s, (transitions cfg inner).Reachable s → ∀ err, s.failed = some err →
    ∀ i input stream, s.Feeds inner i input stream →
      (s.takenFor i).map Prod.snd <+: input.items ∧
      bodies (stream.received ++ stream.queue) = (s.takenFor i).map Prod.snd ++ [.error err] ∧
      (AtRest cfg s → stream.queue = [] ∧ stream.ended = true)
  /-- The reservation is what the queues hold, and nothing when all streams are done. -/
  memory : ∀ s, (transitions cfg inner).Reachable s → s.reservation = s.bufferedBytes cfg ∧
    ((∀ stream ∈ s.streams, stream.ended = true ∨ stream.dropped = true) → s.reservation = 0)
  /-- When all streams are dropped the reader can end at once, and it does. -/
  reader : ∀ s, (transitions cfg inner).Reachable s →
    (∀ stream ∈ s.streams, stream.dropped = true) →
    (AtRest cfg s → s.phase = .done) ∧
      (s.phase ≠ .done → s.step cfg .abort = some { s with phase := .done })
  /-- Every schedule comes to rest. -/
  rests : ∀ run : (transitions cfg inner).Run, ∃ t, ∀ u ≥ t, run.action u = none

section results

variable {input : InputStream (Except E M)} {stream : PartitionStream E M}

/-- A stream whose reader is done has everything in its queue, unless there was an error. -/
theorem Routing.complete (h : Routing cfg inner s) (hlife : Life s) (hshape : Shape inner s)
    (hdone : s.phase = .done) (hnone : s.failed = none) (hfeeds : s.Feeds inner i input stream) :
    bodies (stream.received ++ stream.queue) = input.items := by
  rcases hlife.done hdone hnone with ⟨hended, hall⟩ | hdropped
  · rw [h.bodies_eq hfeeds, hnone, takenFor, hall, List.take_length,
      ← hshape.server.emittedBy_of_ended hended hfeeds.served]
    exact List.append_nil _
  · have hopen := hfeeds.dropped
    rw [hdropped stream hfeeds.mem] at hopen
    cases hopen

theorem undisturbed (hs : (transitions cfg inner).Reachable s) (hnone : s.failed = none)
    (hfeeds : s.Feeds inner i input stream) :
    bodies (stream.received ++ stream.queue) <+: input.items ∧
      (stream.ended = true → bodies stream.received = input.items) := by
  obtain ⟨hrouting, hlife⟩ := routing_of_reachable hs
  constructor
  · rw [hrouting.bodies_eq hfeeds, hnone]
    simpa using hrouting.taken_prefix hfeeds.served
  · intro hended
    obtain ⟨hqueue, hdone⟩ := hlife.ended stream hfeeds.mem hended
    have hall := hrouting.complete hlife (shape_of_reachable hs) hdone hnone hfeeds
    rwa [hqueue, List.append_nil] at hall

theorem error_delivered (hs : (transitions cfg inner).Reachable s) {err : E}
    (hfailed : s.failed = some err) (hfeeds : s.Feeds inner i input stream) :
    (s.takenFor i).map Prod.snd <+: input.items ∧
    bodies (stream.received ++ stream.queue) = (s.takenFor i).map Prod.snd ++ [.error err] ∧
    (AtRest cfg s → stream.queue = [] ∧ stream.ended = true) := by
  obtain ⟨hrouting, hlife⟩ := routing_of_reachable hs
  refine ⟨hrouting.taken_prefix hfeeds.served, ?_, fun hrest => ?_⟩
  · rw [hrouting.bodies_eq hfeeds, hfailed]
    rfl
  · have hdone := hlife.failed (by simp [hfailed])
    exact ⟨hrest.queue hfeeds.opened hfeeds.dropped,
      hrest.ended hfeeds.opened hfeeds.dropped hdone⟩

theorem reservation_released (hs : (transitions cfg inner).Reachable s)
    (hover : ∀ stream ∈ s.streams, stream.ended = true ∨ stream.dropped = true) :
    s.reservation = 0 := by
  obtain ⟨-, hlife⟩ := routing_of_reachable hs
  have hmemory := memory_of_reachable hs
  rw [hmemory.reservation, Connection.bufferedBytes, sum_map_eq_zero_iff]
  intro stream hstream
  have hqueue : stream.queue = [] :=
    (hover stream hstream).elim (fun h => (hlife.ended stream hstream h).1)
      (hmemory.dropped stream hstream)
  simp [queuedBytes, hqueue]

theorem step_abort (hdropped : ∀ stream ∈ s.streams, stream.dropped = true)
    (hphase : s.phase ≠ .done) : s.step cfg .abort = some { s with phase := .done } := by
  have hall : s.streams.all PartitionStream.dropped = true := List.all_eq_true.mpr hdropped
  simp only [step, stepReader, ne_eq, hphase, not_false_eq_true, hall, and_self, if_true]

end results

/-! ## Without a budget -/

/-- No stream is dropped and no error comes: the reader gets no further than the gate. -/
structure Stuck (s : Connection E M) : Prop where
  failed : s.failed = none
  cancelled : s.cancelled = false
  streams : ∀ stream ∈ s.streams, stream.dropped = false ∧ stream.ended = false
  phase : s.phase = .waiting ∨ s.phase = .connecting ∨ s.phase = .gate ∨ s.phase = .parked

theorem Stuck.moves (h : Stuck s) (hbudget : cfg.bufferBudgetBytes = 0) (hne : s.streams ≠ [])
    (hmoves : Moves cfg s action next) (hforced : action.isForced = true) : Stuck next := by
  have hphase := h.phase
  cases hmoves with
  | server | notify => exact ⟨h.failed, h.cancelled, h.streams, h.phase⟩
  | poll hstream | take hstream =>
    have hopen := h.streams _ (List.mem_of_getElem? hstream)
    exact ⟨h.failed, h.cancelled, forall_mem_set h.streams hopen, h.phase⟩
  | start | connected | park | wake => exact ⟨h.failed, h.cancelled, h.streams, by simp⟩
  | callback hstream hdropped _ =>
    have hopen := (h.streams _ (List.mem_of_getElem? hstream)).1
    rw [hdropped] at hopen
    cases hopen
  | abort _ hdropped =>
    obtain ⟨stream, rest, hcons⟩ := List.exists_cons_of_ne_nil hne
    have hmem : stream ∈ s.streams := hcons ▸ List.mem_cons_self
    have hopen := (h.streams stream hmem).1
    rw [hdropped stream hmem] at hopen
    cases hopen
  | pass _ hroom => omega
  | drop | refused | fail => cases hforced
  | cancelWaiting _ hcancelled | cancel _ hcancelled =>
    rw [h.cancelled] at hcancelled
    cases hcancelled
  | finish _ _ _ _ _ hother | closed hother | deliver hother | reject hother | readError hother
    | readEnd hother => simp [hother] at hphase

theorem stuck_new : Stuck (new inner : Connection E M) where
  failed := rfl
  cancelled := rfl
  streams := by simp [new]
  phase := .inl rfl

/-- With a budget of zero a connection can come to rest while the reader still waits. -/
theorem exists_stuck_atRest (hbudget : cfg.bufferBudgetBytes = 0) (hne : inner ≠ []) :
    ∃ s, (transitions cfg inner).Reachable s ∧ AtRest cfg s ∧ Stuck s := by
  let forced := (transitions cfg inner).restrict fun action => action.isForced = true
  have hdecreases : forced.Decreases work := fun s action next hs hstep =>
    decreases_work s action next hs.of_restrict hstep.1
  obtain ⟨s, hs, hrest⟩ := hdecreases.exists_rest (.init (s := new inner) rfl)
  have hstuck : Stuck s ∧ Shape inner s := by
    refine hs.invariant ?_ ?_
    · rintro s rfl
      exact ⟨stuck_new, shape_new⟩
    · intro s action next h hstep
      have hmoves := moves_of_step h.2 hstep.1
      refine ⟨h.1.moves hbudget ?_ hmoves hstep.2, h.2.moves hmoves⟩
      intro hempty
      apply hne
      rw [← List.length_eq_zero_iff, ← h.2.length, hempty]
      rfl
  refine ⟨s, hs.of_restrict, ?_, hstuck.1⟩
  intro action hforced
  cases hstep : s.step cfg action with
  | none => rfl
  | some next => exact absurd ⟨hstep, hforced⟩ (hrest action next)

/-- There the first stream has not ended, though nothing failed. -/
theorem exists_stuck_stream (hbudget : cfg.bufferBudgetBytes = 0)
    (input : InputStream (Except E M)) (rest : List (InputStream (Except E M))) :
    ∃ s stream, (transitions cfg (input :: rest)).Reachable s ∧ AtRest cfg s ∧
      s.failed = none ∧ s.Feeds (input :: rest) 0 input stream ∧ stream.ended = false := by
  obtain ⟨s, hs, hrest, hstuck⟩ := exists_stuck_atRest hbudget (List.cons_ne_nil input rest)
  have hlt : 0 < s.streams.length := by
    rw [(shape_of_reachable hs).length]
    exact Nat.succ_pos _
  have hopen := hstuck.streams _ (List.getElem_mem hlt)
  exact ⟨s, s.streams[0], hs, hrest, hstuck.failed,
    ⟨rfl, List.getElem?_eq_getElem hlt, hopen.1⟩, hopen.2⟩

end Connection

open Connection in
/-- The streams of a connection are exactly those of the worker, whatever the merge order, the
consumers and the drops, if and only if the connection has a budget or carries no partition. Only
that every stream comes to its end needs the budget. -/
theorem demultiplexing_iff {E M : Type} (cfg : ConnectionConfig E M)
    (inner : List (InputStream (Except E M))) :
    Demultiplexes cfg inner ↔ 0 < cfg.bufferBudgetBytes ∨ inner = [] := by
  constructor
  · intro h
    by_contra hnone
    rw [not_or] at hnone
    obtain ⟨input, rest, rfl⟩ := List.exists_cons_of_ne_nil hnone.2
    have hbudget : cfg.bufferBudgetBytes = 0 := by omega
    obtain ⟨s, stream, hs, hrest, hfailed, hfeeds, hopen⟩ :=
      exists_stuck_stream hbudget input rest
    have hended := (h.complete s hs hrest hfailed 0 input stream hfeeds).2
    rw [hopen] at hended
    cases hended
  · intro hbudget
    refine ⟨?_, fun s hs hnone i input stream => undisturbed hs hnone,
      fun s hs err hfailed i input stream => error_delivered hs hfailed,
      fun s hs => ⟨(memory_of_reachable hs).reservation, reservation_released hs⟩,
      fun s hs hdropped => ⟨fun hrest => hrest.done_of_dropped hdropped, step_abort hdropped⟩,
      decreases_work.eventually_idle⟩
    intro s hs hrest hnone i input stream hfeeds
    obtain ⟨hrouting, hlife⟩ := routing_of_reachable hs
    have hdone : s.phase = .done := by
      rcases hbudget with hpos | rfl
      · exact hrest.done (memory_of_reachable hs) (gate_of_reachable hs) hlife hpos
      · cases hfeeds.served
    have hall := hrouting.complete hlife (shape_of_reachable hs) hdone hnone hfeeds
    rw [hrest.queue hfeeds.opened hfeeds.dropped, List.append_nil] at hall
    exact ⟨hall, hrest.ended hfeeds.opened hfeeds.dropped hdone⟩

open Connection in
/-- Two partitions with a message each and no budget: the streams are polled, the connection is
made, nothing fails and nothing is dropped, and the first stream never ends. -/
theorem unbuffered_stream_never_ends :
    ∃ s stream,
      (transitions unbuffered [⟨[.ok 100], .finished⟩, ⟨[.ok 200], .finished⟩]).Reachable s ∧
      AtRest unbuffered s ∧ s.failed = none ∧
      s.Feeds [⟨[.ok 100], .finished⟩, ⟨[.ok 200], .finished⟩] 0 ⟨[.ok 100], .finished⟩ stream ∧
      stream.ended = false :=
  exists_stuck_stream rfl _ _

end DatafusionDistributed
