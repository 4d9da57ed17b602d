import DatafusionDistributed.Protocol.SpawnSelectAll

/-!
# The client of `execute_task`

One connection to a worker carries the messages of a range of partitions. A background task, the
reader, takes them from the merged stream and puts each one into the queue of its partition. The
queues are unbounded; instead the reader waits at a gate while the bytes in the queues reach the
budget of the connection. A byte counts from the moment its message enters a queue until the
consumer takes it out or drops the stream, and each release is followed by a notification.

The model is the worker's `spawn_select_all`, what is in flight, the reader, the queues and the
streams of the consumers, in every interleaving. Entering a queue and growing the reservation are
one step, and so are leaving a queue and shrinking it; the notification of a release is a step of
its own, because the reader can look at the reservation in between.
-/

namespace DatafusionDistributed

open Library

def recordBatchBufferSize : ℕ := 2

structure FlightData (M : Type) where
  appMetadata : List UInt8
  body : M
  deriving DecidableEq, Repr

/-- The bytes of a `FlightAppMetadata`, of which only the partition matters here. -/
structure MetadataCodec where
  encode : ℕ → List UInt8
  decode : List UInt8 → Except String ℕ
  decode_encode : ∀ partition, decode (encode partition) = .ok partition

/-- What a connection is set up with. -/
structure ConnectionConfig (E M : Type) where
  targetPartitionStart : ℕ
  bufferBudgetBytes : ℕ
  encodedLen : FlightData M → ℕ
  metadata : MetadataCodec
  /-- `Status::internal`. -/
  internal : String → E

/-- What travels through a queue: a message with its reservation, or an error. -/
abbrev WorkerMsg (E M : Type) := Except E (FlightData M)

/-- The stream of one partition. -/
structure PartitionStream (E M : Type) where
  queue : List (WorkerMsg E M) := []
  received : List (WorkerMsg E M) := []
  opened : Bool := false
  ended : Bool := false
  dropped : Bool := false
  /-- The callback of the dropped stream has run. -/
  counted : Bool := false

/-- Where the reader is. -/
inductive DemuxPhase where
  /-- Waits for the first poll of a stream. -/
  | waiting
  /-- Waits for `execute_task`, only to have it cancelled on the worker. -/
  | closing
  /-- Waits for `execute_task`. -/
  | connecting
  /-- About to look at the reservation. -/
  | gate
  /-- Waits for memory to become available. -/
  | parked
  /-- Waits for the next message. -/
  | reading
  | done
  deriving DecidableEq, Repr

structure Connection (E M : Type) where
  server : SelectAll (Except E M)
  /-- `execute_task` has returned the merged stream. -/
  connected : Bool := false
  /-- How many messages of the merged stream the reader has taken; an error is none. -/
  taken : ℕ := 0
  phase : DemuxPhase := .waiting
  streams : List (PartitionStream E M)
  /-- `memory_reservation`. -/
  reservation : ℕ := 0
  /-- The permit of `mem_available_notify`. -/
  memAvailable : Bool := false
  /-- Releases whose notification is still to be sent. -/
  notifying : ℕ := 0
  /-- The permit of `first_poll_notify`. -/
  firstPoll : Bool := false
  notConsumedStreams : ℕ
  cancelled : Bool := false
  /-- The error that was sent to all streams. -/
  failed : Option E := none

inductive ConnectionAction (E : Type) where
  /-- A step of the worker. -/
  | server (action : SelectAction)
  | poll (i : ℕ)
  /-- A stream returns what is first in its queue. -/
  | take (i : ℕ)
  | finish (i : ℕ)
  | drop (i : ℕ)
  | callback (i : ℕ)
  /-- `notify_one` of a release. -/
  | notify
  /-- The reader has seen the first poll. -/
  | start
  | connect (result : Except E Unit)
  /-- The reader looks at the reservation. -/
  | check
  /-- The parked reader takes the permit. -/
  | wake
  /-- The reader takes the next message, or the end of the merged stream. -/
  | next
  /-- The connection fails while the reader waits for a message. -/
  | fail (err : E)
  /-- The reader sees the cancellation. -/
  | cancel
  /-- The last stream has dropped the `SpawnedTask`. -/
  | abort
  deriving DecidableEq, Repr

namespace PartitionStream

variable {E M : Type}

/-- `send`, which fails if the receiver is gone. -/
def send (self : PartitionStream E M) (msg : WorkerMsg E M) : PartitionStream E M :=
  if self.dropped then self else { self with queue := self.queue ++ [msg] }

section send

variable (self : PartitionStream E M) (msg : WorkerMsg E M)

@[simp] theorem opened_send : (self.send msg).opened = self.opened := by
  unfold send
  split <;> rfl

@[simp] theorem ended_send : (self.send msg).ended = self.ended := by
  unfold send
  split <;> rfl

@[simp] theorem dropped_send : (self.send msg).dropped = self.dropped := by
  unfold send
  split <;> rfl

@[simp] theorem counted_send : (self.send msg).counted = self.counted := by
  unfold send
  split <;> rfl

end send

end PartitionStream

namespace Connection

variable {E M : Type} (cfg : ConnectionConfig E M)

def msgBytes : WorkerMsg E M → ℕ
  | .ok data => cfg.encodedLen data
  | .error _ => 0

def queuedBytes (stream : PartitionStream E M) : ℕ :=
  (stream.queue.map (msgBytes cfg)).sum

def reservations (queue : List (WorkerMsg E M)) : ℕ :=
  queue.countP fun msg => msg.toOption.isSome

/-- A connection for one stream of the worker for each partition of the range. -/
def new (inner : List (InputStream (Except E M))) : Connection E M where
  server := .new inner
  streams := List.replicate inner.length {}
  notConsumedStreams := inner.length

/-- The message of the merged stream, marked with its partition. -/
def mark (entry : ℕ × Except E M) : WorkerMsg E M :=
  entry.2.map fun body => ⟨cfg.metadata.encode (cfg.targetPartitionStart + entry.1), body⟩

/-- `fanout`, after which the reader returns. -/
def fanout (self : Connection E M) (err : E) : Connection E M :=
  { self with
    phase := .done
    streams := self.streams.map (·.send (.error err))
    failed := some err }

/-- The text for a partition that is not one of the connection. -/
def unknownPartition (self : Connection E M) (partition : ℕ) : String :=
  s!"Received partition {partition} in Flight metadata, but available partitions are " ++
    s!"{cfg.targetPartitionStart}..{cfg.targetPartitionStart + self.streams.length}"

/-- The reader puts a message into the queue of its partition. The reservation of a message whose
stream is gone is released at once. -/
def deliver (self : Connection E M) (data : FlightData M) : Connection E M :=
  match cfg.metadata.decode data.appMetadata with
  | .error err => self.fanout (cfg.internal err)
  | .ok partition =>
    if partition < cfg.targetPartitionStart then
      self.fanout (cfg.internal (self.unknownPartition cfg partition))
    else
      let senderI := partition - cfg.targetPartitionStart
      match self.streams[senderI]? with
      | none => self.fanout (cfg.internal (self.unknownPartition cfg partition))
      | some stream =>
        if stream.dropped then { self with phase := .gate, notifying := self.notifying + 1 }
        else
          { self with
            phase := .gate
            streams := self.streams.set senderI (stream.send (.ok data))
            reservation := self.reservation + cfg.encodedLen data }

/-- The reader polls the merged stream. -/
def readNext (self : Connection E M) : Option (Connection E M) :=
  match self.server.emitted[self.taken]? with
  | some entry =>
    match mark cfg entry with
    | .ok data => some ({ self with taken := self.taken + 1 }.deliver cfg data)
    | .error err => some (self.fanout err)
  | none => if self.server.ended then some { self with phase := .done } else none

/-- A stream returns the first message of its queue; the reservation of the message is dropped
with the tuple it came in. -/
def takeFrom (self : Connection E M) (i : ℕ) (stream : PartitionStream E M) :
    Option (Connection E M) :=
  match stream.queue with
  | [] => none
  | msg :: queue =>
    let streams := self.streams.set i
      { stream with queue, received := stream.received ++ [msg] }
    some { self with
      streams
      reservation := self.reservation - msgBytes cfg msg
      notifying := self.notifying + reservations [msg] }

/-- The inner stream is dropped with its queue, and with its handle to the reader. -/
def dropStream (self : Connection E M) (i : ℕ) (stream : PartitionStream E M) : Connection E M :=
  { self with
    streams := self.streams.set i { stream with queue := [], dropped := true }
    reservation := self.reservation - queuedBytes cfg stream
    notifying := self.notifying + reservations stream.queue }

/-- The callback of `on_drop_stream`. -/
def countStream (self : Connection E M) (i : ℕ) (stream : PartitionStream E M) : Connection E M :=
  let remainingStreams := self.notConsumedStreams - 1
  { self with
    streams := self.streams.set i { stream with counted := true }
    notConsumedStreams := remainingStreams
    cancelled := self.cancelled || remainingStreams == 0 }

def stepStream (self : Connection E M) (i : ℕ) (stream : PartitionStream E M) :
    ConnectionAction E → Option (Connection E M)
  | .poll _ =>
    if stream.opened || stream.dropped then none
    else some { self with
      streams := self.streams.set i { stream with opened := true }
      firstPoll := true }
  | .take _ =>
    if stream.opened && !stream.dropped then takeFrom cfg self i stream else none
  | .finish _ =>
    if stream.opened && !stream.dropped && !stream.ended && stream.queue.isEmpty &&
        self.phase == .done then
      some { self with streams := self.streams.set i { stream with ended := true } }
    else none
  | .drop _ => if stream.dropped then none else some (dropStream cfg self i stream)
  | .callback _ =>
    if stream.dropped && !stream.counted then some (self.countStream i stream) else none
  | _ => none

/-- The steps of the reader. Where it waits in a `select!`, the cancellation comes first. -/
def stepReader (self : Connection E M) : ConnectionAction E → Option (Connection E M)
  | .start =>
    if self.phase = .waiting ∧ self.firstPoll ∧ !self.cancelled then
      some { self with phase := .connecting, firstPoll := false }
    else none
  | .connect result =>
    match self.phase, result with
    | .connecting, .ok () => some { self with phase := .gate, connected := true }
    | .connecting, .error err => some (self.fanout err)
    | .closing, _ => some { self with phase := .done }
    | _, _ => none
  | .check =>
    if self.phase = .gate then
      if cfg.bufferBudgetBytes ≤ self.reservation then some { self with phase := .parked }
      else some { self with phase := .reading }
    else none
  | .wake =>
    if self.phase = .parked ∧ self.memAvailable ∧ !self.cancelled then
      some { self with phase := .gate, memAvailable := false }
    else none
  | .next => if self.phase = .reading ∧ !self.cancelled then readNext cfg self else none
  | .fail err =>
    if self.phase = .reading ∧ !self.cancelled then some (self.fanout err) else none
  | .cancel =>
    if self.cancelled then
      match self.phase with
      | .waiting => some { self with phase := .closing }
      | .parked | .reading => some { self with phase := .done }
      | _ => none
    else none
  | .abort =>
    if self.phase ≠ .done ∧ self.streams.all PartitionStream.dropped then
      some { self with phase := .done }
    else none
  | _ => none

/-- A step of the worker, once it has the request. Its merged stream is dropped when the reader
has let go of it. -/
def stepServer (self : Connection E M) (action : SelectAction) : Option (Connection E M) :=
  if !self.connected || (action == .finish && self.server.ended) ||
      (action == .drop && (self.server.dropped || self.phase != .done)) then none
  else do
    let server ← self.server.step recordBatchBufferSize action
    return { self with server }

def step (self : Connection E M) (action : ConnectionAction E) : Option (Connection E M) :=
  match action with
  | .server action => self.stepServer action
  | .poll i | .take i | .finish i | .drop i | .callback i => do
    let stream ← self.streams[i]?
    stepStream cfg self i stream action
  | .notify =>
    if 0 < self.notifying then
      some { self with notifying := self.notifying - 1, memAvailable := true }
    else none
  | _ => stepReader cfg self action

/-- All interleavings of the worker, the reader and the consumers. -/
def transitions (inner : List (InputStream (Except E M))) :
    Transition (Connection E M) (ConnectionAction E) where
  init := fun s => s = new inner
  step := fun s action next => s.step cfg action = some next

/-! ## What a step can do -/

/-- What holds in every reachable state of the number of streams and of the worker. -/
structure Shape (inner : List (InputStream (Except E M))) (s : Connection E M) : Prop where
  length : s.streams.length = inner.length
  server : s.server.Inv inner

/-- The steps of a connection, with what they need and what they do. A message of the worker is
always for one of the streams. -/
inductive Moves (s : Connection E M) : ConnectionAction E → Connection E M → Prop
  | server {action : SelectAction} {server : SelectAll (Except E M)} : s.connected = true →
    (action = .finish → s.server.ended = false) →
    (action = .drop → s.server.dropped = false ∧ s.phase = .done) →
    s.server.step recordBatchBufferSize action = some server →
    Moves s (.server action) { s with server }
  | poll {i : ℕ} {stream : PartitionStream E M} : s.streams[i]? = some stream →
    stream.opened = false → stream.dropped = false →
    Moves s (.poll i)
      { s with streams := s.streams.set i { stream with opened := true }, firstPoll := true }
  | take {i : ℕ} {stream : PartitionStream E M} {msg : WorkerMsg E M}
      {queue : List (WorkerMsg E M)} : s.streams[i]? = some stream → stream.opened = true →
    stream.dropped = false → stream.queue = msg :: queue →
    Moves s (.take i)
      { s with
        streams := s.streams.set i { stream with queue, received := stream.received ++ [msg] }
        reservation := s.reservation - msgBytes cfg msg
        notifying := s.notifying + reservations [msg] }
  | finish {i : ℕ} {stream : PartitionStream E M} : s.streams[i]? = some stream →
    stream.opened = true → stream.dropped = false → stream.ended = false → stream.queue = [] →
    s.phase = .done →
    Moves s (.finish i) { s with streams := s.streams.set i { stream with ended := true } }
  | drop {i : ℕ} {stream : PartitionStream E M} : s.streams[i]? = some stream →
    stream.dropped = false → Moves s (.drop i) (dropStream cfg s i stream)
  | callback {i : ℕ} {stream : PartitionStream E M} : s.streams[i]? = some stream →
    stream.dropped = true → stream.counted = false → Moves s (.callback i) (s.countStream i stream)
  | notify : 0 < s.notifying →
    Moves s .notify { s with notifying := s.notifying - 1, memAvailable := true }
  | start : s.phase = .waiting → s.firstPoll = true → s.cancelled = false →
    Moves s .start { s with phase := .connecting, firstPoll := false }
  | connected : s.phase = .connecting →
    Moves s (.connect (.ok ())) { s with phase := .gate, connected := true }
  | refused {err : E} : s.phase = .connecting → Moves s (.connect (.error err)) (s.fanout err)
  | closed {result : Except E Unit} : s.phase = .closing →
    Moves s (.connect result) { s with phase := .done }
  | park : s.phase = .gate → cfg.bufferBudgetBytes ≤ s.reservation →
    Moves s .check { s with phase := .parked }
  | pass : s.phase = .gate → s.reservation < cfg.bufferBudgetBytes →
    Moves s .check { s with phase := .reading }
  | wake : s.phase = .parked → s.memAvailable = true → s.cancelled = false →
    Moves s .wake { s with phase := .gate, memAvailable := false }
  | deliver {i : ℕ} {body : M} {stream : PartitionStream E M} : s.phase = .reading →
    s.cancelled = false → s.server.emitted[s.taken]? = some (i, .ok body) →
    s.streams[i]? = some stream → stream.dropped = false →
    Moves s .next
      { s with
        taken := s.taken + 1
        phase := .gate
        streams := s.streams.set i
          { stream with queue := stream.queue ++ [mark cfg (i, .ok body)] }
        reservation := s.reservation + msgBytes cfg (mark cfg (i, .ok body)) }
  | reject {i : ℕ} {body : M} {stream : PartitionStream E M} : s.phase = .reading →
    s.cancelled = false → s.server.emitted[s.taken]? = some (i, .ok body) →
    s.streams[i]? = some stream → stream.dropped = true →
    Moves s .next
      { s with taken := s.taken + 1, phase := .gate, notifying := s.notifying + 1 }
  | readError {i : ℕ} {err : E} : s.phase = .reading → s.cancelled = false →
    s.server.emitted[s.taken]? = some (i, .error err) → Moves s .next (s.fanout err)
  | readEnd : s.phase = .reading → s.cancelled = false →
    s.server.emitted[s.taken]? = none → s.server.ended = true →
    Moves s .next { s with phase := .done }
  | fail {err : E} : s.phase = .reading → s.cancelled = false → Moves s (.fail err) (s.fanout err)
  | cancelWaiting : s.phase = .waiting → s.cancelled = true →
    Moves s .cancel { s with phase := .closing }
  | cancel : s.phase = .parked ∨ s.phase = .reading → s.cancelled = true →
    Moves s .cancel { s with phase := .done }
  | abort : s.phase ≠ .done → (∀ stream ∈ s.streams, stream.dropped = true) →
    Moves s .abort { s with phase := .done }

variable {cfg} {inner : List (InputStream (Except E M))} {s next : Connection E M}

/-- The mark of a message leads back to the stream of the task that it came from. -/
theorem deliver_mark {i : ℕ} {body : M} {stream : PartitionStream E M}
    (hstream : s.streams[i]? = some stream) {data : FlightData M}
    (hdata : mark cfg (i, .ok body) = .ok data) :
    s.deliver cfg data =
      if stream.dropped then { s with phase := .gate, notifying := s.notifying + 1 }
      else { s with
        phase := .gate
        streams := s.streams.set i { stream with queue := stream.queue ++ [.ok data] }
        reservation := s.reservation + msgBytes cfg (.ok data) } := by
  cases hdata
  unfold deliver
  simp only [cfg.metadata.decode_encode]
  rw [if_neg (by omega)]
  simp only [Nat.add_sub_cancel_left, hstream]
  split
  · rfl
  · rename_i hopen
    simp only [PartitionStream.send, hopen]
    rfl

theorem moves_of_readNext (hshape : Shape inner s) (hphase : s.phase = .reading)
    (hcancelled : s.cancelled = false) (h : readNext cfg s = some next) :
    Moves cfg s .next next := by
  unfold readNext at h
  split at h
  · rename_i entry hentry
    obtain ⟨i, msg⟩ := entry
    cases msg with
    | error err =>
      cases h
      exact .readError hphase hcancelled hentry
    | ok body =>
      have hlt : i < s.streams.length := by
        rw [hshape.length]
        exact hshape.server.sources _ (List.mem_of_getElem? hentry)
      have hstream := List.getElem?_eq_getElem hlt
      have hdeliver := @deliver_mark E M cfg { s with taken := s.taken + 1 } i body _ hstream _ rfl
      change some (Connection.deliver cfg { s with taken := s.taken + 1 } _) = some next at h
      rw [hdeliver] at h
      split at h
      · rename_i hdropped
        cases h
        exact .reject hphase hcancelled hentry hstream hdropped
      · rename_i hopen
        cases h
        exact .deliver hphase hcancelled hentry hstream (Bool.eq_false_iff.mpr hopen)
  · rename_i hentry
    obtain ⟨hended, h⟩ := Option.ite_none_right_eq_some.mp h
    cases h
    exact .readEnd hphase hcancelled hentry hended

variable {action : ConnectionAction E}

theorem moves_of_stepStream {i : ℕ} {stream : PartitionStream E M}
    (hstream : s.streams[i]? = some stream)
    (haction : action ∈ [.poll i, .take i, .finish i, .drop i, .callback i])
    (h : stepStream cfg s i stream action = some next) : Moves cfg s action next := by
  simp only [List.mem_cons, List.not_mem_nil, or_false] at haction
  rcases haction with rfl | rfl | rfl | rfl | rfl
    <;> simp only [stepStream, Option.ite_none_left_eq_some, Option.ite_none_right_eq_some,
      Bool.or_eq_true, not_or, Bool.and_eq_true, Bool.not_eq_true, Bool.not_eq_true',
      List.isEmpty_iff, beq_iff_eq, Option.some.injEq] at h
  · obtain ⟨⟨hnew, hopen⟩, rfl⟩ := h
    exact .poll hstream hnew hopen
  · obtain ⟨⟨hopened, hopen⟩, h⟩ := h
    unfold takeFrom at h
    split at h
    · cases h
    · rename_i msg queue hqueue
      cases h
      exact .take hstream hopened hopen hqueue
  · obtain ⟨⟨⟨⟨⟨hopened, hopen⟩, hended⟩, hqueue⟩, hdone⟩, rfl⟩ := h
    exact .finish hstream hopened hopen hended hqueue hdone
  · obtain ⟨hopen, rfl⟩ := h
    exact .drop hstream hopen
  · obtain ⟨⟨hdropped, hcounted⟩, rfl⟩ := h
    exact .callback hstream hdropped hcounted

theorem moves_of_stepReader (hshape : Shape inner s) (h : stepReader cfg s action = some next) :
    Moves cfg s action next := by
  cases action with
  | start =>
    simp only [stepReader, Bool.not_eq_true'] at h
    obtain ⟨⟨hphase, hfirst, hlive⟩, h⟩ := Option.ite_none_right_eq_some.mp h
    cases h
    exact .start hphase hfirst hlive
  | connect result =>
    unfold stepReader at h
    cases hphase : s.phase <;> simp only [hphase] at h
    case closing =>
      cases h
      exact .closed hphase
    case connecting =>
      rcases result with err | ⟨⟨⟩⟩
      · cases h
        exact .refused hphase
      · cases h
        exact .connected hphase
    all_goals cases h
  | check =>
    obtain ⟨hphase, h⟩ := Option.ite_none_right_eq_some.mp h
    split at h
    · rename_i hfull
      cases h
      exact .park hphase hfull
    · cases h
      exact .pass hphase (by omega)
  | wake =>
    simp only [stepReader, Bool.not_eq_true'] at h
    obtain ⟨⟨hphase, hpermit, hlive⟩, h⟩ := Option.ite_none_right_eq_some.mp h
    cases h
    exact .wake hphase hpermit hlive
  | next =>
    simp only [stepReader, Bool.not_eq_true'] at h
    obtain ⟨⟨hphase, hlive⟩, h⟩ := Option.ite_none_right_eq_some.mp h
    exact moves_of_readNext hshape hphase hlive h
  | fail err =>
    simp only [stepReader, Bool.not_eq_true'] at h
    obtain ⟨⟨hphase, hlive⟩, h⟩ := Option.ite_none_right_eq_some.mp h
    cases h
    exact .fail hphase hlive
  | cancel =>
    obtain ⟨hcancelled, h⟩ := Option.ite_none_right_eq_some.mp h
    cases hphase : s.phase <;> simp only [hphase] at h
    case waiting =>
      cases h
      exact .cancelWaiting hphase hcancelled
    case parked =>
      cases h
      exact .cancel (.inl hphase) hcancelled
    case reading =>
      cases h
      exact .cancel (.inr hphase) hcancelled
    all_goals cases h
  | abort =>
    simp only [stepReader, List.all_eq_true] at h
    obtain ⟨⟨hphase, hdropped⟩, h⟩ := Option.ite_none_right_eq_some.mp h
    cases h
    exact .abort hphase hdropped
  | _ => cases h

/-- The inversion of `step`. -/
theorem moves_of_step (hshape : Shape inner s) (h : s.step cfg action = some next) :
    Moves cfg s action next := by
  cases action with
  | server action =>
    obtain ⟨hready, h⟩ := Option.ite_none_left_eq_some.mp h
    simp only [Bool.or_eq_true, Bool.and_eq_true, Bool.not_eq_true', beq_iff_eq, bne_iff_ne, not_or,
      not_and, Bool.not_eq_false, Bool.not_eq_true, not_not] at hready
    obtain ⟨server, hserver, h⟩ := Option.bind_eq_some_iff.mp h
    cases h
    exact .server hready.1.1 hready.1.2 hready.2 hserver
  | poll i | take i | finish i | drop i | callback i =>
    obtain ⟨stream, hstream, h⟩ := Option.bind_eq_some_iff.mp h
    exact moves_of_stepStream hstream (by simp) h
  | notify =>
    obtain ⟨hpending, h⟩ := Option.ite_none_right_eq_some.mp h
    cases h
    exact .notify hpending
  | _ => exact moves_of_stepReader hshape h

theorem Shape.moves (h : Shape inner s) (hmoves : Moves cfg s action next) : Shape inner next := by
  cases hmoves with
  | server _ _ _ hserver => exact ⟨h.length, h.server.step hserver⟩
  | poll | take | finish | drop | callback | deliver =>
    exact ⟨List.length_set.trans h.length, h.server⟩
  | refused | readError | fail => exact ⟨(List.length_map _).trans h.length, h.server⟩
  | notify | start | connected | closed | park | pass | wake | reject | readEnd | cancelWaiting
    | cancel | abort => exact ⟨h.length, h.server⟩

theorem shape_new : Shape inner (new inner) :=
  ⟨List.length_replicate, SelectAll.new_inv inner⟩

/-- What holds at the start and survives every move holds in every reachable state. -/
theorem invariant_of_moves {p : Connection E M → Prop} (hinit : p (new inner))
    (hstep : ∀ s action next, Shape inner s → p s → Moves cfg s action next → p next)
    (h : (transitions cfg inner).Reachable s) : Shape inner s ∧ p s := by
  refine h.invariant ?_ ?_
  · rintro s rfl
    exact ⟨shape_new, hinit⟩
  · intro s action next hs hnext
    have hmoves := moves_of_step hs.1 hnext
    exact ⟨hs.1.moves hmoves, hstep s action next hs.1 hs.2 hmoves⟩

theorem shape_of_reachable (h : (transitions cfg inner).Reachable s) : Shape inner s :=
  (invariant_of_moves (p := fun _ => True) trivial (fun _ _ _ _ _ _ => trivial) h).1

end Connection

end DatafusionDistributed
