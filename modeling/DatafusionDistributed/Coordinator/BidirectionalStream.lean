import DatafusionDistributed.Coordinator.RegistryUpdates
import DatafusionDistributed.Events.Defaults.Routing

/-!
# The streams between the coordinator and a worker

`init_bidirectional_stream` routes one task. The route-task handlers dial workers, any number of
them and also at the same time, and return the response of a dial. Every dial opens a channel and
puts its sending end into a slot that all dials share; the sender that is returned with the response
is the one in the slot, that of the dial that was started last.
-/

namespace DatafusionDistributed

open Library

inductive DialStatus where
  | pending
  | connected
  | failed (err : DialError)

/-- One attempt to connect, with the channel it has opened towards the worker. -/
structure Dial where
  url : String
  channel : ℕ
  status : DialStatus

/-- The response of the dial; its stream is the answer of the worker that reads the channel. -/
def Dial.response (self : Dial) : RouteTaskEventResponse ℕ :=
  ⟨self.url, self.channel⟩

/-- What `init_bidirectional_stream` returns. -/
structure BidirectionalStream where
  url : String
  coordinatorToWorkerTx : ℕ
  workerToCoordinatorStream : ℕ
  deriving DecidableEq, Repr

/-- The errors of the handlers, and those of the coordinator itself. -/
inductive InitError where
  | routing (error : DialError)
  | coordinator (error : DataFusionError)

/-- The routing of one task. -/
structure RouteTask (ε S : Type) where
  /-- The handlers that have not deferred to the next one. -/
  handlers : ℕ
  /-- The dials in the order in which they were started. -/
  dials : List Dial
  /-- `coordinator_to_worker_tx_slot`. -/
  slot : Option ℕ
  registry : DynamicFilterRegistry ε S
  result : Option (Except InitError BidirectionalStream)

inductive RouteAction (ε S : Type) where
  /-- The current handler starts a dial. -/
  | dial (url : String) (channel : ℕ)
  | connected (i : ℕ)
  | failed (i : ℕ) (err : DialError)
  /-- The current handler returns `None`. -/
  | defers
  /-- The current handler returns the response of a dial. -/
  | returns (i : ℕ) (env : CallEnv)
  | returnsError (err : DialError)
  /-- No handler is left. -/
  | noResponse
  /-- The registry is called for another task. -/
  | registryCall (call : RegistryCall ε S) (env : CallEnv)

namespace RouteTask

variable {ε S : Type}

/-- The rest of `init_bidirectional_stream` when a handler has returned a response. -/
def finish (self : RouteTask ε S) (task : TaskKey) (env : CallEnv)
    (response : RouteTaskEventResponse ℕ) :
    Except InitError BidirectionalStream × DynamicFilterRegistry ε S :=
  match self.slot with
  | none => (.error (.coordinator (.internal "Missing coordinator_to_worker_tx")), self.registry)
  | some tx =>
    match self.registry.registerSender env task tx with
    | (.error e, registry) => (.error (.coordinator e), registry)
    | (.ok (), registry) => (.ok ⟨response.url, tx, response.workerToCoordinatorStream⟩, registry)

/-- The dial with a new status, if it is pending. -/
def settle (self : RouteTask ε S) (i : ℕ) (status : DialStatus) : Option (RouteTask ε S) :=
  match self.dials[i]? with
  | some ⟨url, channel, .pending⟩ =>
    some { self with dials := self.dials.set i ⟨url, channel, status⟩ }
  | _ => none

/-- While the handlers run, the slot holds the channel of the dial that was started last. -/
structure Valid (s : RouteTask ε S) : Prop where
  distinct : (s.dials.map Dial.channel).Nodup
  slot : s.result = none → s.slot = s.dials.getLast?.map Dial.channel

theorem Valid.settle {s next : RouteTask ε S} (h : s.Valid) {i : ℕ} {status : DialStatus}
    (hsettle : s.settle i status = some next) : next.Valid := by
  unfold RouteTask.settle at hsettle
  split at hsettle
  · rename_i url channel hdial
    cases hsettle
    have hchannels : (s.dials.set i ⟨url, channel, status⟩).map Dial.channel =
        s.dials.map Dial.channel := by
      obtain ⟨hlt, hget⟩ := List.getElem?_eq_some_iff.mp hdial
      have hset := @List.set_getElem_self _ (s.dials.map Dial.channel) i (by simpa using hlt)
      rw [List.getElem_map, hget] at hset
      rw [List.map_set, hset]
    constructor
    · rw [hchannels]
      exact h.distinct
    · intro hresult
      rw [← List.getLast?_map, hchannels, List.getLast?_map]
      exact h.slot hresult
  · cases hsettle

variable [PhysicalExprNodes ε] [DecidableEq ε] [DecidableEq S]

def tryStep (task : TaskKey) (self : RouteTask ε S) (a : RouteAction ε S) :
    Option (RouteTask ε S) :=
  if self.result.isSome then none
  else match a with
    | .dial url channel =>
      -- every dial opens a channel of its own
      if self.handlers = 0 ∨ channel ∈ self.dials.map Dial.channel then none
      else some { self with
        dials := self.dials ++ [⟨url, channel, .pending⟩]
        slot := some channel }
    | .connected i => self.settle i .connected
    | .failed i err => self.settle i (.failed err)
    | .defers =>
      if self.handlers = 0 then none else some { self with handlers := self.handlers - 1 }
    | .returns i env =>
      if self.handlers = 0 then none
      else match self.dials[i]? with
        | some ⟨url, channel, .connected⟩ =>
          let (result, registry) := self.finish task env (Dial.response ⟨url, channel, .connected⟩)
          some { self with slot := none, registry, result := some result }
        | _ => none
    | .returnsError err =>
      if self.handlers = 0 then none else some { self with result := some (.error (.routing err)) }
    | .noResponse =>
      if self.handlers ≠ 0 then none
      else some { self with
        result := some (.error (.coordinator (.internal
          "No RouteTaskHandler returned a response"))) }
    | .registryCall call env => some { self with registry := (self.registry.call env call).2 }

/-- Any chain of handlers, with any dials. -/
def system (ε S : Type) [PhysicalExprNodes ε] [DecidableEq ε] [DecidableEq S] (task : TaskKey) :
    Transition (RouteTask ε S) (RouteAction ε S) where
  init s := s.dials = [] ∧ s.slot = none ∧ s.result = none
  step s a next := s.tryStep task a = some next

variable {s next : RouteTask ε S} {task : TaskKey} {a : RouteAction ε S}

theorem Valid.step (h : s.Valid) (hstep : s.tryStep task a = some next) : next.Valid := by
  obtain ⟨-, hstep⟩ := Option.ite_none_left_eq_some.mp hstep
  cases a with
  | dial url channel =>
    obtain ⟨hfresh, hstep⟩ := Option.ite_none_left_eq_some.mp hstep
    rw [not_or] at hfresh
    cases hstep
    constructor
    · rw [List.map_append, List.nodup_append]
      refine ⟨h.distinct, List.nodup_singleton _, ?_⟩
      intro other hother last hlast heq
      obtain rfl := List.mem_singleton.mp hlast
      exact hfresh.2 (heq ▸ hother)
    · intro _
      rw [List.getLast?_append]
      rfl
  | connected i | failed i err => exact h.settle hstep
  | defers =>
    obtain ⟨-, hstep⟩ := Option.ite_none_left_eq_some.mp hstep
    cases hstep
    exact ⟨h.distinct, h.slot⟩
  | returns i env =>
    obtain ⟨-, hstep⟩ := Option.ite_none_left_eq_some.mp hstep
    split at hstep
    · cases hstep
      exact ⟨h.distinct, fun hresult => by cases hresult⟩
    · cases hstep
  | returnsError err | noResponse =>
    obtain ⟨-, hstep⟩ := Option.ite_none_left_eq_some.mp hstep
    cases hstep
    exact ⟨h.distinct, fun hresult => by cases hresult⟩
  | registryCall call env =>
    cases hstep
    exact ⟨h.distinct, h.slot⟩

theorem valid_of_reachable (h : (system ε S task).Reachable s) : s.Valid := by
  refine h.invariant (p := Valid) ?_ fun s a next hs hstep => hs.step hstep
  rintro s ⟨hdials, hslot, -⟩
  refine ⟨?_, fun _ => ?_⟩
  · rw [hdials]
    exact List.nodup_nil
  · rw [hdials, hslot]
    rfl

/-- The URL, both streams and the sender for dynamic filters come from one dial. -/
def FromOneDial (s : RouteTask ε S) (task : TaskKey) (stream : BidirectionalStream) : Prop :=
  ∃ dial ∈ s.dials, stream.url = dial.url ∧ stream.workerToCoordinatorStream = dial.channel ∧
    stream.coordinatorToWorkerTx = dial.channel ∧
    s.registry.taskSenders.lookup task = some dial.channel

/-- What is returned for the response of a dial: its URL and its stream, with the sender in the
slot, which is also the one that is registered. -/
theorem returns_ok {i : ℕ} {env : CallEnv} {stream : BidirectionalStream}
    (hstep : s.tryStep task (.returns i env) = some next)
    (hresult : next.result = some (.ok stream)) :
    ∃ dial, s.dials[i]? = some dial ∧ s.result = none ∧ next.dials = s.dials ∧
      stream.url = dial.url ∧ stream.workerToCoordinatorStream = dial.channel ∧
      s.slot = some stream.coordinatorToWorkerTx ∧
      next.registry.taskSenders.lookup task = some stream.coordinatorToWorkerTx := by
  obtain ⟨hnone, hstep⟩ := Option.ite_none_left_eq_some.mp hstep
  simp only at hstep
  obtain ⟨-, hstep⟩ := Option.ite_none_left_eq_some.mp hstep
  split at hstep
  · rename_i url channel hdial
    cases hstep
    refine ⟨_, hdial, by simpa using hnone, rfl, ?_⟩
    simp only [finish] at hresult ⊢
    cases hslot : s.slot with
    | none =>
      rw [hslot] at hresult
      cases hresult
    | some tx =>
      rw [hslot] at hresult
      simp only at hresult ⊢
      have hsenders : (s.registry.registerSender env task tx).2.taskSenders.lookup task =
          some tx := by
        rw [DynamicFilterRegistry.registerSender,
          DynamicFilterRegistry.taskSenders_dispatchAll]
        exact AList.lookup_insert _
      generalize s.registry.registerSender env task tx = registered at hresult hsenders
      obtain ⟨_ | _, registry⟩ := registered
      · cases hresult
      · cases hresult
        exact ⟨rfl, rfl, rfl, hsenders⟩
  · cases hstep

/-- What is returned comes from one dial if and only if the response is that of the dial that was
started last. -/
theorem stream_from_one_dial_iff (h : (system ε S task).Reachable s) (i : ℕ) (env : CallEnv)
    {stream : BidirectionalStream} (hstep : (system ε S task).step s (.returns i env) next)
    (hresult : next.result = some (.ok stream)) :
    next.FromOneDial task stream ↔ i + 1 = s.dials.length := by
  have hs := valid_of_reachable h
  obtain ⟨dial, hdial, hnone, hdials, hurl, hstream, hslot, hsender⟩ := returns_ok hstep hresult
  have hlast := (hs.slot hnone).symm.trans hslot
  obtain ⟨last, hlast, htx⟩ := Option.map_eq_some_iff.mp hlast
  rw [List.getLast?_eq_getElem?] at hlast
  have hi : i < s.dials.length := (List.getElem?_eq_some_iff.mp hdial).1
  constructor
  · rintro ⟨other, -, -, hother, hothertx, -⟩
    -- the channel of the response is that of the last dial, and no two dials share one
    have hsame : dial.channel = last.channel := by
      rw [← hstream, hother, ← hothertx, htx]
    have hchannels : (s.dials.map Dial.channel)[i]? =
        (s.dials.map Dial.channel)[s.dials.length - 1]? := by
      rw [List.getElem?_map, List.getElem?_map, hdial, hlast, Option.map_some, Option.map_some,
        hsame]
    have := (List.getElem?_inj (by simpa using hi) hs.distinct).mp hchannels
    omega
  · intro hlength
    have hsame : dial = last := by
      have hindex : s.dials.length - 1 = i := by omega
      rw [hindex, hdial] at hlast
      exact Option.some.inj hlast
    refine ⟨dial, ?_, hurl, hstream, ?_, ?_⟩
    · rw [hdials]
      exact List.mem_of_getElem? hdial
    · rw [← htx, hsame]
    · rw [hsender, ← htx, hsame]

instance : PhysicalExprNodes Unit where
  binaryExpr _ _ := ()

/-- Task 0 of stage 0, routed by one handler. -/
def start : RouteTask Unit Unit where
  handlers := 1
  dials := []
  slot := none
  registry := .new
  result := none

/-- The steps of a run from the start. -/
def runActions (actions : List (RouteAction Unit Unit)) : Option (RouteTask Unit Unit) :=
  actions.foldlM (tryStep ⟨0, 0⟩) start

theorem reachable_runActions (actions : List (RouteAction Unit Unit))
    {s : RouteTask Unit Unit} (hrun : runActions actions = some s) :
    (system Unit Unit ⟨0, 0⟩).Reachable s :=
  Transition.Reachable.foldlM (fun _ _ _ h => h) (.init ⟨rfl, rfl, rfl⟩) hrun

/-- A handler that dials until it succeeds gets streams that belong together. -/
theorem stream_from_one_dial_of_retry : ∃ s next : RouteTask Unit Unit,
    (system Unit Unit ⟨0, 0⟩).Reachable s ∧
      s.tryStep ⟨0, 0⟩ (.returns 1 s.registry.quietEnv) = some next ∧
      next.result = some (.ok ⟨"http://b", 1, 1⟩) ∧
      next.FromOneDial ⟨0, 0⟩ ⟨"http://b", 1, 1⟩ := by
  have hreachable := reachable_runActions [.dial "http://a" 0,
    .failed 0 (.internal ""), .dial "http://b" 1, .connected 1] rfl
  refine ⟨_, _, hreachable, rfl, rfl, ?_⟩
  exact (stream_from_one_dial_iff hreachable 1 start.registry.quietEnv rfl rfl).mpr rfl

/-- Two dials run at the same time and succeed; the handler returns the response of the first one,
and the sender of the second one is returned and registered with it. -/
theorem sender_of_another_dial : ∃ s next : RouteTask Unit Unit,
    (system Unit Unit ⟨0, 0⟩).Reachable s ∧
      s.tryStep ⟨0, 0⟩ (.returns 0 s.registry.quietEnv) = some next ∧
      next.result = some (.ok ⟨"http://a", 1, 0⟩) ∧
      next.registry.taskSenders.lookup ⟨0, 0⟩ = some 1 ∧
      ¬ next.FromOneDial ⟨0, 0⟩ ⟨"http://a", 1, 0⟩ := by
  have hreachable := reachable_runActions [.dial "http://a" 0, .dial "http://b" 1,
    .connected 0, .connected 1] rfl
  refine ⟨_, _, hreachable, rfl, rfl, rfl, ?_⟩
  rintro ⟨dial, -, -, hstream, hsender, -⟩
  exact absurd (hstream.trans hsender.symm) (by decide)

end RouteTask

end DatafusionDistributed
