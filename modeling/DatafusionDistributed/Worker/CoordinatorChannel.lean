import DatafusionDistributed.Worker.SingleWriteMultiRead

/-!
# Coordinator channels that set up one task

`Worker::coordinator_channel` for one task key: each call reserves a generation of the slot, writes
the outcome of its setup into it, and seals the slot with an error once its channel has closed and
the slot still holds what it wrote. Calls for the same task overlap when the coordinator retries.

A seal also stops the writes of a later call that has already reserved the slot, so a retry on the
same worker fails when the channel of the first attempt closes at the wrong moment:
`latest_setup_accepted_iff` says exactly when.
-/

namespace DatafusionDistributed

open Library

/-- The errors a slot can hold. Each is behind an `Arc` of the setup that made it. -/
inductive TaskDataError where
  | setupFailed (setup : ℕ)
  /-- `"Coordinator channel closed for task {key:?}"`. -/
  | channelClosed (setup : ℕ)
  deriving DecidableEq, Repr

/-- `ResultTaskData`: a `TaskData` is known by its `final_plan`, which each setup makes afresh. -/
abbrev ResultTaskData := Except TaskDataError ℕ

/-- The setup whose `final_plan` or error this is. -/
def ResultTaskData.setup : ResultTaskData → ℕ
  | .ok setup | .error (.setupFailed setup) | .error (.channelClosed setup) => setup

/-- What a setup writes, unlike what it seals the slot with. -/
def ResultTaskData.isSetupResult : ResultTaskData → Bool
  | .ok _ | .error (.setupFailed _) => true
  | .error (.channelClosed _) => false

def setupResult (setup : ℕ) (succeeds : Bool) : ResultTaskData :=
  if succeeds then .ok setup else .error (.setupFailed setup)

/-- Where a call of `coordinator_channel` stands. -/
inductive SetupPhase where
  /-- It has taken the entry out of the cache. -/
  | arrived
  /-- Its `PendingWriteGuard` holds the generation. -/
  | pending (generation : WriteGeneration)
  /-- Its write was accepted, and it reads its channel. -/
  | serving (written : ResultTaskData)
  /-- It has sealed the slot and is about to drop the entry from the cache. -/
  | invalidating
  | finished
  deriving DecidableEq

/-- The calls for one task key that share one entry of `task_data_entries`. -/
structure CoordinatorChannels where
  entry : SlotSystem ResultTaskData
  cached : Bool
  setups : ℕ → Option SetupPhase

inductive ChannelAction where
  /-- `task_data_entries.get_with`. -/
  | getEntry (setup : ℕ)
  | reserveWrite (setup : ℕ)
  /-- `PendingWriteGuard::write`, after the session was built. -/
  | write (setup : ℕ) (succeeds : Bool)
  /-- The session could not be built: the error is written, and the call returns. -/
  | sessionFailed (setup : ℕ)
  /-- The call or its spawned task is dropped with its `PendingWriteGuard`. -/
  | dropGuard (setup : ℕ)
  | channelCloses (setup : ℕ)
  | invalidate (setup : ℕ)
  /-- The cache drops an idle entry. -/
  | evict
  | read (reader : ℕ)
  | readNow (reader : ℕ)
  | writerArrived (reader : ℕ)
  | timeOut (reader : ℕ)
  | observe (reader : ℕ)

namespace CoordinatorChannels

def new : CoordinatorChannels where
  entry := .new
  cached := true
  setups := fun _ => none

/-- The setup goes on to a phase while the entry takes a step. -/
def advance (self : CoordinatorChannels) (setup : ℕ) (phase : SetupPhase)
    (a : SlotAction ResultTaskData) : Option CoordinatorChannels :=
  (self.entry.tryStep a).map fun entry =>
    { self with entry, setups := Function.update self.setups setup (some phase) }

def reading (self : CoordinatorChannels) (a : SlotAction ResultTaskData) :
    Option CoordinatorChannels :=
  (self.entry.tryStep a).map fun entry => { self with entry }

/-- The phase after the write: `Ok(false)` and `Err` both end the setup. -/
def afterWrite (written : ResultTaskData) : Except SingleWriteMultiReadError Bool → SetupPhase
  | .ok true => .serving written
  | .ok false | .error _ => .finished

/-- The error with which a setup seals the slot when its channel has closed. -/
def closedError (setup : ℕ) : ResultTaskData :=
  .error (.channelClosed setup)

def tryStep (self : CoordinatorChannels) : ChannelAction → Option CoordinatorChannels
  | .getEntry setup =>
    if self.cached = true ∧ self.setups setup = none then
      some { self with setups := Function.update self.setups setup (some .arrived) }
    else none
  | .reserveWrite setup =>
    if self.setups setup = some .arrived then
      self.advance setup (.pending self.entry.slot.reserveWrite.1) .reserveWrite
    else none
  | .write setup succeeds =>
    match self.setups setup with
    | some (.pending generation) =>
      let written := setupResult setup succeeds
      let outcome := (self.entry.slot.writeGeneration generation written).1
      self.advance setup (afterWrite written outcome) (.writeGeneration generation written)
    | _ => none
  | .sessionFailed setup =>
    match self.setups setup with
    | some (.pending generation) =>
      self.advance setup .finished (.writeGeneration generation (setupResult setup false))
    | _ => none
  | .dropGuard setup =>
    match self.setups setup with
    | some (.pending generation) => self.advance setup .finished (.abandonGeneration generation)
    | _ => none
  | .channelCloses setup =>
    match self.setups setup with
    | some (.serving written) =>
      -- `Arc::ptr_eq` on the `final_plan`, or on the error, of this setup
      let isOwn := fun current => decide (current = written)
      let sealed := (self.entry.slot.sealWithValueIf isOwn (closedError setup)).1
      self.advance setup (if sealed then .invalidating else .finished)
        (.sealWithValueIf isOwn (closedError setup))
    | _ => none
  | .invalidate setup =>
    if self.setups setup = some .invalidating then
      some { self with
        cached := false
        setups := Function.update self.setups setup (some .finished) }
    else none
  | .evict => some { self with cached := false }
  | .read reader => self.reading (.read reader)
  | .readNow reader => self.reading (.readNow reader)
  | .writerArrived reader => self.reading (.writerArrived reader)
  | .timeOut reader => self.reading (.timeOut reader)
  | .observe reader => self.reading (.observe reader)

def system : Transition CoordinatorChannels ChannelAction where
  init s := s = new
  step s a next := s.tryStep a = some next

def Unread (self : CoordinatorChannels) : Prop :=
  ∀ reader, self.entry.readers reader = none

/-- A seal replaces what its own setup has written. -/
def SealsOwn (earlier : List (SlotEvent ResultTaskData)) (event : SlotEvent ResultTaskData) :
    Prop :=
  event.seals = true → ∃ written, earlier.findSome? SlotEvent.stored? = some written ∧
    ResultTaskData.isSetupResult written = true ∧
    event.stored? = some (closedError (ResultTaskData.setup written))

/-- What holds in every state of the calls and their entry. -/
structure Valid (s : CoordinatorChannels) : Prop where
  reachable : (SlotSystem.system ResultTaskData).Reachable s.entry
  own : ∀ setup written, s.setups setup = some (.serving written) →
    ResultTaskData.setup written = setup ∧ ResultTaskData.isSetupResult written = true
  sealsOwn : Logged SealsOwn s.entry.history

theorem valid_new : new.Valid where
  reachable := .init rfl
  own _ _ h := by cases h
  sealsOwn := Logged.nil

variable {a : SlotAction ResultTaskData} {written : ResultTaskData}

/-- Only a call of `seal_with_value_if` logs a seal. -/
theorem logged_of_tryStep {entry next : SlotSystem ResultTaskData} (h : entry.tryStep a = some next)
    (hseal : ∀ predicate item, a ≠ .sealWithValueIf predicate item)
    (hlogged : Logged SealsOwn entry.history) : Logged SealsOwn next.history := by
  have hcons : ∀ event : SlotEvent ResultTaskData, event.seals = false →
      Logged SealsOwn (event :: entry.history) := by
    intro event hevent
    exact ⟨fun h => Bool.noConfusion (hevent.symm.trans h), hlogged⟩
  cases SlotSystem.effect_of_tryStep h with
  | reserved => exact hcons _ rfl
  | wrote generation item _ | readValue _ reader value _ _ => exact hcons _ rfl
  | sealing predicate item => exact absurd rfl (hseal predicate item)
  | quiet _ _ hhistory => rwa [hhistory]
  | readNothing _ reader error _ => exact hcons _ rfl

namespace Valid

variable {s next : CoordinatorChannels}

variable {setup : ℕ} {phase : SetupPhase}

/-- A setup that has moved on serves its own result, if it serves one. -/
theorem own_update (hs : s.Valid) (hphase : ∀ written, phase = .serving written →
      ResultTaskData.setup written = setup ∧ ResultTaskData.isSetupResult written = true)
    (other : ℕ) (written : ResultTaskData)
    (h : Function.update s.setups setup (some phase) other = some (.serving written)) :
    ResultTaskData.setup written = other ∧ ResultTaskData.isSetupResult written = true := by
  by_cases hother : other = setup
  · subst hother
    rw [Function.update_self] at h
    exact hphase written (Option.some.inj h)
  · rw [Function.update_of_ne hother] at h
    exact hs.own other written h

theorem moved (hs : s.Valid) (cached : Bool) (hphase : ∀ written, phase ≠ .serving written) :
    Valid { s with cached, setups := Function.update s.setups setup (some phase) } where
  reachable := hs.reachable
  own := hs.own_update fun written h => absurd h (hphase written)
  sealsOwn := hs.sealsOwn

/-- The entry takes a step that is no seal. -/
theorem advanced (hs : s.Valid) (hphase : ∀ written, phase = .serving written →
      ResultTaskData.setup written = setup ∧ ResultTaskData.isSetupResult written = true)
    (hseal : ∀ predicate item, a ≠ .sealWithValueIf predicate item)
    (h : s.advance setup phase a = some next) : next.Valid := by
  obtain ⟨entry, hentry, rfl⟩ := Option.map_eq_some_iff.mp h
  exact {
    reachable := .step hs.reachable hentry
    own := hs.own_update hphase
    sealsOwn := logged_of_tryStep hentry hseal hs.sealsOwn }

theorem read (hs : s.Valid) (hseal : ∀ predicate item, a ≠ .sealWithValueIf predicate item)
    (h : s.reading a = some next) : next.Valid := by
  obtain ⟨entry, hentry, rfl⟩ := Option.map_eq_some_iff.mp h
  exact {
    reachable := .step hs.reachable hentry
    own := hs.own
    sealsOwn := logged_of_tryStep hentry hseal hs.sealsOwn }

/-- The channel of a setup closes. -/
theorem closes (hs : s.Valid) (hserving : s.setups setup = some (.serving written))
    (hphase : ∀ written, phase ≠ .serving written) (h : s.advance setup phase
      (.sealWithValueIf (fun current => decide (current = written)) (closedError setup)) =
        some next) : next.Valid := by
  obtain ⟨entry, hentry, rfl⟩ := Option.map_eq_some_iff.mp h
  refine {
    reachable := .step hs.reachable hentry
    own := hs.own_update fun written h => absurd h (hphase written)
    sealsOwn := ?_ }
  cases hentry
  refine ⟨?_, hs.sealsOwn⟩
  intro hsealed
  obtain ⟨⟨current, hslot, hcurrent⟩, -⟩ := SingleWriteMultiRead.sealWithValueIf_sealed hsealed
  obtain rfl := of_decide_eq_true hcurrent
  obtain ⟨hsetup, hresult⟩ := hs.own setup current hserving
  refine ⟨current, ?_, hresult, ?_⟩
  · rw [← (SlotSystem.valid_of_reachable hs.reachable).stored, hslot]
    rfl
  · rw [hsetup]
    simp only [SlotEvent.seals] at hsealed
    simp only [hsealed, SlotEvent.stored?]

theorem afterWrite_own {succeeds : Bool} {outcome : Except SingleWriteMultiReadError Bool}
    (h : afterWrite (setupResult setup succeeds) outcome = .serving written) :
    ResultTaskData.setup written = setup ∧ ResultTaskData.isSetupResult written = true := by
  unfold afterWrite at h
  split at h
  · cases h
    exact ⟨by cases succeeds <;> rfl, by cases succeeds <;> rfl⟩
  all_goals cases h

theorem tryStep (hs : s.Valid) {a : ChannelAction} (h : s.tryStep a = some next) :
    next.Valid := by
  cases a with
  | getEntry setup =>
    obtain ⟨-, h⟩ := Option.ite_none_right_eq_some.mp h
    cases h
    exact hs.moved s.cached (by simp)
  | reserveWrite setup =>
    obtain ⟨-, h⟩ := Option.ite_none_right_eq_some.mp h
    exact hs.advanced (by simp) (by simp) h
  | write setup succeeds =>
    simp only [CoordinatorChannels.tryStep] at h
    split at h
    · exact hs.advanced (fun _ => afterWrite_own) (by simp) h
    · cases h
  | sessionFailed setup | dropGuard setup =>
    simp only [CoordinatorChannels.tryStep] at h
    split at h
    · exact hs.advanced (by simp) (by simp) h
    · cases h
  | channelCloses setup =>
    simp only [CoordinatorChannels.tryStep] at h
    split at h
    · rename_i hserving
      refine hs.closes hserving ?_ h
      split <;> simp
    · cases h
  | invalidate setup =>
    obtain ⟨-, h⟩ := Option.ite_none_right_eq_some.mp h
    cases h
    exact hs.moved false (by simp)
  | evict =>
    cases h
    exact { reachable := hs.reachable, own := hs.own, sealsOwn := hs.sealsOwn }
  | read reader | readNow reader | writerArrived reader => exact hs.read (by simp) h
  | timeOut reader | observe reader => exact hs.read (by simp) h

end Valid

theorem valid_of_reachable {s : CoordinatorChannels} (h : system.Reachable s) : s.Valid :=
  h.invariant (fun _ hs => hs ▸ valid_new) fun _ _ _ hs hstep => hs.tryStep hstep

/-- Until the next accepted write, the slot holds what was written last, or the error with which
the setup that wrote it has sealed it. -/
theorem stored_after_write {later earlier : List (SlotEvent ResultTaskData)}
    {generation : WriteGeneration}
    (hlogged : Logged SealsOwn (later ++ .wrote generation written (.ok true) :: earlier))
    (hlater : ∀ event ∈ later, ∀ g item, event ≠ .wrote g item (.ok true)) :
    (later ++ .wrote generation written (.ok true) :: earlier).findSome? SlotEvent.stored? =
        some written ∨
      (later ++ .wrote generation written (.ok true) :: earlier).findSome? SlotEvent.stored? =
          some (closedError (ResultTaskData.setup written)) ∧
        .sealing (closedError (ResultTaskData.setup written)) true ∈ later := by
  induction later with
  | nil => exact Or.inl rfl
  | cons event later ih =>
    have ih := ih hlogged.2 fun e he => hlater e (List.mem_cons_of_mem _ he)
    by_cases hstored : event.stored? = none
    · rw [List.cons_append, List.findSome?_cons, hstored]
      exact ih.imp id fun h => ⟨h.1, List.mem_cons_of_mem _ h.2⟩
    · -- the event stores a value and is no write, so it is a seal by the setup that wrote
      obtain ⟨item, rfl⟩ : ∃ item, event = .sealing item true := by
        cases event with
        | wrote g item outcome =>
          rcases outcome with error | _ | _
          · exact absurd rfl hstored
          · exact absurd rfl hstored
          · exact absurd rfl (hlater _ List.mem_cons_self g item)
        | sealing item replaced =>
          cases replaced with
          | false => exact absurd rfl hstored
          | true => exact ⟨item, rfl⟩
        | reserved g | readValue reader value | readNothing reader error => exact absurd rfl hstored
      obtain ⟨own, hown, hresult, hitem⟩ := hlogged.1 rfl
      have hitem : item = closedError (ResultTaskData.setup own) := Option.some.inj hitem
      rcases ih with h | ⟨h, -⟩
      · obtain rfl : own = written := Option.some.inj (hown.symm.trans h)
        subst hitem
        exact Or.inr ⟨rfl, List.mem_cons_self⟩
      · obtain rfl := Option.some.inj (hown.symm.trans h)
        cases hresult

/-- A setup with the latest generation of an unread slot has its write accepted exactly if no
channel has closed while the slot held what its setup had written. After an accepted write, and
until the next one, readers get what was written, or the error of that setup's own channel. -/
theorem latest_setup_accepted_iff {s : CoordinatorChannels} (h : system.Reachable s) :
    (s.Unread → ∀ setup generation, s.setups setup = some (.pending generation) →
      generation = s.entry.slot.latestReservedGeneration → ∀ written,
        ((s.entry.slot.writeGeneration generation written).1 = .ok true ↔
          ∀ event ∈ s.entry.history, event.seals = false)) ∧
      ∀ later generation written earlier,
        s.entry.history = later ++ .wrote generation written (.ok true) :: earlier →
        (∀ event ∈ later, ∀ g item, event ≠ .wrote g item (.ok true)) →
          s.entry.slot.slot.value? = some written ∨
          s.entry.slot.slot.value? = some (closedError (ResultTaskData.setup written)) ∧
            .sealing (closedError (ResultTaskData.setup written)) true ∈ later := by
  have hs := valid_of_reachable h
  have hentry := SlotSystem.valid_of_reachable hs.reachable
  constructor
  · intro hunread setup generation _ hlatest written
    rw [SingleWriteMultiRead.writeGeneration_accepted_iff (Nat.le_of_eq hlatest.symm)]
    constructor
    · intro hfree event hevent
      by_contra hseals
      obtain ⟨value, hvalue, hstarted⟩ :=
        hentry.closed ⟨event, hevent, Bool.not_eq_false _ ▸ hseals⟩
      rcases hfree with hnone | hunstarted
      · exact Option.some_ne_none _ (hvalue.symm.trans hnone)
      · exact Bool.noConfusion (hstarted.symm.trans hunstarted)
    · intro hseals
      refine Or.inr (Bool.eq_false_iff.mpr fun hstarted => ?_)
      rcases hentry.cause hstarted with ⟨reader, hreader⟩ | ⟨event, hevent, hsealed⟩
      · exact hreader (hunread reader)
      · exact Bool.noConfusion ((hseals event hevent).symm.trans hsealed)
  · intro later generation written earlier hhistory hlater
    have hlogged := hs.sealsOwn
    rw [hhistory] at hlogged
    rw [hentry.stored, hhistory]
    exact stored_after_write hlogged hlater

/-- A retry reserves the slot while the first attempt serves it. -/
def retried : List ChannelAction :=
  [.getEntry 0, .reserveWrite 0, .write 0 true, .getEntry 1, .reserveWrite 1]

/-- The retry is accepted while the channel of the first attempt is open. -/
theorem retry_accepted :
    ∃ s, system.Reachable s ∧ s.Unread ∧ s.setups 1 = some (.pending 2) ∧
      (s.entry.slot.writeGeneration 2 (.ok 1)).1 = .ok true := by
  obtain ⟨s, hrun, hunread, hpending, hlatest, hhistory⟩ :
      ∃ s, retried.foldlM tryStep new = some s ∧ s.Unread ∧ s.setups 1 = some (.pending 2) ∧
        2 = s.entry.slot.latestReservedGeneration ∧
        s.entry.history = [.reserved 2, .wrote 1 (.ok 0) (.ok true), .reserved 1] :=
    ⟨_, rfl, fun _ => rfl, rfl, rfl, rfl⟩
  have hs : system.Reachable s :=
    Transition.Reachable.foldlM (fun _ _ _ h => h) (.init rfl) hrun
  refine ⟨s, hs, hunread, hpending, ?_⟩
  apply ((latest_setup_accepted_iff hs).1 hunread 1 2 hpending hlatest (.ok 1)).mpr
  rw [hhistory]
  simp [SlotEvent.seals]

/-- The channel of the first attempt closes before the retry writes. -/
def closedMidway : List ChannelAction :=
  retried ++ [.channelCloses 0]

def closedMidwayAndRead : List ChannelAction :=
  closedMidway ++ [.write 1 true, .read 0, .writerArrived 0, .observe 0]

/-- The channel of the first attempt closes between the reservation and the write of the retry:
the write is refused although nobody has read the slot, and a reader gets the error of the first
attempt. -/
theorem retry_refused_after_close :
    (∃ s, system.Reachable s ∧ s.Unread ∧ s.setups 1 = some (.pending 2) ∧
      s.entry.slot.latestReservedGeneration = 2 ∧
      (s.entry.slot.writeGeneration 2 (.ok 1)).1 = .error .alreadyWritten) ∧
      ∃ s, system.Reachable s ∧ s.entry.history =
        [.readValue 0 (closedError 0), .wrote 2 (.ok 1) (.error .alreadyWritten),
          .sealing (closedError 0) true, .reserved 2, .wrote 1 (.ok 0) (.ok true),
          .reserved 1] := by
  constructor
  · obtain ⟨s, hrun, h⟩ : ∃ s, closedMidway.foldlM tryStep new = some s ∧
        s.Unread ∧ s.setups 1 = some (.pending 2) ∧
        s.entry.slot.latestReservedGeneration = 2 ∧
        (s.entry.slot.writeGeneration 2 (.ok 1)).1 = .error .alreadyWritten :=
      ⟨_, rfl, fun _ => rfl, rfl, rfl, rfl⟩
    exact ⟨s, Transition.Reachable.foldlM (fun _ _ _ h => h) (.init rfl) hrun, h⟩
  · obtain ⟨s, hrun, h⟩ : ∃ s, closedMidwayAndRead.foldlM tryStep new = some s ∧
        s.entry.history =
        [.readValue 0 (closedError 0), .wrote 2 (.ok 1) (.error .alreadyWritten),
          .sealing (closedError 0) true, .reserved 2, .wrote 1 (.ok 0) (.ok true),
          .reserved 1] := ⟨_, rfl, rfl⟩
    exact ⟨s, Transition.Reachable.foldlM (fun _ _ _ h => h) (.init rfl) hrun, h⟩

end CoordinatorChannels

end DatafusionDistributed
