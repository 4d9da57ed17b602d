import Mathlib.Data.List.Pairwise
import DatafusionDistributed.Library.History
import DatafusionDistributed.Library.Transition

/-!
# A slot with one value and many readers

`SingleWriteMultiRead`: writers reserve a generation and write, and a newer generation supersedes
an older one. A written value may be replaced until a reader has started or the slot is sealed.
The mutex and the watch channel are taken together by the writers, so each of their calls is one
step. A reader marks the slot under the mutex and looks at the watch channel later, so its steps
interleave with everything else.
-/

namespace DatafusionDistributed

open Library

/-- `WriteGeneration`; the counter is a `u64` that is only ever increased by one. -/
abbrev WriteGeneration := ℕ

inductive SlotState (T : Type) where
  | empty
  | reserved (generation : WriteGeneration)
  | abandoned
  | written (value : T)
  deriving DecidableEq, Repr

namespace SlotState

variable {T : Type}

/-- The value that a reader of the watch channel finds. -/
def value? : SlotState T → Option T
  | written value => some value
  | _ => none

theorem value?_eq_some {slot : SlotState T} {value : T} :
    slot.value? = some value ↔ slot = .written value := by
  cases slot <;> simp [value?]

end SlotState

inductive SingleWriteMultiReadError where
  | alreadyWritten
  | timeout
  | noValue
  deriving DecidableEq, Repr

/-- The watch channel (`slot`) and what the mutex guards. -/
structure SingleWriteMultiRead (T : Type) where
  slot : SlotState T
  readStarted : Bool
  latestReservedGeneration : WriteGeneration
  deriving DecidableEq, Repr

namespace SingleWriteMultiRead

variable {T : Type}

def new : SingleWriteMultiRead T where
  slot := .empty
  readStarted := false
  latestReservedGeneration := 0

def reserveWrite (self : SingleWriteMultiRead T) : WriteGeneration × SingleWriteMultiRead T :=
  let generation := self.latestReservedGeneration + 1
  let slot := match self.slot with
    | .empty | .abandoned | .reserved _ => .reserved generation
    | .written value => .written value
  (generation, { self with slot, latestReservedGeneration := generation })

def abandonGeneration (self : SingleWriteMultiRead T) (generation : WriteGeneration) :
    SingleWriteMultiRead T :=
  if generation < self.latestReservedGeneration then self
  else match self.slot with
    | .reserved g => if g = generation then { self with slot := .abandoned } else self
    | _ => self

def writeGeneration (self : SingleWriteMultiRead T) (generation : WriteGeneration) (item : T) :
    Except SingleWriteMultiReadError Bool × SingleWriteMultiRead T :=
  if generation < self.latestReservedGeneration then (.ok false, self)
  else if self.slot.value?.isNone || !self.readStarted then
    (.ok true, { self with slot := .written item })
  else (.error .alreadyWritten, self)

def sealWithValueIf (self : SingleWriteMultiRead T) (predicate : T → Bool) (item : T) :
    Bool × SingleWriteMultiRead T :=
  match self.slot with
  | .written current =>
    if predicate current then (true, { self with slot := .written item, readStarted := true })
    else (false, self)
  | _ => (false, self)

/-- The critical section with which `read` and `read_now` begin. -/
def startRead (self : SingleWriteMultiRead T) : SingleWriteMultiRead T :=
  { self with readStarted := true }

/-- A value that a reader may have seen stays. -/
def Settled (self : SingleWriteMultiRead T) (value : T) : Prop :=
  self.slot.value? = some value ∧ self.readStarted = true

variable {self : SingleWriteMultiRead T} {generation : WriteGeneration} {value item : T}

@[simp]
theorem value?_reserveWrite : self.reserveWrite.2.slot.value? = self.slot.value? := by
  rcases self with ⟨_ | _ | _ | _, _, _⟩ <;> rfl

/-- Abandoning touches no value, and neither of the guarded fields. -/
theorem abandonGeneration_keeps (self : SingleWriteMultiRead T) (generation : WriteGeneration) :
    (self.abandonGeneration generation).slot.value? = self.slot.value? ∧
      (self.abandonGeneration generation).readStarted = self.readStarted ∧
      (self.abandonGeneration generation).latestReservedGeneration =
        self.latestReservedGeneration := by
  unfold abandonGeneration
  split
  · exact ⟨rfl, rfl, rfl⟩
  · split
    · rename_i hslot
      split
      · exact ⟨by rw [hslot]; rfl, rfl, rfl⟩
      · exact ⟨rfl, rfl, rfl⟩
    · exact ⟨rfl, rfl, rfl⟩

/-- What an accepted write needs, and what it does. -/
theorem writeGeneration_accepted
    (h : (self.writeGeneration generation item).1 = .ok true) :
    self.latestReservedGeneration ≤ generation ∧
      (self.slot.value? = none ∨ self.readStarted = false) ∧
      (self.writeGeneration generation item).2 = { self with slot := .written item } := by
  unfold writeGeneration at h ⊢
  split at h
  · cases h
  · rename_i hlatest
    split at h
    · rename_i hfree
      rw [if_neg hlatest, if_pos hfree]
      refine ⟨Nat.le_of_not_lt hlatest, ?_, rfl⟩
      simpa using hfree
    · cases h

/-- The writer with the latest generation is refused only by a value that is being read. -/
theorem writeGeneration_accepted_iff (h : self.latestReservedGeneration ≤ generation) :
    (self.writeGeneration generation item).1 = .ok true ↔
      self.slot.value? = none ∨ self.readStarted = false := by
  refine ⟨fun haccepted => (writeGeneration_accepted haccepted).2.1, fun hfree => ?_⟩
  unfold writeGeneration
  rw [if_neg (Nat.not_lt_of_le h), if_pos (by simpa using hfree)]

theorem writeGeneration_refused
    (h : (self.writeGeneration generation item).1 ≠ .ok true) :
    (self.writeGeneration generation item).2 = self := by
  unfold writeGeneration at h ⊢
  split
  · rfl
  · rename_i hlatest
    rw [if_neg hlatest] at h
    split
    · rename_i hfree
      exact absurd (by rw [if_pos hfree]) h
    · rfl

theorem Settled.writeGeneration (h : self.Settled value) (generation : WriteGeneration)
    (item : T) : (self.writeGeneration generation item).2 = self := by
  apply writeGeneration_refused
  intro haccepted
  rcases (writeGeneration_accepted haccepted).2.1 with hnone | hunread
  · rw [h.1] at hnone
    cases hnone
  · rw [h.2] at hunread
    cases hunread

/-- What a seal replaces, and what it leaves. -/
theorem sealWithValueIf_sealed {predicate : T → Bool}
    (h : (self.sealWithValueIf predicate item).1 = true) :
    (∃ current, self.slot = .written current ∧ predicate current = true) ∧
      (self.sealWithValueIf predicate item).2 =
        { self with slot := .written item, readStarted := true } := by
  unfold sealWithValueIf at h ⊢
  split at h
  · rename_i current hslot
    split at h
    · rename_i hpredicate
      exact ⟨⟨current, hslot, hpredicate⟩, by rw [if_pos hpredicate]⟩
    · cases h
  · cases h

theorem sealWithValueIf_unsealed {predicate : T → Bool}
    (h : (self.sealWithValueIf predicate item).1 = false) :
    (self.sealWithValueIf predicate item).2 = self := by
  unfold sealWithValueIf at h ⊢
  split at h
  · split at h
    · cases h
    · rename_i hpredicate
      rw [if_neg hpredicate]
  · rfl

end SingleWriteMultiRead

/-- Where a call of `read` or `read_now` stands. -/
inductive ReaderPhase where
  /-- `read` waits for a writer to arrive, up to its timeout. -/
  | awaitingWriter
  /-- `read` waits for a value, or for the writer to abandon the slot. -/
  | awaitingValue
  /-- `read_now` is about to borrow the watch channel. -/
  | borrowing
  | returned
  deriving DecidableEq, Repr

/-- What the calls have done so far, and what readers were given. -/
inductive SlotEvent (T : Type) where
  | reserved (generation : WriteGeneration)
  | wrote (generation : WriteGeneration) (item : T)
      (outcome : Except SingleWriteMultiReadError Bool)
  | sealing (item : T) (replaced : Bool)
  | readValue (reader : ℕ) (value : T)
  | readNothing (reader : ℕ) (error : SingleWriteMultiReadError)

namespace SlotEvent

variable {T : Type}

def generation? : SlotEvent T → Option WriteGeneration
  | reserved generation => some generation
  | _ => none

/-- The event is a seal that replaced the value. -/
def seals : SlotEvent T → Bool
  | sealing _ replaced => replaced
  | _ => false

/-- The value that the event left in the slot. -/
def stored? : SlotEvent T → Option T
  | wrote _ item (.ok true) => some item
  | sealing item true => some item
  | _ => none

end SlotEvent

/-- One slot, its readers, and the history of its calls, the latest first. -/
structure SlotSystem (T : Type) where
  slot : SingleWriteMultiRead T
  readers : ℕ → Option ReaderPhase
  history : List (SlotEvent T)

inductive SlotAction (T : Type) where
  | reserveWrite
  | writeGeneration (generation : WriteGeneration) (item : T)
  | abandonGeneration (generation : WriteGeneration)
  | sealWithValueIf (predicate : T → Bool) (item : T)
  | read (reader : ℕ)
  | readNow (reader : ℕ)
  | writerArrived (reader : ℕ)
  | timeOut (reader : ℕ)
  | observe (reader : ℕ)

namespace SlotSystem

variable {T : Type}

def new : SlotSystem T where
  slot := .new
  readers := fun _ => none
  history := []

def generations (self : SlotSystem T) : List WriteGeneration :=
  self.history.filterMap SlotEvent.generation?

def start (self : SlotSystem T) (reader : ℕ) (phase : ReaderPhase) : SlotSystem T :=
  { self with
    slot := self.slot.startRead
    readers := Function.update self.readers reader (some phase) }

def finish (self : SlotSystem T) (reader : ℕ) (event : SlotEvent T) : SlotSystem T :=
  { self with
    readers := Function.update self.readers reader (some .returned)
    history := event :: self.history }

/-- What a reader that is past its first wait returns, if it can return. -/
def observed (self : SlotSystem T) (reader : ℕ) : ReaderPhase → Option (SlotEvent T)
  | .awaitingValue => match self.slot.slot with
    | .written value => some (.readValue reader value)
    | .abandoned => some (.readNothing reader .noValue)
    | .empty | .reserved _ => none
  | .borrowing => match self.slot.slot with
    | .written value => some (.readValue reader value)
    | .empty | .reserved _ | .abandoned => some (.readNothing reader .noValue)
  | .awaitingWriter | .returned => none

/-- The next state, unless the action cannot be taken. Only `reserve_write` hands out generations,
and every call of a reader has its own number. -/
def tryStep (self : SlotSystem T) : SlotAction T → Option (SlotSystem T)
  | .reserveWrite =>
    let (generation, slot) := self.slot.reserveWrite
    some { self with slot, history := .reserved generation :: self.history }
  | .writeGeneration generation item =>
    if generation ∈ self.generations then
      let (outcome, slot) := self.slot.writeGeneration generation item
      some { self with slot, history := .wrote generation item outcome :: self.history }
    else none
  | .abandonGeneration generation =>
    if generation ∈ self.generations then
      some { self with slot := self.slot.abandonGeneration generation }
    else none
  | .sealWithValueIf predicate item =>
    let (replaced, slot) := self.slot.sealWithValueIf predicate item
    some { self with slot, history := .sealing item replaced :: self.history }
  | .read reader =>
    if self.readers reader = none then some (self.start reader .awaitingWriter) else none
  | .readNow reader =>
    if self.readers reader = none then some (self.start reader .borrowing) else none
  | .writerArrived reader =>
    if self.readers reader = some .awaitingWriter then
      match self.slot.slot with
      | .empty => none
      | .reserved _ | .abandoned | .written _ =>
        some { self with
          readers := Function.update self.readers reader (some .awaitingValue) }
    else none
  | .timeOut reader =>
    -- the timeout polls the wait before the timer, so it fires on an empty slot only
    if self.readers reader = some .awaitingWriter then
      match self.slot.slot with
      | .empty => some (self.finish reader (.readNothing reader .timeout))
      | .reserved _ | .abandoned | .written _ => none
    else none
  | .observe reader =>
    (self.readers reader).bind fun phase =>
      (self.observed reader phase).map fun event => self.finish reader event

def system (T : Type) : Transition (SlotSystem T) (SlotAction T) where
  init s := s = new
  step s a next := s.tryStep a = some next

/-- What a step can do: one critical section of a writer, a step of a reader that stores nothing,
or the return of a reader. -/
inductive Effect (s : SlotSystem T) : SlotAction T → SlotSystem T → Prop
  | reserved :
    Effect s .reserveWrite { s with
      slot := s.slot.reserveWrite.2
      history := .reserved s.slot.reserveWrite.1 :: s.history }
  | wrote (generation : WriteGeneration) (item : T) (reserved : generation ∈ s.generations) :
    Effect s (.writeGeneration generation item) { s with
      slot := (s.slot.writeGeneration generation item).2
      history :=
        .wrote generation item (s.slot.writeGeneration generation item).1 :: s.history }
  | sealing (predicate : T → Bool) (item : T) :
    Effect s (.sealWithValueIf predicate item) { s with
      slot := (s.slot.sealWithValueIf predicate item).2
      history := .sealing item (s.slot.sealWithValueIf predicate item).1 :: s.history }
  | quiet (a : SlotAction T) (next : SlotSystem T) (history : next.history = s.history)
    (value : next.slot.slot.value? = s.slot.slot.value?)
    (latest : next.slot.latestReservedGeneration = s.slot.latestReservedGeneration)
    (started : s.slot.readStarted = true → next.slot.readStarted = true)
    (readers : ∀ reader, next.readers reader ≠ none →
      s.readers reader ≠ none ∨ next.slot.readStarted = true)
    (known : ∀ reader, s.readers reader ≠ none → next.readers reader ≠ none)
    (cause : next.slot.readStarted = true →
      s.slot.readStarted = true ∨ ∃ reader, next.readers reader ≠ none) : Effect s a next
  | readValue (a : SlotAction T) (reader : ℕ) (value : T) (known : s.readers reader ≠ none)
    (found : s.slot.slot.value? = some value) :
    Effect s a (s.finish reader (.readValue reader value))
  | readNothing (a : SlotAction T) (reader : ℕ) (error : SingleWriteMultiReadError)
    (known : s.readers reader ≠ none) :
    Effect s a (s.finish reader (.readNothing reader error))

variable {readers : ℕ → Option ReaderPhase} {reader other : ℕ} {phase : ReaderPhase}
  {s : SlotSystem T} {a : SlotAction T} {event : SlotEvent T} {value : T}
  {history : List (SlotEvent T)}

theorem update_ne_none (h : Function.update readers reader (some phase) other ≠ none) :
    readers other ≠ none ∨ other = reader := by
  by_cases hother : other = reader
  · exact Or.inr hother
  · rw [Function.update_of_ne hother] at h
    exact Or.inl h

theorem update_known (reader : ℕ) (phase : ReaderPhase) (h : readers other ≠ none) :
    Function.update readers reader (some phase) other ≠ none := by
  by_cases hother : other = reader
  · simp [hother]
  · rwa [Function.update_of_ne hother]

theorem effect_start (s : SlotSystem T) (a : SlotAction T) (reader : ℕ) (phase : ReaderPhase) :
    s.Effect a (s.start reader phase) :=
  .quiet _ _ rfl rfl rfl (fun _ => rfl) (fun _ _ => Or.inr rfl)
    (fun _ h => update_known reader phase h) fun _ => Or.inr ⟨reader, by simp [start]⟩

theorem effect_observed (hphase : s.readers reader = some phase)
    (h : s.observed reader phase = some event) : s.Effect a (s.finish reader event) := by
  have hknown : s.readers reader ≠ none := by simp [hphase]
  unfold observed at h
  split at h
  all_goals try split at h
  all_goals cases h
  all_goals
    first
      | exact .readNothing a reader .noValue hknown
      | exact .readValue a reader _ hknown (SlotState.value?_eq_some.mpr ‹_›)

theorem effect_of_tryStep {next : SlotSystem T} (h : s.tryStep a = some next) :
    s.Effect a next := by
  cases a with
  | reserveWrite =>
    cases h
    exact .reserved
  | writeGeneration generation item =>
    obtain ⟨hreserved, h⟩ := Option.ite_none_right_eq_some.mp h
    cases h
    exact .wrote generation item hreserved
  | abandonGeneration generation =>
    obtain ⟨_, h⟩ := Option.ite_none_right_eq_some.mp h
    cases h
    obtain ⟨hvalue, hstarted, hlatest⟩ := s.slot.abandonGeneration_keeps generation
    exact .quiet _ _ rfl hvalue hlatest (fun h => hstarted.trans h) (fun _ h => Or.inl h)
      (fun _ h => h) fun h => Or.inl (hstarted.symm.trans h)
  | sealWithValueIf predicate item =>
    cases h
    exact .sealing predicate item
  | read reader | readNow reader =>
    obtain ⟨_, h⟩ := Option.ite_none_right_eq_some.mp h
    cases h
    exact effect_start s _ reader _
  | writerArrived reader =>
    obtain ⟨hphase, h⟩ := Option.ite_none_right_eq_some.mp h
    have hreaders : ∀ other, Function.update s.readers reader (some .awaitingValue) other ≠ none →
        s.readers other ≠ none := by
      intro other hother
      rcases update_ne_none hother with hother | rfl
      · exact hother
      · simp [hphase]
    split at h <;> cases h
    all_goals
      exact .quiet _ _ rfl rfl rfl id (fun other hother => Or.inl (hreaders other hother))
        (fun _ h => update_known reader _ h) Or.inl
  | timeOut reader =>
    obtain ⟨hphase, h⟩ := Option.ite_none_right_eq_some.mp h
    split at h <;> cases h
    exact .readNothing _ reader .timeout (by simp [hphase])
  | observe reader =>
    obtain ⟨phase, hphase, h⟩ := Option.bind_eq_some_iff.mp h
    obtain ⟨event, hevent, rfl⟩ := Option.map_eq_some_iff.mp h
    exact effect_observed hphase hevent

/-- A reader was given the value, and no seal has replaced it since. -/
def ReadSince (history : List (SlotEvent T)) (value : T) : Prop :=
  ∃ later reader earlier, history = later ++ .readValue reader value :: earlier ∧
    ∀ event ∈ later, event.seals = false

theorem not_readSince_nil : ¬ ReadSince [] value := by
  rintro ⟨later, reader, earlier, h, -⟩
  simp at h

theorem readSince_cons :
    ReadSince (event :: history) value →
      (∃ reader, event = .readValue reader value) ∨
        event.seals = false ∧ ReadSince history value := by
  rintro ⟨later, reader, earlier, h, hlater⟩
  cases later with
  | nil =>
    cases h
    exact Or.inl ⟨reader, rfl⟩
  | cons first later =>
    cases h
    exact Or.inr ⟨hlater _ List.mem_cons_self, later, reader, earlier, rfl,
      fun event h => hlater event (List.mem_cons_of_mem _ h)⟩

/-- What the earlier events must be for an event to happen: an accepted write is not superseded,
and a reader gets the value stored last, which is the one that the readers before it got. -/
def Justified (earlier : List (SlotEvent T)) : SlotEvent T → Prop
  | .wrote generation _ (.ok true) =>
    ∀ g ∈ earlier.filterMap SlotEvent.generation?, g ≤ generation
  | .readValue _ value =>
    earlier.findSome? SlotEvent.stored? = some value ∧
      ∀ other, ReadSince earlier other → value = other
  | _ => True

/-- What holds in every state of the slot and its readers. -/
structure Valid (s : SlotSystem T) : Prop where
  latest : ∀ g ∈ s.generations, g ≤ s.slot.latestReservedGeneration
  increasing : s.generations.Pairwise (· > ·)
  stored : s.slot.slot.value? = s.history.findSome? SlotEvent.stored?
  marked : ∀ reader, s.readers reader ≠ none → s.slot.readStarted = true
  cause : s.slot.readStarted = true →
    (∃ reader, s.readers reader ≠ none) ∨ ∃ event ∈ s.history, event.seals = true
  settled : ∀ value, ReadSince s.history value → s.slot.Settled value
  closed : (∃ event ∈ s.history, event.seals = true) → ∃ value, s.slot.Settled value
  justified : Logged Justified s.history

theorem valid_new : (new : SlotSystem T).Valid where
  latest := by simp [new, generations]
  increasing := List.Pairwise.nil
  stored := rfl
  marked _ h := absurd rfl h
  cause h := by cases h
  settled _ h := absurd h not_readSince_nil
  closed := by simp [new]
  justified := Logged.nil

namespace Valid

variable {s next : SlotSystem T}

/-- An event that neither reserves, stores nor seals, while the slot keeps its value. -/
theorem logged (hs : s.Valid) {event : SlotEvent T} {readers : ℕ → Option ReaderPhase}
    (hreaders : ∀ reader, readers reader ≠ none → s.slot.readStarted = true)
    (hknown : ∀ reader, s.readers reader ≠ none → readers reader ≠ none)
    (hgeneration : event.generation? = none) (hstored : event.stored? = none)
    (hseals : event.seals = false)
    (hread : ∀ reader value, event = .readValue reader value → s.slot.Settled value)
    (hjustified : Justified s.history event) :
    Valid { s with readers, history := event :: s.history } where
  latest := by
    simpa [generations, hgeneration] using hs.latest
  increasing := by
    simpa [generations, hgeneration] using hs.increasing
  stored := by
    simpa [hstored] using hs.stored
  marked := hreaders
  cause h := (hs.cause h).imp (Exists.imp hknown) List.exists_mem_cons_of_exists
  settled value h := by
    rcases readSince_cons h with ⟨reader, hevent⟩ | ⟨-, h⟩
    · exact hread reader value hevent
    · exact hs.settled value h
  closed h := by
    rcases List.or_exists_of_exists_mem_cons h with hsealed | h
    · rw [hseals] at hsealed
      cases hsealed
    · exact hs.closed h
  justified := ⟨hjustified, hs.justified⟩

theorem reserved (hs : s.Valid) :
    Valid { s with
      slot := s.slot.reserveWrite.2
      history := .reserved s.slot.reserveWrite.1 :: s.history } where
  latest := List.forall_mem_cons.mpr
    ⟨Nat.le_refl _, fun g hg => Nat.le_succ_of_le (hs.latest g hg)⟩
  increasing :=
    List.Pairwise.cons (fun g hg => Nat.lt_succ_of_le (hs.latest g hg)) hs.increasing
  stored := s.slot.value?_reserveWrite.trans hs.stored
  marked := hs.marked
  cause h := (hs.cause h).imp id List.exists_mem_cons_of_exists
  settled value h := by
    rcases readSince_cons h with ⟨reader, hevent⟩ | ⟨-, h⟩
    · cases hevent
    · obtain ⟨hvalue, hstarted⟩ := hs.settled value h
      exact ⟨s.slot.value?_reserveWrite.trans hvalue, hstarted⟩
  closed h := by
    rcases List.or_exists_of_exists_mem_cons h with hsealed | h
    · cases hsealed
    · obtain ⟨value, hvalue, hstarted⟩ := hs.closed h
      exact ⟨value, s.slot.value?_reserveWrite.trans hvalue, hstarted⟩
  justified := ⟨trivial, hs.justified⟩

/-- No reader has been given a value that an accepted write replaces. -/
theorem accepted (hs : s.Valid) {generation : WriteGeneration} {item : T}
    (haccepted : (s.slot.writeGeneration generation item).1 = .ok true) :
    Valid { s with
      slot := { s.slot with slot := .written item }
      history := .wrote generation item (.ok true) :: s.history } := by
  obtain ⟨hlatest, hfree, -⟩ := SingleWriteMultiRead.writeGeneration_accepted haccepted
  have hunsettled : ∀ value, ¬ s.slot.Settled value := by
    rintro value ⟨hvalue, hstarted⟩
    rcases hfree with hnone | hunread
    · exact Option.some_ne_none _ (hvalue.symm.trans hnone)
    · exact Bool.noConfusion (hstarted.symm.trans hunread)
  exact {
    latest := hs.latest
    increasing := hs.increasing
    stored := rfl
    marked := hs.marked
    cause := fun h => (hs.cause h).imp id List.exists_mem_cons_of_exists
    settled := by
      intro value h
      rcases readSince_cons h with ⟨reader, hevent⟩ | ⟨-, h⟩
      · cases hevent
      · exact absurd (hs.settled value h) (hunsettled value)
    closed := by
      intro h
      rcases List.or_exists_of_exists_mem_cons h with hsealed | h
      · cases hsealed
      · obtain ⟨value, hvalue⟩ := hs.closed h
        exact absurd hvalue (hunsettled value)
    justified := ⟨fun g hg => Nat.le_trans (hs.latest g hg) hlatest, hs.justified⟩ }

theorem wrote (hs : s.Valid) (generation : WriteGeneration) (item : T) :
    Valid { s with
      slot := (s.slot.writeGeneration generation item).2
      history :=
        .wrote generation item (s.slot.writeGeneration generation item).1 :: s.history } := by
  by_cases haccepted : (s.slot.writeGeneration generation item).1 = .ok true
  · rw [haccepted, (SingleWriteMultiRead.writeGeneration_accepted haccepted).2.2]
    exact hs.accepted haccepted
  · rw [SingleWriteMultiRead.writeGeneration_refused haccepted]
    generalize (s.slot.writeGeneration generation item).1 = outcome at haccepted
    rcases outcome with error | _ | _
    iterate 2
      exact hs.logged hs.marked (fun _ h => h) rfl rfl rfl (fun _ _ h => by cases h) trivial
    exact absurd rfl haccepted

theorem sealing (hs : s.Valid) (predicate : T → Bool) (item : T) :
    Valid { s with
      slot := (s.slot.sealWithValueIf predicate item).2
      history := .sealing item (s.slot.sealWithValueIf predicate item).1 :: s.history } := by
  cases hsealed : (s.slot.sealWithValueIf predicate item).1 with
  | false =>
    rw [SingleWriteMultiRead.sealWithValueIf_unsealed hsealed]
    exact hs.logged hs.marked (fun _ h => h) rfl rfl rfl (fun _ _ h => by cases h) trivial
  | true =>
    rw [(SingleWriteMultiRead.sealWithValueIf_sealed hsealed).2]
    exact {
      latest := hs.latest
      increasing := hs.increasing
      stored := rfl
      marked := fun _ _ => rfl
      cause := fun _ => Or.inr ⟨_, List.mem_cons_self, rfl⟩
      settled := by
        intro value h
        rcases readSince_cons h with ⟨reader, hevent⟩ | ⟨hseals, -⟩
        · cases hevent
        · cases hseals
      closed := fun _ => ⟨item, rfl, rfl⟩
      justified := ⟨trivial, hs.justified⟩ }

theorem effect (hs : s.Valid) {a : SlotAction T} (h : s.Effect a next) : next.Valid := by
  cases h with
  | reserved => exact hs.reserved
  | wrote generation item _ => exact hs.wrote generation item
  | sealing predicate item => exact hs.sealing predicate item
  | quiet _ _ hhistory hvalue hlatest hstarted hreaders hknown hcause =>
    have hgenerations : next.generations = s.generations := by
      rw [generations, generations, hhistory]
    have hsettled : ∀ value, s.slot.Settled value → next.slot.Settled value :=
      fun value h => ⟨hvalue.trans h.1, hstarted h.2⟩
    exact {
      latest := by rw [hgenerations, hlatest]; exact hs.latest
      increasing := by rw [hgenerations]; exact hs.increasing
      stored := by rw [hvalue, hhistory]; exact hs.stored
      marked := fun reader h => (hreaders reader h).elim
        (fun h => hstarted (hs.marked reader h)) id
      cause := by
        intro h
        rw [hhistory]
        rcases hcause h with h | h
        · exact (hs.cause h).imp (Exists.imp hknown) id
        · exact Or.inl h
      settled := fun value h => hsettled value (hs.settled value (hhistory ▸ h))
      closed := fun h => (hs.closed (hhistory ▸ h)).imp hsettled
      justified := by rw [hhistory]; exact hs.justified }
  | readValue _ reader value hknown hfound =>
    have hstarted := hs.marked reader hknown
    refine hs.logged (fun _ _ => hstarted) (fun _ h => update_known reader _ h) rfl rfl rfl ?_
      ⟨hs.stored.symm.trans hfound, ?_⟩
    · intro _ _ h
      cases h
      exact ⟨hfound, hstarted⟩
    · intro other h
      exact Option.some.inj (hfound.symm.trans (hs.settled other h).1)
  | readNothing _ reader error hknown =>
    exact hs.logged (fun _ _ => hs.marked reader hknown) (fun _ h => update_known reader _ h)
      rfl rfl rfl (fun _ _ h => by cases h) trivial

end Valid

theorem valid_of_reachable (h : (system T).Reachable s) : s.Valid :=
  h.invariant (fun _ hs => hs ▸ valid_new) fun _ _ _ hs hstep =>
    hs.effect (effect_of_tryStep hstep)

/-- In every interleaving: reserved generations increase; a superseded writer changes nothing;
readers agree until a seal; no write changes a sealed slot; and a reader gets the value that was
stored last, by a writer that was not superseded when it wrote. -/
theorem single_write_multi_read_interleavings {s : SlotSystem T}
    (h : (system T).Reachable s) :
    s.generations.Pairwise (· > ·) ∧
      (∀ g ∈ s.generations, g ≠ s.slot.latestReservedGeneration →
        (∀ item, s.slot.writeGeneration g item = (.ok false, s.slot)) ∧
          s.slot.abandonGeneration g = s.slot) ∧
      (∀ later r₁ v₁ between r₂ v₂ earlier,
        s.history = later ++ .readValue r₁ v₁ :: (between ++ .readValue r₂ v₂ :: earlier) →
          (∀ event ∈ between, event.seals = false) → v₁ = v₂) ∧
      ((∃ event ∈ s.history, event.seals = true) →
        ∀ g item, (s.slot.writeGeneration g item).2 = s.slot) ∧
      ∀ later r v earlier, s.history = later ++ .readValue r v :: earlier →
        ∃ between event before, earlier = between ++ event :: before ∧
          event.stored? = some v ∧ (∀ e ∈ between, e.stored? = none) ∧
          ∀ g item, event = .wrote g item (.ok true) →
            ∀ g' ∈ before.filterMap SlotEvent.generation?, g' ≤ g := by
  have hs := valid_of_reachable h
  refine ⟨hs.increasing, ?_, ?_, ?_, ?_⟩
  · intro g hg hne
    have hlt := Nat.lt_of_le_of_ne (hs.latest g hg) hne
    exact ⟨fun _ => if_pos hlt, if_pos hlt⟩
  · intro later r₁ v₁ between r₂ v₂ earlier hhistory hbetween
    have hjustified := hs.justified
    rw [hhistory] at hjustified
    exact hjustified.of_append.2 v₂ ⟨between, r₂, earlier, rfl, hbetween⟩
  · intro hsealed g item
    obtain ⟨value, hvalue⟩ := hs.closed hsealed
    exact hvalue.writeGeneration g item
  · intro later r v earlier hhistory
    have hjustified := hs.justified
    rw [hhistory] at hjustified
    obtain ⟨between, event, before, rfl, hstored, hbetween⟩ :=
      List.findSome?_eq_some_iff.mp hjustified.of_append.1
    refine ⟨between, event, before, rfl, hstored, hbetween, ?_⟩
    rintro g item rfl
    rw [← List.singleton_append, ← List.append_assoc, ← List.append_assoc] at hjustified
    exact hjustified.of_append

/-- A superseded writer, two readers that agree, a seal, and a write that comes after it. -/
def supersededAndSealed : List (SlotAction ℕ) :=
  [.reserveWrite, .read 0, .writerArrived 0, .reserveWrite, .writeGeneration 1 10,
    .writeGeneration 2 20, .observe 0, .readNow 1, .observe 1, .sealWithValueIf (· == 20) 99,
    .writeGeneration 2 30, .readNow 2, .observe 2]

theorem interleavings_of_supersededAndSealed :
    ∃ s, (system ℕ).Reachable s ∧
      s.history = [.readValue 2 99, .wrote 2 30 (.error .alreadyWritten), .sealing 99 true,
        .readValue 1 20, .readValue 0 20, .wrote 2 20 (.ok true), .wrote 1 10 (.ok false),
        .reserved 2, .reserved 1] ∧
      s.generations.Pairwise (· > ·) ∧
      ∀ g item, (s.slot.writeGeneration g item).2 = s.slot := by
  obtain ⟨s, hrun, hhistory⟩ : ∃ s, supersededAndSealed.foldlM tryStep new = some s ∧
      s.history = [.readValue 2 99, .wrote 2 30 (.error .alreadyWritten), .sealing 99 true,
        .readValue 1 20, .readValue 0 20, .wrote 2 20 (.ok true), .wrote 1 10 (.ok false),
        .reserved 2, .reserved 1] := ⟨_, rfl, rfl⟩
  have hs : (system ℕ).Reachable s :=
    Transition.Reachable.foldlM (fun _ _ _ h => h) (.init rfl) hrun
  obtain ⟨hincreasing, -, -, hsealed, -⟩ := single_write_multi_read_interleavings hs
  refine ⟨s, hs, hhistory, hincreasing, hsealed ⟨.sealing 99 true, ?_, rfl⟩⟩
  rw [hhistory]
  simp

end SlotSystem

end DatafusionDistributed
