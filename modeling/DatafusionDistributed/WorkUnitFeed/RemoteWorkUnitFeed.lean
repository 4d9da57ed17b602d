import DatafusionDistributed.Common
import DatafusionDistributed.Library.Checked

/-!
# The latencies of a work unit

A work unit is stamped when it is created and when it is sent, by the clock of the coordinator, and
when it is received and when it is processed, by the clock of the worker. The feed of the worker
reports the three later times as latencies since the first one. It subtracts them as unsigned
integers, so a unit is delivered only if no clock reads less than the time of its creation.
-/

namespace DatafusionDistributed

open Library

inductive MaybeEncoded (U : Type) where
  | encoded (bytes : List UInt8)
  | decoded (workUnit : U)

/-- The times are Unix timestamps in nanoseconds. A time that was not set is zero. -/
structure WorkUnitMsg (U : Type) where
  id : ℕ
  partition : ℕ
  body : MaybeEncoded U
  created : ℕ
  sent : ℕ := 0
  received : ℕ := 0

/-- One message of `build_work_unit_batch_msg`. -/
def buildWorkUnitMsg {U : Type} (id partition : ℕ) (workUnit : Result U) (now : ℕ) :
    Result (WorkUnitMsg U) := do
  return { id, partition, body := .decoded (← workUnit), created := now }

/-- What `set_work_unit_send_time` does to each message. -/
def WorkUnitMsg.setSendTime {U : Type} (self : WorkUnitMsg U) (now : ℕ) : WorkUnitMsg U :=
  { self with sent := now }

/-- What `set_work_unit_received_time` does to each message. -/
def WorkUnitMsg.setReceivedTime {U : Type} (self : WorkUnitMsg U) (now : ℕ) : WorkUnitMsg U :=
  { self with received := now }

/-- How a work unit of type `T` is read from a message. -/
structure WorkUnitType (U T : Type) where
  decode : List UInt8 → Except String T
  downcast : U → Option T
  typeName : String

/-- What the latency metrics are told. -/
structure Latencies where
  send : ℕ
  received : ℕ
  processed : ℕ
  deriving DecidableEq, Repr

namespace RemoteFeedProvider

variable {U T : Type}

def readBody (type : WorkUnitType U T) : MaybeEncoded U → Result T
  | .encoded bytes => (type.decode bytes).mapError .internal
  | .decoded workUnit =>
    match type.downcast workUnit with
    | none => .error (.execution s!"Expected WorkUnit of type {type.typeName}")
    | some workUnit => .ok workUnit

def checkedSub (a b : ℕ) : Result ℕ :=
  if b ≤ a then .ok (a - b) else .error (.panic "attempt to subtract with overflow")

/-- What `feed` does with a message, where `now` is read after the unit was decoded. -/
def feedOne (type : WorkUnitType U T) (msg : WorkUnitMsg U) (now : ℕ) :
    Result (T × Latencies) := do
  let workUnit ← readBody type msg.body
  let send ← checkedSub msg.sent msg.created
  let received ← checkedSub msg.received msg.created
  let processed ← checkedSub now msg.created
  return (workUnit, { send, received, processed })

theorem checkedSub_ok_iff {a b c : ℕ} : checkedSub a b = .ok c ↔ b ≤ a ∧ a - b = c := by
  unfold checkedSub
  split <;> simp_all

/-- For all readings of the clocks, a unit that can be read is delivered if and only if it was not
sent, received or processed before it was created; its latencies are then the differences. -/
theorem work_unit_delivered_iff (type : WorkUnitType U T) (msg : WorkUnitMsg U) (now : ℕ)
    (workUnit : T) (h : readBody type msg.body = .ok workUnit) :
    (∃ latencies, feedOne type msg now = .ok (workUnit, latencies)) ↔
      msg.created ≤ msg.sent ∧ msg.created ≤ msg.received ∧ msg.created ≤ now := by
  rw [feedOne, h, ok_bind]
  constructor
  · rintro ⟨latencies, hfeed⟩
    obtain ⟨send, hsend, hfeed⟩ := bind_ok_iff.mp hfeed
    obtain ⟨received, hreceived, hfeed⟩ := bind_ok_iff.mp hfeed
    obtain ⟨processed, hprocessed, -⟩ := bind_ok_iff.mp hfeed
    exact ⟨(checkedSub_ok_iff.mp hsend).1, (checkedSub_ok_iff.mp hreceived).1,
      (checkedSub_ok_iff.mp hprocessed).1⟩
  · rintro ⟨hsend, hreceived, hprocessed⟩
    refine ⟨⟨msg.sent - msg.created, msg.received - msg.created, now - msg.created⟩, ?_⟩
    simp only [checkedSub, if_pos hsend, if_pos hreceived, if_pos hprocessed]
    rfl

end RemoteFeedProvider

open RemoteFeedProvider

/-- A work unit whose encoding is its own. -/
def plainUnits : WorkUnitType ℕ ℕ where
  decode := fun bytes => .ok bytes.length
  downcast := some
  typeName := "u64"

/-- The clock of the worker is one nanosecond behind when the message arrives. -/
theorem late_clock_panics : ∃ msg, buildWorkUnitMsg 7 0 (.ok 5) 100 = .ok msg ∧
    feedOne plainUnits ((msg.setSendTime 100).setReceivedTime 99) 101 =
      .error (.panic "attempt to subtract with overflow") :=
  ⟨_, rfl, rfl⟩

theorem work_unit_delivered_in_order : ∃ latencies,
    feedOne plainUnits ⟨7, 0, .decoded 5, 100, 101, 103⟩ 104 = .ok (5, latencies) :=
  (work_unit_delivered_iff _ _ _ 5 rfl).mpr (by decide)

end DatafusionDistributed
