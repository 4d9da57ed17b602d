import DatafusionDistributed.Common
import DatafusionDistributed.Library.Checked

/-!
# The queue of a `BroadcastExec`

`BroadcastExec` executes every input partition once and lets all consumer tasks read it. One
producer appends the batches of the partition to a queue, and every consumer task has a reader
slot with its own cursor. Entries that all readers are done with are dropped now and then.

This file has the state under the mutex with one function for each critical section, and what
every critical section does to the log of the pushed values.
-/

namespace DatafusionDistributed

open Library

def reclaimInterval : ℕ := 8

inductive ReaderSlot where
  | pending
  | reading (nextCursor : ℕ)
  | released
  deriving DecidableEq, Repr

/-- The entries from this position on are still to be read, if any. -/
def ReaderSlot.cursor : ReaderSlot → Option ℕ
  | pending => some 0
  | reading nextCursor => some nextCursor
  | released => none

def ReaderSlot.retains (self : ReaderSlot) : Bool :=
  self.cursor.isSome

structure QueueState (T : Type) where
  entries : List T
  baseCursor : ℕ
  tailCursor : ℕ
  readers : List ReaderSlot
  retainingReaders : ℕ
  closed : Bool
  deriving DecidableEq, Repr

/-- What one critical section of `poll_next` finds. -/
inductive Polled (T : Type) where
  | item (value : T)
  | nothing (closed : Bool)
  | released
  deriving DecidableEq, Repr

namespace QueueState

variable {T : Type}

/-- The state that `BroadcastQueue::new` starts with. -/
def new (expectedReaders : ℕ) : QueueState T where
  entries := []
  baseCursor := 0
  tailCursor := 0
  readers := List.replicate expectedReaders .pending
  retainingReaders := expectedReaders
  closed := false

def subtract (a b : ℕ) : Result ℕ :=
  if b ≤ a then .ok (a - b) else .error (.panic "attempt to subtract with overflow")

/-- The smallest cursor of a reader that is not released. -/
def minimumCursor (self : QueueState T) : ℕ :=
  ((self.readers.filterMap ReaderSlot.cursor).min?).getD self.tailCursor

def reclaimProcessedEntries (self : QueueState T) : Result (QueueState T × List T) := do
  let reclaimCount ← subtract self.minimumCursor self.baseCursor
  if self.entries.length < reclaimCount then .error (.panic "range end index out of range")
  else return ({ self with
    baseCursor := self.minimumCursor
    entries := self.entries.drop reclaimCount }, self.entries.take reclaimCount)

/-- The critical section of `push`. -/
def push (self : QueueState T) (value : T) : Result (QueueState T × Bool) :=
  if self.retainingReaders = 0 then .ok (self, false)
  else
    let queueState := { self with
      entries := self.entries ++ [value]
      tailCursor := self.tailCursor + 1 }
    if queueState.tailCursor % reclaimInterval = 0 then do
      let (queueState, _) ← queueState.reclaimProcessedEntries
      return (queueState, true)
    else .ok (queueState, true)

/-- The critical section of dropping the queue. -/
def close (self : QueueState T) : QueueState T :=
  { self with closed := true }

/-- The critical section of `claim`. -/
def claim (self : QueueState T) (consumerTask : ℕ) : Result (QueueState T) :=
  match self.readers[consumerTask]? with
  | none => .error (.internal s!"broadcast consumer {consumerTask} is out of range")
  | some .pending => .ok { self with readers := self.readers.set consumerTask (.reading 0) }
  | some _ => .error (.internal s!"broadcast consumer {consumerTask} cannot execute twice")

/-- The first critical section of `poll_next`. -/
def poll (self : QueueState T) (consumerId : ℕ) : Result (QueueState T × Polled T) :=
  match self.readers[consumerId]? with
  | none => .error (.panic "index out of bounds")
  | some .pending => .error (.panic "an unclaimed consumer was polled")
  | some .released => .ok (self, .released)
  | some (.reading nextCursor) =>
    if nextCursor < self.tailCursor then
      if nextCursor < self.baseCursor then
        .error (.panic "broadcast consumer fell behind evicted entries")
      else
        match self.entries[nextCursor - self.baseCursor]? with
        | none => .error (.panic "broadcast entry cursor was not retained")
        | some value =>
          .ok ({ self with readers := self.readers.set consumerId (.reading (nextCursor + 1)) },
            .item value)
    else .ok (self, .nothing self.closed)

/-- The critical section of `release`, and whether no readers remain. -/
def release (self : QueueState T) (consumerId : ℕ) : Result (QueueState T × Bool) :=
  match self.readers[consumerId]? with
  | none => .error (.panic "index out of bounds")
  | some .released => .ok (self, false)
  | some _ => do
    let retainingReaders ← subtract self.retainingReaders 1
    let state := { self with
      readers := self.readers.set consumerId .released
      retainingReaders }
    let (state, _) ← state.reclaimProcessedEntries
    return (state, state.retainingReaders = 0)

def releaseSlot : ReaderSlot → ReaderSlot
  | .pending => .released
  | slot => slot

/-- The critical section of `release_pending`, and whether no readers remain. -/
def releasePending (self : QueueState T) : Result (QueueState T × Bool) := do
  let released := self.readers.countP (· = .pending)
  let retainingReaders ← subtract self.retainingReaders released
  let state := { self with
    readers := self.readers.map releaseSlot
    retainingReaders }
  let (state, _) ← state.reclaimProcessedEntries
  return (state, state.retainingReaders = 0)

/-! ## The log -/

/-- The entries are the part of the pushed values that a reader may still need. -/
structure Logged (state : QueueState T) (pushed : List T) : Prop where
  tail : state.tailCursor = pushed.length
  base_le : state.baseCursor ≤ state.tailCursor
  entries : state.entries = pushed.drop state.baseCursor
  cursors : ∀ slot ∈ state.readers, ∀ cursor, slot.cursor = some cursor →
    state.baseCursor ≤ cursor ∧ cursor ≤ state.tailCursor

/-- `retaining_readers` counts the readers that are not released. -/
def Counted (state : QueueState T) : Prop :=
  state.retainingReaders = state.readers.countP ReaderSlot.retains

variable {state next : QueueState T} {pushed : List T} {i : ℕ} {slot : ReaderSlot}

theorem Logged.length (h : state.Logged pushed) :
    state.baseCursor + state.entries.length = state.tailCursor := by
  have hbase := h.base_le
  rw [h.entries, List.length_drop, ← h.tail]
  omega

theorem new_logged (expectedReaders : ℕ) : (new expectedReaders : QueueState T).Logged [] := by
  refine ⟨rfl, le_rfl, rfl, ?_⟩
  intro slot hslot cursor hcursor
  rw [List.eq_of_mem_replicate hslot] at hcursor
  cases hcursor
  exact ⟨le_rfl, le_rfl⟩

theorem new_counted (expectedReaders : ℕ) : (new expectedReaders : QueueState T).Counted := by
  simp [Counted, new, List.countP_replicate, ReaderSlot.retains, ReaderSlot.cursor]

/-- The smallest cursor is between the base and every reader. -/
theorem Logged.minimumCursor (h : state.Logged pushed) :
    state.baseCursor ≤ state.minimumCursor ∧ state.minimumCursor ≤ state.tailCursor ∧
      ∀ slot ∈ state.readers, ∀ cursor, slot.cursor = some cursor →
        state.minimumCursor ≤ cursor := by
  unfold QueueState.minimumCursor
  cases hmin : (state.readers.filterMap ReaderSlot.cursor).min? with
  | none =>
    refine ⟨h.base_le, le_rfl, ?_⟩
    intro slot hslot cursor hcursor
    have hin := List.mem_filterMap.mpr ⟨slot, hslot, hcursor⟩
    rw [List.min?_eq_none_iff.mp hmin] at hin
    cases hin
  | some smallest =>
    obtain ⟨hin, hle⟩ := List.min?_eq_some_iff.mp hmin
    obtain ⟨slot, hslot, hcursor⟩ := List.mem_filterMap.mp hin
    obtain ⟨hbase, htail⟩ := h.cursors slot hslot smallest hcursor
    refine ⟨hbase, htail, ?_⟩
    intro other hother cursor hcursor
    exact hle cursor (List.mem_filterMap.mpr ⟨other, hother, hcursor⟩)

/-- Dropping entries never underflows and leaves what the readers need. -/
theorem Logged.reclaim (h : state.Logged pushed) :
    ∃ next reclaimed, state.reclaimProcessedEntries = .ok (next, reclaimed) ∧
      next.Logged pushed ∧ next.readers = state.readers ∧
      next.retainingReaders = state.retainingReaders ∧ next.closed = state.closed := by
  obtain ⟨hbase, htail, hcursors⟩ := h.minimumCursor
  have hlength := h.length
  have hsub : subtract state.minimumCursor state.baseCursor =
      .ok (state.minimumCursor - state.baseCursor) := if_pos hbase
  have hle : ¬ state.entries.length < state.minimumCursor - state.baseCursor := by omega
  refine ⟨{ state with
    baseCursor := state.minimumCursor
    entries := state.entries.drop (state.minimumCursor - state.baseCursor) },
    state.entries.take (state.minimumCursor - state.baseCursor), ?_, ⟨h.tail, htail, ?_, ?_⟩,
    rfl, rfl, rfl⟩
  · unfold reclaimProcessedEntries
    rw [hsub]
    exact if_neg hle
  · dsimp only
    rw [h.entries, List.drop_drop]
    congr 1
    omega
  · intro slot hslot cursor hcursor
    exact ⟨hcursors slot hslot cursor hcursor, (h.cursors slot hslot cursor hcursor).2⟩

/-- `push` appends unless no reader is left, in which case it returns `false`. -/
theorem Logged.push (h : state.Logged pushed) (value : T) :
    (state.retainingReaders = 0 ∧ state.push value = .ok (state, false)) ∨
      state.retainingReaders ≠ 0 ∧ ∃ next, state.push value = .ok (next, true) ∧
        next.Logged (pushed ++ [value]) ∧ next.readers = state.readers ∧
        next.retainingReaders = state.retainingReaders ∧ next.closed = state.closed := by
  unfold QueueState.push
  by_cases hzero : state.retainingReaders = 0
  · exact .inl ⟨hzero, if_pos hzero⟩
  · refine .inr ⟨hzero, ?_⟩
    rw [if_neg hzero]
    have happended : ({ state with
        entries := state.entries ++ [value]
        tailCursor := state.tailCursor + 1 } : QueueState T).Logged (pushed ++ [value]) := by
      have hbase := h.base_le
      have htail := h.tail
      refine ⟨by simp [h.tail], by dsimp only; omega, ?_, ?_⟩
      · dsimp only
        rw [h.entries, List.drop_append_of_le_length (by omega)]
      · intro slot hslot cursor hcursor
        have hbounds := h.cursors slot hslot cursor hcursor
        dsimp only
        omega
    by_cases hmod : (state.tailCursor + 1) % reclaimInterval = 0
    · rw [if_pos hmod]
      obtain ⟨next, reclaimed, hnext, hlogged, hreaders, hretaining, hclosed⟩ := happended.reclaim
      rw [hnext]
      exact ⟨next, rfl, hlogged, hreaders, hretaining, hclosed⟩
    · rw [if_neg hmod]
      exact ⟨_, rfl, happended, rfl, rfl, rfl⟩

/-- Moving a reader to a cursor within the log, or releasing it, keeps the log. -/
theorem Logged.set (h : state.Logged pushed) (i : ℕ) (slot : ReaderSlot)
    (hslot : ∀ cursor, slot.cursor = some cursor →
      state.baseCursor ≤ cursor ∧ cursor ≤ state.tailCursor) (retainingReaders : ℕ) :
    ({ state with readers := state.readers.set i slot, retainingReaders } :
      QueueState T).Logged pushed := by
  refine ⟨h.tail, h.base_le, h.entries, ?_⟩
  intro other hother cursor hcursor
  rcases List.mem_or_eq_of_mem_set hother with hmem | rfl
  · exact h.cursors other hmem cursor hcursor
  · exact hslot cursor hcursor

theorem Counted.set (h : state.Counted) {old : ReaderSlot} (hold : state.readers[i]? = some old)
    (hsame : slot.retains = old.retains) :
    ({ state with readers := state.readers.set i slot } : QueueState T).Counted := by
  obtain ⟨hlt, hget⟩ := List.getElem?_eq_some_iff.mp hold
  have hset := List.countP_set (p := ReaderSlot.retains) (a := slot) hlt
  rw [hget, hsame] at hset
  unfold Counted at h ⊢
  rw [hset, h]
  cases hretains : old.retains with
  | false => simp
  | true =>
    have hpos : 0 < state.readers.countP ReaderSlot.retains :=
      List.countP_pos_iff.mpr ⟨old, List.mem_of_getElem? hold, hretains⟩
    simp only [if_true]
    omega

theorem Logged.claim (h : state.Logged pushed) (hcount : state.Counted)
    (hnext : state.claim i = .ok next) :
    state.readers[i]? = some .pending ∧ next.Logged pushed ∧ next.Counted ∧
      next.readers = state.readers.set i (.reading 0) ∧ next.closed = state.closed := by
  unfold QueueState.claim at hnext
  split at hnext
  · cases hnext
  · rename_i hpending
    cases hnext
    have hbounds := h.cursors .pending (List.mem_of_getElem? hpending) 0 rfl
    refine ⟨hpending, h.set i _ ?_ _, hcount.set hpending rfl, rfl, rfl⟩
    intro cursor hcursor
    cases hcursor
    exact hbounds
  · cases hnext

/-- A reader that was claimed gets the entry at its cursor, or learns whether the queue was
closed. -/
theorem Logged.poll (h : state.Logged pushed) {cursor : ℕ}
    (hslot : state.readers[i]? = some (.reading cursor)) :
    (∃ value, pushed[cursor]? = some value ∧ state.poll i =
      .ok ({ state with readers := state.readers.set i (.reading (cursor + 1)) }, .item value)) ∨
      cursor = pushed.length ∧ state.poll i = .ok (state, .nothing state.closed) := by
  obtain ⟨hbase, htail⟩ := h.cursors _ (List.mem_of_getElem? hslot) cursor rfl
  have hlog := h.tail
  unfold QueueState.poll
  rw [hslot]
  dsimp only
  by_cases hlt : cursor < state.tailCursor
  · left
    rw [if_pos hlt, if_neg (by omega), h.entries, List.getElem?_drop,
      show state.baseCursor + (cursor - state.baseCursor) = cursor by omega,
      List.getElem?_eq_getElem (by omega)]
    exact ⟨_, rfl, rfl⟩
  · right
    rw [if_neg hlt]
    exact ⟨by omega, rfl⟩

theorem poll_released (hslot : state.readers[i]? = some .released) :
    state.poll i = .ok (state, .released) := by
  unfold poll
  rw [hslot]

theorem Logged.release (h : state.Logged pushed) (hcount : state.Counted)
    (hslot : state.readers[i]? = some slot) :
    ∃ next last, state.release i = .ok (next, last) ∧ next.Logged pushed ∧ next.Counted ∧
      next.readers = state.readers.set i .released ∧ next.closed = state.closed := by
  obtain ⟨hlt, hget⟩ := List.getElem?_eq_some_iff.mp hslot
  by_cases hreleased : slot = .released
  · subst hreleased
    refine ⟨state, false, ?_, h, hcount, ?_, rfl⟩
    · unfold QueueState.release
      rw [hslot]
    · rw [← hget, List.set_getElem_self]
  · have hretains : slot.retains = true := by
      cases slot <;> first | rfl | exact absurd rfl hreleased
    have hpos : 0 < state.readers.countP ReaderSlot.retains :=
      List.countP_pos_iff.mpr ⟨slot, List.mem_of_getElem? hslot, hretains⟩
    have hsub : subtract state.retainingReaders 1 = .ok (state.retainingReaders - 1) :=
      if_pos (by rw [hcount]; exact hpos)
    obtain ⟨next, reclaimed, hnext, hlogged, hreaders, hretaining, hclosed⟩ :=
      (h.set i .released (by intro cursor hcursor; cases hcursor)
        (state.retainingReaders - 1)).reclaim
    refine ⟨next, next.retainingReaders = 0, ?_, hlogged, ?_, hreaders, hclosed⟩
    · unfold QueueState.release
      rw [hslot]
      cases slot with
      | released => exact absurd rfl hreleased
      | pending | reading cursor =>
        rw [hsub]
        dsimp only [bind, Except.bind]
        rw [hnext]
        rfl
    · unfold Counted
      rw [hretaining, hreaders]
      rw [List.countP_set hlt, hget, hcount, if_pos hretains]
      rfl

/-- The last reader is the one after which no entry is retained. -/
theorem release_last (h : state.release i = .ok (next, true)) : next.retainingReaders = 0 := by
  unfold release at h
  split at h
  · cases h
  · cases h
  · obtain ⟨retaining, -, h⟩ := bind_ok_iff.mp h
    obtain ⟨reclaimed, -, h⟩ := bind_ok_iff.mp h
    obtain ⟨rfl, hlast⟩ := Prod.mk.inj (Except.ok.inj h)
    exact of_decide_eq_true hlast

theorem releasePending_last (h : state.releasePending = .ok (next, true)) :
    next.retainingReaders = 0 := by
  obtain ⟨retaining, -, h⟩ := bind_ok_iff.mp h
  obtain ⟨reclaimed, -, h⟩ := bind_ok_iff.mp h
  obtain ⟨rfl, hlast⟩ := Prod.mk.inj (Except.ok.inj h)
  exact of_decide_eq_true hlast

theorem cursor_releaseSlot {cursor : ℕ} (h : (releaseSlot slot).cursor = some cursor) :
    slot.cursor = some cursor := by
  cases slot with
  | pending => cases h
  | reading nextCursor => exact h
  | released => cases h

theorem countP_releaseSlot (readers : List ReaderSlot) :
    (readers.map releaseSlot).countP ReaderSlot.retains + readers.countP (· = .pending) =
      readers.countP ReaderSlot.retains := by
  induction readers with
  | nil => rfl
  | cons slot readers ih =>
    cases slot <;>
      simp [List.countP_cons, releaseSlot, ReaderSlot.retains, ReaderSlot.cursor] at ih ⊢ <;> omega

theorem Logged.releasePending (h : state.Logged pushed) (hcount : state.Counted) :
    ∃ next last, state.releasePending = .ok (next, last) ∧ next.Logged pushed ∧ next.Counted ∧
      next.readers = state.readers.map releaseSlot ∧ next.closed = state.closed := by
  have hsum := countP_releaseSlot state.readers
  have hsub : subtract state.retainingReaders (state.readers.countP (· = .pending)) =
      .ok (state.retainingReaders - state.readers.countP (· = .pending)) :=
    if_pos (by rw [hcount]; omega)
  have hmapped : ({ state with
      readers := state.readers.map releaseSlot
      retainingReaders := state.retainingReaders - state.readers.countP (· = .pending) } :
      QueueState T).Logged pushed := by
    refine ⟨h.tail, h.base_le, h.entries, ?_⟩
    intro slot hslot cursor hcursor
    obtain ⟨old, hold, rfl⟩ := List.mem_map.mp hslot
    exact h.cursors old hold cursor (cursor_releaseSlot hcursor)
  obtain ⟨next, reclaimed, hnext, hlogged, hreaders, hretaining, hclosed⟩ := hmapped.reclaim
  refine ⟨next, next.retainingReaders = 0, ?_, hlogged, ?_, hreaders, hclosed⟩
  · unfold QueueState.releasePending
    dsimp only
    rw [hsub]
    dsimp only [bind, Except.bind]
    rw [hnext]
    rfl
  · unfold Counted
    rw [hretaining, hreaders, hcount]
    dsimp only
    omega

end QueueState

end DatafusionDistributed
