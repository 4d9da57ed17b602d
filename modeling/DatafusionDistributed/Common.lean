import Mathlib.Data.PNat.Basic

/-!
# Results, errors, task contexts and input streams

Every fallible function of the planner and of the execution plans returns a `Result`. The
error carries the text the source formats. A Rust panic (an index out of bounds, an
`unwrap` of nothing) is kept apart from the errors the code returns on purpose.

A task that is spawned to read a stream may find that reading it panics; the panic unwinds the
task and drops what it owns.
-/

namespace DatafusionDistributed

/-- The literal `1 : ℕ+` rests on this instance in every module. -/
instance neZeroOne : NeZero (1 : ℕ) := ⟨Nat.one_ne_zero⟩

/-- The variants of `DataFusionError` that the modelled code returns, and a panic. -/
inductive DataFusionError where
  | internal (message : String)
  | plan (message : String)
  | execution (message : String)
  | notImplemented (message : String)
  | configuration (message : String)
  | panic (message : String)
  | shared (error : DataFusionError)
  deriving DecidableEq, Repr

abbrev Result (α : Type) := Except DataFusionError α

/-- `DistributedTaskContext`: the index of a task and the number of its siblings. -/
structure DistributedTaskContext where
  taskIndex : ℕ
  taskCount : ℕ
  deriving DecidableEq, Repr

/-- The context used when the session carries none: the only task. -/
def DistributedTaskContext.default : DistributedTaskContext := ⟨0, 1⟩

/-- How reading a stream ends. -/
inductive StreamEnd where
  | finished
  | panicked
  deriving DecidableEq, Repr

/-- What is left of a stream: the messages it yields, and how it ends after them. A stream that
never ends is one whose end is never read. -/
structure InputStream (M : Type) where
  items : List M
  last : StreamEnd
  deriving DecidableEq, Repr

inductive StreamEvent (M : Type) where
  | item (message : M) (rest : InputStream M)
  | finish
  | panic

def InputStream.next {M : Type} (self : InputStream M) : StreamEvent M :=
  match self.items, self.last with
  | message :: items, last => .item message { items, last }
  | [], .finished => .finish
  | [], .panicked => .panic

theorem InputStream.items_of_item {M : Type} {self rest : InputStream M} {message : M}
    (h : self.next = .item message rest) : self.items = message :: rest.items := by
  obtain ⟨items, last⟩ := self
  cases items with
  | nil => cases last <;> cases h
  | cons first items =>
    cases h
    rfl

theorem InputStream.items_of_end {M : Type} {self : InputStream M}
    (h : self.next = .finish ∨ self.next = .panic) : self.items = [] := by
  obtain ⟨items, last⟩ := self
  cases items with
  | nil => rfl
  | cons first items => rcases h with h | h <;> cases h

def InputStream.Errs {E B : Type} (self : InputStream (Except E B)) : Prop :=
  ∃ e, .error e ∈ self.items

/-- Reading the stream panics, or fails, before the stream has ended. -/
def InputStream.Abnormal {E B : Type} (self : InputStream (Except E B)) : Prop :=
  self.last = .panicked ∨ self.Errs

end DatafusionDistributed
