import DatafusionDistributed.Library.Merging

/-!
# Behaviours of stream operators

An operator reads several streams and yields several streams. Which ones it yields is not always
determined, so the behaviour of an operator is the set of streams that it may yield, in every
context that it may run in. Behaviours are ordered by inclusion.

A fetch keeps the first rows of a stream. The question is what an operator makes of inputs that are
cut off after as many rows as it has a fetch for: those that only read so many rows do nothing that
they could not have done with the whole inputs.
-/

namespace DatafusionDistributed.Library

variable {C α : Type}

/-- The streams that an operator may yield, in a context. -/
abbrev Behaviour (C α : Type) := C → List (List α) → Prop

def takeFetch (fetch : Option ℕ) (stream : List α) : List α :=
  match fetch with
  | none => stream
  | some n => stream.take n

namespace Behaviour

variable {input cut whole : Behaviour C α} {fetch : Option ℕ} {n : ℕ}

/-- `cut` yields streams that `whole` may yield, cut off after `n` elements. -/
def Truncates (n : ℕ) (cut whole : Behaviour C α) : Prop :=
  ∀ ctx streams, cut ctx streams →
    ∃ uncut, whole ctx uncut ∧ streams = uncut.map (List.take n)

/-! ## Operators that yield one stream -/

/-- All streams are arranged in one, which is fetched from. -/
def gather (arrange : List (List α) → List α → Prop) (fetch : Option ℕ) (input : Behaviour C α) :
    Behaviour C α :=
  fun ctx streams => ∃ read all, input ctx read ∧ arrange read all ∧ streams = [takeFetch fetch all]

variable {arrange : List (List α) → List α → Prop}

def skipped (skip : ℕ) (fetch : Option ℕ) (input : Behaviour C α) : Behaviour C α :=
  fun ctx streams => ∃ read, input ctx [read] ∧ streams = [takeFetch fetch (read.drop skip)]

def limited (n : ℕ) (input : Behaviour C α) : Behaviour C α :=
  fun ctx streams => ∃ read, input ctx read ∧ streams = read.map (List.take n)

def mapped (f : α → α) (input : Behaviour C α) : Behaviour C α :=
  fun ctx streams => ∃ read, input ctx read ∧ streams = read.map (List.map f)

def sorted (le : α → α → Prop) (fetch : Option ℕ) (input : Behaviour C α) : Behaviour C α :=
  fun ctx streams => ∃ read, input ctx read ∧ List.Forall₂ (fun stream out =>
    ∃ all : List α, all.Perm stream ∧ all.Pairwise le ∧ out = takeFetch fetch all) read streams

end Behaviour

end DatafusionDistributed.Library
