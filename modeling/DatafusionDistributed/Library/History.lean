import Mathlib.Data.List.Basic

/-!
# Histories

A history lists the events of a run, the latest first. `Logged p` says that every event was
allowed by the events before it, so it is kept by logging one more event that is allowed.
-/

namespace DatafusionDistributed.Library

universe u

variable {ε : Type u}

/-- Every event `e` of the history satisfies `p earlier e`, where `earlier` are the events that
came before it. -/
def Logged (p : List ε → ε → Prop) : List ε → Prop
  | [] => True
  | e :: earlier => p earlier e ∧ Logged p earlier

namespace Logged

variable {p : List ε → ε → Prop}

@[simp]
theorem nil : Logged p [] :=
  trivial

@[simp]
theorem cons_iff {e : ε} {earlier : List ε} :
    Logged p (e :: earlier) ↔ p earlier e ∧ Logged p earlier :=
  Iff.rfl

/-- What the history knows of an event in the middle of it. -/
theorem of_append {later earlier : List ε} {e : ε} (h : Logged p (later ++ e :: earlier)) :
    p earlier e := by
  induction later with
  | nil => exact h.1
  | cons _ later ih => exact ih h.2

end Logged

end DatafusionDistributed.Library
