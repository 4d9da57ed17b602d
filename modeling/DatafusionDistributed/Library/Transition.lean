import Mathlib.Order.Basic

/-!
# Transition systems

States that change by labelled steps. An invariant holds in every reachable state if it holds at
the start and every step preserves it. A run is an infinite sequence of steps and pauses; if it is
fair to the actions that a waiting state obliges it to take, the waiting ends.
-/

namespace DatafusionDistributed.Library

universe u v

structure Transition (σ : Type u) (α : Type v) where
  init : σ → Prop
  step : σ → α → σ → Prop

namespace Transition

variable {σ : Type u} {α : Type v} {system : Transition σ α}

inductive Reachable (system : Transition σ α) : σ → Prop
  | init {s : σ} : system.init s → Reachable system s
  | step {s next : σ} {a : α} : Reachable system s → system.step s a next → Reachable system next

/-- What holds at the start and survives every step holds everywhere. -/
@[elab_as_elim]
theorem Reachable.invariant {p : σ → Prop} (hinit : ∀ s, system.init s → p s)
    (hstep : ∀ s a next, p s → system.step s a next → p next) {s : σ}
    (h : system.Reachable s) : p s := by
  induction h with
  | init hs => exact hinit _ hs
  | step _ hnext ih => exact hstep _ _ _ ih hnext

/-- A finite run of a function that takes steps of the system. -/
theorem Reachable.foldlM {tryStep : σ → α → Option σ}
    (htry : ∀ s a next, tryStep s a = some next → system.step s a next) {actions : List α}
    {s last : σ} (h : system.Reachable s) (hrun : actions.foldlM tryStep s = some last) :
    system.Reachable last := by
  induction actions generalizing s with
  | nil =>
    cases hrun
    exact h
  | cons a actions ih =>
    obtain ⟨next, hnext, hrest⟩ := Option.bind_eq_some_iff.mp hrun
    exact ih (.step h (htry s a next hnext)) hrest

/-- The steps with an allowed action. -/
def restrict (system : Transition σ α) (allowed : α → Prop) : Transition σ α where
  init := system.init
  step s a next := system.step s a next ∧ allowed a

theorem Reachable.of_restrict {allowed : α → Prop} {s : σ}
    (h : (system.restrict allowed).Reachable s) : system.Reachable s := by
  induction h with
  | init hs => exact .init hs
  | step _ hnext ih => exact .step ih hnext.1

/-- The system that goes on from a state. -/
def after (system : Transition σ α) (s : σ) : Transition σ α where
  init := (· = s)
  step := system.step

/-- An infinite sequence of states, each the last one or one step further. -/
structure Run (system : Transition σ α) where
  state : ℕ → σ
  action : ℕ → Option α
  starts : system.init (state 0)
  pauses : ∀ t, action t = none → state (t + 1) = state t
  steps : ∀ t a, action t = some a → system.step (state t) a (state (t + 1))

theorem Run.reachable (run : system.Run) (t : ℕ) : system.Reachable (run.state t) := by
  induction t with
  | zero => exact .init run.starts
  | succ t ih =>
    cases h : run.action t with
    | none =>
      rw [run.pauses t h]
      exact ih
    | some a => exact .step ih (run.steps t a h)

/-- Whenever the run is obliged to, it takes one of the due actions later. -/
def Run.Fair (run : system.Run) (obliged : σ → Prop) (due : α → Prop) : Prop :=
  ∀ t, obliged (run.state t) → ∃ u ≥ t, ∃ a, run.action u = some a ∧ due a

/-- If waiting obliges a fair run to an action that ends it, no state waits for ever. -/
theorem Run.Fair.ends {run : system.Run} {obliged : σ → Prop} {due : α → Prop}
    (hfair : run.Fair obliged due) (waiting : σ → Prop)
    (hobliged : ∀ s, system.Reachable s → waiting s → obliged s)
    (hends : ∀ s a next, system.step s a next → due a → ¬ waiting next) {t : ℕ}
    (hwaiting : waiting (run.state t)) : ∃ u > t, ¬ waiting (run.state u) := by
  obtain ⟨u, hu, a, ha, hdue⟩ := hfair t (hobliged _ (run.reachable t) hwaiting)
  exact ⟨u + 1, Nat.lt_succ_of_le hu, hends _ a _ (run.steps u a ha) hdue⟩

/-! ## Systems that come to rest -/

/-- Every step decreases the measure. -/
def Decreases (system : Transition σ α) (measure : σ → ℕ) : Prop :=
  ∀ s a next, system.Reachable s → system.step s a next → measure next < measure s

theorem Decreases.le_of_le {measure : σ → ℕ} (h : system.Decreases measure) (run : system.Run)
    {t u : ℕ} (htu : t ≤ u) : measure (run.state u) ≤ measure (run.state t) := by
  induction htu with
  | refl => exact Nat.le_refl _
  | @step u _ ih =>
    cases ha : run.action u with
    | none =>
      rw [run.pauses u ha]
      exact ih
    | some a => exact Nat.le_trans (Nat.le_of_lt (h _ a _ (run.reachable u) (run.steps u a ha))) ih

/-- A system with a decreasing measure takes finitely many steps in every run. -/
theorem Decreases.eventually_idle {measure : σ → ℕ} (h : system.Decreases measure)
    (run : system.Run) : ∃ t, ∀ u ≥ t, run.action u = none := by
  -- By induction on the measure: either the run is idle from now on, or it will be lower.
  have hfrom : ∀ n t, measure (run.state t) = n → ∃ t, ∀ u ≥ t, run.action u = none := by
    intro n
    induction n using Nat.strongRecOn with
    | _ n ih =>
      intro t ht
      by_cases hidle : ∀ u ≥ t, run.action u = none
      · exact ⟨t, hidle⟩
      · simp only [not_forall] at hidle
        obtain ⟨u, hu, hmoves⟩ := hidle
        obtain ⟨a, ha⟩ := Option.ne_none_iff_exists'.mp hmoves
        have hlower := h _ a _ (run.reachable u) (run.steps u a ha)
        have hle := h.le_of_le run hu
        exact ih _ (by omega) (u + 1) rfl
  exact hfrom _ 0 rfl

/-- A system with a decreasing measure can go on from every state to one where it rests. -/
theorem Decreases.exists_rest {measure : σ → ℕ} (h : system.Decreases measure) {s : σ}
    (hs : system.Reachable s) :
    ∃ rest, system.Reachable rest ∧ ∀ a next, ¬ system.step rest a next := by
  have hfrom : ∀ n s, system.Reachable s → measure s = n →
      ∃ rest, system.Reachable rest ∧ ∀ a next, ¬ system.step rest a next := by
    intro n
    induction n using Nat.strongRecOn with
    | _ n ih =>
      intro s hs hn
      by_cases hrest : ∀ a next, ¬ system.step s a next
      · exact ⟨s, hs, hrest⟩
      · simp only [not_forall, not_not] at hrest
        obtain ⟨a, next, hstep⟩ := hrest
        have hlower := h s a next hs hstep
        exact ih _ (by omega) next (.step hs hstep) rfl
  exact hfrom _ s hs rfl

end Transition

end DatafusionDistributed.Library
