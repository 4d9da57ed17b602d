import Mathlib.Data.List.Basic
import DatafusionDistributed.Common
import DatafusionDistributed.Library.Transition

/-!
# The supervisor of the query tasks

`Spawner::spawn` sends a task over a channel to the supervisor, which runs it in a `JoinSet` and
joins it. A `JoinSet` hands out its tasks in the order they complete, and dropping it aborts those
that still run. In a `select!` a branch whose future yields `None` is disabled until the next
round, and the `else` branch is taken when both are disabled.
-/

namespace DatafusionDistributed

open Library

/-- Why a task has no result. -/
inductive JoinError (π : Type) where
  | panic (payload : π)
  | cancelled (error : String)
  deriving DecidableEq, Repr

abbrev TaskResult (π : Type) := Except (JoinError π) (Result Unit)

/-- How the supervisor stopped: its future returned or panicked, or was dropped with the output
stream. -/
inductive SupervisorExit (π : Type) where
  | returned (result : Result Unit)
  | panicked (payload : π)
  | dropped
  deriving DecidableEq, Repr

/-- What the loop does with a task it joined: it goes on, or it stops. -/
def TaskResult.exit {π : Type} : TaskResult π → Option (SupervisorExit π)
  | .ok (.ok ()) => none
  | .ok (.error error) => some (.returned (.error error))
  | .error (.panic payload) => some (.panicked payload)
  | .error (.cancelled error) =>
    some (.returned (.error (.execution s!"non panic JoinSet Error: {error}")))

/-- The sender handles, the channel, the `JoinSet` and the current round of the `select!`. Tasks
are numbered in the order of the `spawn` calls. -/
structure Supervisor (π : Type) where
  handles : ℕ := 1
  spawned : ℕ := 0
  taskRx : List ℕ := []
  tasks : List ℕ := []
  /-- Completed tasks that were not joined yet. -/
  completed : List (ℕ × TaskResult π) := []
  joinNextDisabled : Bool := false
  recvDisabled : Bool := false
  exit : Option (SupervisorExit π) := none
  /-- All tasks that were taken out of the channel. -/
  accepted : List ℕ := []
  /-- All tasks that were joined. -/
  joined : List (ℕ × TaskResult π) := []
  deriving DecidableEq, Repr

inductive SupervisorAction (π : Type) where
  | clone
  | drop
  | spawn
  | complete (task : ℕ) (result : TaskResult π)
  | joinNext
  | recv
  | otherwise
  | abort
  deriving DecidableEq, Repr

namespace Supervisor

variable {π : Type}

/-- `Spawner::spawn`. Once the supervisor stopped its receiver is gone, so sending fails and drops
the task. -/
def spawn (self : Supervisor π) : Supervisor π :=
  if self.exit.isSome then { self with spawned := self.spawned + 1 }
  else { self with spawned := self.spawned + 1, taskRx := self.taskRx ++ [self.spawned] }

/-- The branch `tasks.join_next()`, which waits while all tasks run. -/
def joinNext (self : Supervisor π) : Option (Supervisor π) :=
  match self.completed with
  | entry :: completed => some { self with
      completed, joined := self.joined ++ [entry], exit := entry.2.exit
      joinNextDisabled := false, recvDisabled := false }
  | [] => if self.tasks = [] then some { self with joinNextDisabled := true } else none

/-- The branch `task_rx.recv()`, which waits while the channel is empty and a sender is alive. -/
def recv (self : Supervisor π) : Option (Supervisor π) :=
  match self.taskRx with
  | task :: taskRx => some { self with
      taskRx, tasks := self.tasks ++ [task], accepted := self.accepted ++ [task]
      joinNextDisabled := false, recvDisabled := false }
  | [] => if self.handles = 0 then some { self with recvDisabled := true } else none

/-- One step, if it can be taken. A handle acts while it is alive, the tasks and the supervisor
until the supervisor stops. -/
def step (self : Supervisor π) : SupervisorAction π → Option (Supervisor π)
  | .clone => if 0 < self.handles then some { self with handles := self.handles + 1 } else none
  | .drop => if 0 < self.handles then some { self with handles := self.handles - 1 } else none
  | .spawn => if 0 < self.handles then some self.spawn else none
  | .complete task result =>
    if self.exit = none ∧ task ∈ self.tasks then some { self with
      tasks := self.tasks.erase task, completed := self.completed ++ [(task, result)] }
    else none
  | .joinNext => if self.exit = none ∧ !self.joinNextDisabled then self.joinNext else none
  | .recv => if self.exit = none ∧ !self.recvDisabled then self.recv else none
  | .otherwise =>
    if self.exit = none ∧ self.joinNextDisabled ∧ self.recvDisabled then
      some { self with exit := some (.returned (.ok ())) }
    else none
  | .abort => if self.exit = none then some { self with exit := some .dropped } else none

/-- All interleavings of the holders of the spawner, the tasks and the supervisor. -/
def transitions (π : Type) : Transition (Supervisor π) (SupervisorAction π) where
  init := (· = {})
  step s action next := s.step action = some next

/-- The first failure in the order in which the tasks completed. -/
def firstFailure (completed : List (ℕ × TaskResult π)) : Option (SupervisorExit π) :=
  completed.findSome? fun entry => entry.2.exit

variable {s next last : Supervisor π} {action : SupervisorAction π} {failure : SupervisorExit π}

theorem exit_eq_none_iff {result : TaskResult π} : result.exit = none ↔ result = .ok (.ok ()) := by
  rcases result with (_ | _) | (_ | _) <;> simp [TaskResult.exit]

theorem firstFailure_ne_ok (completed : List (ℕ × TaskResult π)) :
    firstFailure completed ≠ some (.returned (.ok ())) := by
  intro h
  obtain ⟨⟨_, result⟩, -, hresult⟩ := List.exists_of_findSome?_eq_some h
  rcases result with (_ | _) | (_ | _) <;> simp [TaskResult.exit] at hresult

/-- The loop stops at the first failure it joins. A branch is disabled, and `Ok` is returned, only
when there is nothing left to wait for. -/
structure Inv (s : Supervisor π) : Prop where
  fresh : ∀ task, task ∈ s.taskRx ∨ task ∈ s.accepted → task < s.spawned
  known : ∀ task ∈ s.accepted, task ∈ s.tasks ∨ ∃ result, (task, result) ∈ s.joined ++ s.completed
  joinNext : s.joinNextDisabled = true → s.tasks = [] ∧ s.completed = []
  recv : s.recvDisabled = true → s.taskRx = [] ∧ s.handles = 0
  exit : firstFailure s.joined = s.exit ∨ firstFailure s.joined = none ∧
    (s.exit = some .dropped ∨
      s.exit = some (.returned (.ok ())) ∧ s.handles = 0 ∧ s.tasks = [] ∧ s.completed = [])

theorem Inv.joined (h : s.Inv) (hexit : s.exit = none) (hnext : s.joinNext = some next) :
    next.Inv := by
  obtain ⟨hfresh, hknown, hjoin, hrecv, hstopped⟩ := h
  unfold Supervisor.joinNext at hnext
  split at hnext
  · constructor <;> grind [firstFailure]
  · constructor <;> grind

theorem Inv.received (h : s.Inv) (hexit : s.exit = none) (hnext : s.recv = some next) :
    next.Inv := by
  obtain ⟨hfresh, hknown, hjoin, hrecv, hstopped⟩ := h
  unfold Supervisor.recv at hnext
  split at hnext
  · constructor <;> grind
  · constructor <;> grind

theorem Inv.step (h : s.Inv) (hstep : s.step action = some next) : next.Inv := by
  cases action <;> obtain ⟨hguard, hnext⟩ := Option.ite_none_right_eq_some.mp hstep
  case joinNext => exact h.joined hguard.1 hnext
  case recv => exact h.received hguard.1 hnext
  all_goals
    obtain ⟨hfresh, hknown, hjoin, hrecv, hstopped⟩ := h
    cases hnext
  case spawn =>
    unfold Supervisor.spawn
    split <;> constructor <;> grind
  all_goals constructor <;> grind

theorem inv_of_reachable (h : (transitions π).Reachable s) : s.Inv := by
  refine h.invariant ?_ fun _ _ _ hs hstep => hs.step hstep
  rintro s rfl
  constructor <;> simp [firstFailure]

/-- A supervisor that has not stopped gets to the first failure by joining what completed. -/
theorem exists_joins (hexit : s.exit = none) (hflag : s.joinNextDisabled = false)
    (h : firstFailure s.completed = some failure) :
    ∃ n last, (List.replicate n .joinNext).foldlM Supervisor.step s = some last ∧
      last.exit = some failure := by
  induction hcompleted : s.completed generalizing s with
  | nil => simp [hcompleted, firstFailure] at h
  | cons entry completed ih =>
    rw [hcompleted, firstFailure, List.findSome?_cons] at h
    have hjoin : s.step .joinNext = some { s with
        completed, joined := s.joined ++ [entry], exit := entry.2.exit
        joinNextDisabled := false, recvDisabled := false } := by
      simp [Supervisor.step, Supervisor.joinNext, hexit, hflag, hcompleted]
    cases hentry : entry.2.exit with
    | some found =>
      rw [hentry] at h hjoin
      exact ⟨1, _, by simp [hjoin]; rfl, h⟩
    | none =>
      rw [hentry] at h hjoin
      obtain ⟨n, last, hlast, hfound⟩ := ih (s := { s with
        completed, joined := s.joined ++ [entry], exit := none
        joinNextDisabled := false, recvDisabled := false }) rfl rfl h rfl
      exact ⟨n + 1, last, by simp [List.replicate_succ, hjoin, hlast], hfound⟩

theorem step_of_stopped (hexit : s.exit ≠ none) (h : s.step action = some next) :
    next.exit ≠ none ∧ next.accepted = s.accepted := by
  cases action <;> grind [Supervisor.step, Supervisor.spawn]

theorem supervisor_propagates_failures (h : (transitions π).Reachable s) :
    (s.exit = some (.returned (.ok ())) →
      s.handles = 0 ∧ ∀ task ∈ s.accepted, (task, .ok (.ok ())) ∈ s.joined) ∧
    (∀ failure, firstFailure (s.joined ++ s.completed) = some failure →
      s.exit = some failure ∨ s.exit = some .dropped ∨ s.exit = none ∧
        ∃ n last, (List.replicate n .joinNext).foldlM Supervisor.step s = some last ∧
          last.exit = some failure) ∧
    (0 < s.handles → firstFailure (s.joined ++ s.completed) = none →
      s.exit = none ∨ s.exit = some .dropped) ∧
    ∀ next last, s.exit ≠ none → s.step .spawn = some next →
      ((transitions π).after next).Reachable last → s.spawned ∉ last.accepted := by
  have hinv := inv_of_reachable h
  have happend : firstFailure (s.joined ++ s.completed)
      = (firstFailure s.joined).or (firstFailure s.completed) := List.findSome?_append
  have hnotOk := firstFailure_ne_ok s.joined
  refine ⟨?_, ?_, ?_, ?_⟩
  · intro hok
    rcases hinv.exit with hexit | ⟨hnone, hdropped | ⟨-, hhandles, htasks, hcompleted⟩⟩
    · exact absurd (hexit.trans hok) hnotOk
    · simp [hok] at hdropped
    · refine ⟨hhandles, ?_⟩
      intro task htask
      obtain ⟨result, hresult⟩ : ∃ result, (task, result) ∈ s.joined := by
        simpa [htasks, hcompleted] using hinv.known task htask
      have hexit : result.exit = none := List.findSome?_eq_none_iff.mp hnone _ hresult
      rwa [exit_eq_none_iff.mp hexit] at hresult
  · intro failure hfailure
    rw [happend] at hfailure
    rcases hinv.exit with hexit | ⟨hnone, hdropped | ⟨-, -, -, hcompleted⟩⟩
    · rw [hexit] at hfailure
      cases hstopped : s.exit with
      | some exit =>
        rw [hstopped] at hfailure
        exact .inl hfailure
      | none =>
        rw [hstopped] at hfailure
        refine .inr (.inr ⟨rfl, exists_joins hstopped (Bool.eq_false_iff.mpr ?_) hfailure⟩)
        intro hdisabled
        simp [(hinv.joinNext hdisabled).2, firstFailure] at hfailure
    · exact .inr (.inl hdropped)
    · rw [hnone, hcompleted] at hfailure
      cases hfailure
  · grind [hinv.exit]
  · intro next last hstopped hspawn hlast
    have hsame := hlast.invariant (p := fun last => last.exit ≠ none ∧ last.accepted = s.accepted)
      (fun _ hs => hs ▸ step_of_stopped hstopped hspawn) fun _ _ _ hs hstep =>
        (step_of_stopped hs.1 hstep).imp_right fun hnext => hnext.trans hs.2
    rw [hsame.2]
    intro hmem
    exact Nat.lt_irrefl _ (hinv.fresh _ (.inr hmem))

theorem supervisor_drops_late_task :
    ∃ s : Supervisor Unit, (transitions Unit).Reachable s ∧
      s.exit = some (.returned (.error (.execution "lost"))) ∧
      ∀ next last, s.step .spawn = some next → ((transitions Unit).after next).Reachable last →
        s.spawned ∉ last.accepted := by
  let lost : TaskResult Unit := .ok (.error (.execution "lost"))
  have hrun : [.spawn, .recv, .complete 0 lost, .joinNext].foldlM Supervisor.step {} =
      some { spawned := 1, accepted := [0], joined := [(0, lost)], exit := lost.exit } := rfl
  have h : (transitions Unit).Reachable _ := .foldlM (fun _ _ _ h => h) (.init rfl) hrun
  refine ⟨_, h, rfl, ?_⟩
  intro next last hspawn hlast
  exact (supervisor_propagates_failures h).2.2.2 next last (by simp [TaskResult.exit])
    hspawn hlast

end Supervisor

end DatafusionDistributed
