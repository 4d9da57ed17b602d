import DatafusionDistributed.Common
import DatafusionDistributed.Library.Tallies
import DatafusionDistributed.Library.Checked
import DatafusionDistributed.Library.Transition

/-!
# `spawn_select_all`

The worker side of a network stream. Every partition stream of a request is driven by a task of
its own, which sends what the stream yields into a bounded channel. The channels are merged into
one stream, in any order, and the merged stream ends when all channels have.

A channel ends when its sender is dropped and all messages have been taken out. The sender is
dropped when the task returns, and also when the task is unwound by a panic.
-/

namespace DatafusionDistributed

open Library

/-- Where a task of `spawn_select_all` is. -/
inductive SelectPhase (M : Type) where
  /-- About to read the next message. -/
  | polling
  /-- Waiting for room in the channel. -/
  | sending (message : M)
  | returned
  | unwound
  deriving DecidableEq, Repr

namespace SelectPhase

variable {M : Type}

def isDone : SelectPhase M → Bool
  | returned | unwound => true
  | _ => false

/-- The message that was read and is not in the channel yet. -/
def held : SelectPhase M → List M
  | sending message => [message]
  | _ => []

end SelectPhase

/-- A task with what is left of its stream, and its channel. -/
structure SelectTask (M : Type) where
  input : InputStream M
  phase : SelectPhase M := .polling
  channel : List M := []
  deriving DecidableEq, Repr

namespace SelectTask

variable {M : Type}

/-- The loop body up to the send. That the merged stream is gone is noticed first. -/
def poll (self : SelectTask M) (dropped : Bool) : Option (SelectTask M) :=
  match self.phase with
  | .polling =>
    if dropped then some { self with phase := .returned }
    else match self.input.next with
      | .item message rest => some { self with input := rest, phase := .sending message }
      | .finish => some { self with phase := .returned }
      | .panic => some { self with phase := .unwound }
  | _ => none

/-- `send`, which waits while the channel is full and fails if its receiver is gone. -/
def send (self : SelectTask M) (queueSize : ℕ) (dropped : Bool) : Option (SelectTask M) :=
  match self.phase with
  | .sending message =>
    if dropped then some { self with phase := .returned }
    else if self.channel.length < queueSize then
      some { self with phase := .polling, channel := self.channel ++ [message] }
    else none
  | _ => none

def hasEnded (self : SelectTask M) : Bool :=
  self.phase.isDone && self.channel.isEmpty

end SelectTask

/-- The tasks, what the merged stream has returned and from which task, whether it has returned
its end, and whether it was dropped. -/
structure SelectAll (M : Type) where
  tasks : List (SelectTask M)
  emitted : List (ℕ × M) := []
  ended : Bool := false
  dropped : Bool := false
  deriving DecidableEq, Repr

inductive SelectAction where
  | poll (i : ℕ)
  | send (i : ℕ)
  | receive (i : ℕ)
  | finish
  | drop
  deriving DecidableEq, Repr

namespace SelectAll

variable {M : Type}

def new (inner : List (InputStream M)) : SelectAll M where
  tasks := inner.map fun input => { input }

/-- The merged stream takes a message out of a channel. -/
def receive (self : SelectAll M) (i : ℕ) : Option (SelectAll M) :=
  match self.tasks[i]? with
  | some { input, phase, channel := message :: channel } =>
    if self.dropped then none
    else some { self with
      tasks := self.tasks.set i { input, phase, channel }
      emitted := self.emitted ++ [(i, message)] }
  | _ => none

/-- One step, if it can be taken. -/
def step (queueSize : ℕ) (self : SelectAll M) : SelectAction → Option (SelectAll M)
  | .poll i => do
    let task ← self.tasks[i]?
    let task ← task.poll self.dropped
    return { self with tasks := self.tasks.set i task }
  | .send i => do
    let task ← self.tasks[i]?
    let task ← task.send queueSize self.dropped
    return { self with tasks := self.tasks.set i task }
  | .receive i => self.receive i
  | .finish =>
    if !self.dropped && self.tasks.all SelectTask.hasEnded then some { self with ended := true }
    else none
  | .drop => some { self with dropped := true }

/-- All interleavings of the tasks and the reader of the merged stream. -/
def transitions (queueSize : ℕ) (inner : List (InputStream M)) :
    Transition (SelectAll M) SelectAction where
  init := fun s => s = new inner
  step := fun s action next => s.step queueSize action = some next

def emittedBy (self : SelectAll M) (i : ℕ) : List M :=
  (self.emitted.filter fun entry => entry.1 = i).map Prod.snd

variable {queueSize i : ℕ} {s next : SelectAll M} {emitted : List M} {task : SelectTask M}
  {input : InputStream M} {inner : List (InputStream M)}

/-- What a step can do: a task moves on, a message is returned, the end is returned, or the merged
stream is dropped. -/
theorem step_cases {action : SelectAction} (h : s.step queueSize action = some next) :
    (∃ i task moved, s.tasks[i]? = some task ∧
      (task.poll s.dropped = some moved ∨ task.send queueSize s.dropped = some moved) ∧
      action ≠ .finish ∧ action ≠ .drop ∧ next = { s with tasks := s.tasks.set i moved }) ∨
    (∃ i, action = .receive i ∧ s.receive i = some next) ∨
    (action = .finish ∧ s.dropped = false ∧ (∀ task ∈ s.tasks, task.hasEnded = true) ∧
      next = { s with ended := true }) ∨
    (action = .drop ∧ next = { s with dropped := true }) := by
  cases action with
  | poll i =>
    obtain ⟨task, htask, h⟩ := Option.bind_eq_some_iff.mp h
    obtain ⟨moved, hmoved, h⟩ := Option.bind_eq_some_iff.mp h
    cases h
    exact .inl ⟨i, task, moved, htask, .inl hmoved, by simp, by simp, rfl⟩
  | send i =>
    obtain ⟨task, htask, h⟩ := Option.bind_eq_some_iff.mp h
    obtain ⟨moved, hmoved, h⟩ := Option.bind_eq_some_iff.mp h
    cases h
    exact .inl ⟨i, task, moved, htask, .inr hmoved, by simp, by simp, rfl⟩
  | receive i => exact .inr (.inl ⟨i, rfl, h⟩)
  | finish =>
    obtain ⟨hends, h⟩ := Option.ite_none_right_eq_some.mp h
    simp only [Bool.and_eq_true, Bool.not_eq_true', List.all_eq_true] at hends
    cases h
    exact .inr (.inr (.inl ⟨rfl, hends.1, hends.2, rfl⟩))
  | drop =>
    cases h
    exact .inr (.inr (.inr ⟨rfl, rfl⟩))

theorem receive_cases (h : s.receive i = some next) :
    ∃ input phase message channel, s.tasks[i]? = some ⟨input, phase, message :: channel⟩ ∧
      s.dropped = false ∧ next = { s with
        tasks := s.tasks.set i ⟨input, phase, channel⟩
        emitted := s.emitted ++ [(i, message)] } := by
  unfold SelectAll.receive at h
  split at h
  · rename_i input phase message channel htask
    obtain ⟨hlive, h⟩ := Option.ite_none_left_eq_some.mp h
    cases h
    exact ⟨input, phase, message, channel, htask, Bool.eq_false_iff.mpr hlive, rfl⟩
  · cases h

/-! ## Nothing is lost before the end -/

/-- What was returned, is in the channel, is held by the task and is left of the stream make up
the stream. -/
structure Carries (emitted : List M) (task : SelectTask M) (input : InputStream M) : Prop where
  items : emitted ++ (task.channel ++ (task.phase.held ++ task.input.items)) = input.items
  done : task.phase.isDone = true → task.input.items = []

theorem held_of_isDone {phase : SelectPhase M} (h : phase.isDone = true) : phase.held = [] := by
  cases phase <;> first | rfl | cases h

theorem Carries.poll {next : SelectTask M} (h : Carries emitted task input)
    (hnext : task.poll false = some next) :
    Carries emitted next input := by
  obtain ⟨left, phase, channel⟩ := task
  obtain ⟨items, last⟩ := left
  have hitems := h.items
  cases phase with
  | polling =>
    cases items with
    | nil => cases last <;> cases hnext <;> exact ⟨hitems, fun _ => rfl⟩
    | cons message items =>
      cases hnext
      refine ⟨hitems, ?_⟩
      intro hdone
      cases hdone
  | _ => cases hnext

theorem Carries.send {next : SelectTask M} (h : Carries emitted task input)
    (hnext : task.send queueSize false = some next) : Carries emitted next input := by
  obtain ⟨left, phase, channel⟩ := task
  have hitems := h.items
  cases phase with
  | sending message =>
    unfold SelectTask.send at hnext
    by_cases hroom : channel.length < queueSize
    · simp only [Bool.false_eq_true, if_false, hroom, if_true, Option.some.injEq] at hnext
      subst hnext
      refine ⟨?_, fun hdone => by cases hdone⟩
      simpa [SelectPhase.held] using hitems
    · simp [hroom] at hnext
  | _ => cases hnext

/-- The end of a channel: everything was returned. -/
theorem Carries.emitted_eq (h : Carries emitted task input) (hended : task.hasEnded = true) :
    emitted = input.items := by
  obtain ⟨hdone, hempty⟩ := Bool.and_eq_true_iff.mp hended
  have hitems := h.items
  rwa [List.isEmpty_iff.mp hempty, held_of_isDone hdone, h.done hdone, List.append_nil,
    List.append_nil, List.append_nil] at hitems

/-- The invariant, as long as the merged stream is read. -/
structure Inv (inner : List (InputStream M)) (s : SelectAll M) : Prop where
  length : s.tasks.length = inner.length
  sources : ∀ entry ∈ s.emitted, entry.1 < inner.length
  carries : s.dropped = false ∨ s.ended = true → ∀ i task input, s.tasks[i]? = some task →
    inner[i]? = some input → Carries (s.emittedBy i) task input
  ended : s.ended = true → ∀ task ∈ s.tasks, task.hasEnded = true

theorem new_inv (inner : List (InputStream M)) : (new inner).Inv inner where
  length := List.length_map _
  sources := by simp [new]
  carries := by
    intro _ i task input htask hinput
    simp only [new, List.getElem?_map, hinput, Option.map_some, Option.some.injEq] at htask
    subst htask
    exact ⟨rfl, fun hdone => by cases hdone⟩
  ended := by simp [new]

theorem poll_of_isDone (h : task.phase.isDone = true) (dropped : Bool) :
    task.poll dropped = none := by
  obtain ⟨input, phase, channel⟩ := task
  cases phase <;> first | rfl | cases h

theorem send_of_isDone (h : task.phase.isDone = true) (queueSize : ℕ) (dropped : Bool) :
    task.send queueSize dropped = none := by
  obtain ⟨input, phase, channel⟩ := task
  cases phase <;> first | rfl | cases h

theorem Inv.set (h : s.Inv inner) {next : SelectTask M} (htask : s.tasks[i]? = some task)
    (hdone : task.phase.isDone = false)
    (hcarries : s.dropped = false → ∀ emitted input, Carries emitted task input →
      Carries emitted next input) :
    ({ s with tasks := s.tasks.set i next } : SelectAll M).Inv inner := by
  have hopen : s.ended = false := by
    rw [Bool.eq_false_iff]
    intro hended
    have hall := h.ended hended task (List.mem_of_getElem? htask)
    simp [SelectTask.hasEnded, hdone] at hall
  refine ⟨List.length_set.trans h.length, h.sources, ?_, ?_⟩
  · intro hlive j other input hother hinput
    have hdropped : s.dropped = false := by
      rcases hlive with hdropped | hended
      · exact hdropped
      · rw [hopen] at hended
        cases hended
    rcases getElem?_set_cases htask hother with ⟨rfl, rfl⟩ | ⟨-, hother⟩
    · exact hcarries hdropped _ input (h.carries (.inl hdropped) i task input htask hinput)
    · exact h.carries (.inl hdropped) j other input hother hinput
  · intro hended
    rw [hopen] at hended
    cases hended

theorem emittedBy_append (s : SelectAll M) (i j : ℕ) (message : M) :
    ({ s with emitted := s.emitted ++ [(i, message)] } : SelectAll M).emittedBy j =
      s.emittedBy j ++ if i = j then [message] else [] := by
  unfold emittedBy
  by_cases hij : i = j <;> simp [hij]

theorem Inv.receive (h : s.Inv inner) (hnext : s.receive i = some next) : next.Inv inner := by
  obtain ⟨input, phase, message, channel, htask, hdropped, rfl⟩ := receive_cases hnext
  obtain ⟨hlt, -⟩ := List.getElem?_eq_some_iff.mp htask
  refine ⟨List.length_set.trans h.length, ?_, ?_, ?_⟩
  · intro entry hentry
    rcases List.mem_append.mp hentry with hold | hnew
    · exact h.sources entry hold
    · rw [List.mem_singleton.mp hnew, ← h.length]
      exact hlt
  · intro _ j other source hother hsource
    have happend := emittedBy_append s i j message
    change Carries (({ s with emitted := s.emitted ++ [(i, message)] } :
      SelectAll M).emittedBy j) other source
    rw [happend]
    rcases getElem?_set_cases htask hother with ⟨rfl, rfl⟩ | ⟨hj, hother⟩
    · have hcarries := h.carries (.inl hdropped) i _ source htask hsource
      refine ⟨?_, hcarries.done⟩
      simpa using hcarries.items
    · rw [if_neg hj, List.append_nil]
      exact h.carries (.inl hdropped) j other source hother hsource
  · intro hended
    have hall := h.ended hended _ (List.mem_of_getElem? htask)
    simp [SelectTask.hasEnded] at hall

/-- The step lemma. -/
theorem Inv.step {action : SelectAction} (h : s.Inv inner)
    (hnext : s.step queueSize action = some next) :
    next.Inv inner := by
  obtain ⟨i, task, moved, htask, hmoved, -, -, rfl⟩ | ⟨i, -, hnext⟩ | ⟨-, hdropped, hends, rfl⟩ |
    ⟨-, rfl⟩ := step_cases hnext
  · refine h.set htask ?_ ?_
    · rw [Bool.eq_false_iff]
      intro hdone
      rw [poll_of_isDone hdone, send_of_isDone hdone] at hmoved
      rcases hmoved with hmoved | hmoved <;> cases hmoved
    · intro hdropped emitted input hcarries
      rw [hdropped] at hmoved
      exact hmoved.elim hcarries.poll hcarries.send
  · exact h.receive hnext
  · exact ⟨h.length, h.sources, fun _ => h.carries (.inl hdropped), fun _ => hends⟩
  · refine ⟨h.length, h.sources, ?_, h.ended⟩
    rintro (hdropped | hended)
    · cases hdropped
    · exact h.carries (.inr hended)

theorem reachable_inv (h : (transitions queueSize inner).Reachable s) : s.Inv inner := by
  refine h.invariant ?_ fun s action next hinv hstep => hinv.step hstep
  rintro s rfl
  exact new_inv inner

/-- When the merged stream has ended, everything was returned from every task. -/
theorem Inv.emittedBy_of_ended (h : s.Inv inner) (hended : s.ended = true)
    (hinput : inner[i]? = some input) :
    s.emittedBy i = input.items := by
  obtain ⟨task, htask⟩ := exists_getElem? h.length.symm hinput
  exact (h.carries (.inr hended) i _ input htask hinput).emitted_eq
    (h.ended hended _ (List.mem_of_getElem? htask))

/-- When the merged stream has ended, it has returned all that the streams have yielded. -/
theorem Inv.mem_emitted_iff (h : s.Inv inner) (hended : s.ended = true) (message : M) :
    (∃ i, (i, message) ∈ s.emitted) ↔ ∃ input ∈ inner, message ∈ input.items := by
  have hall : ∀ i input, inner[i]? = some input → s.emittedBy i = input.items :=
    fun i input hinput => h.emittedBy_of_ended hended hinput
  have hmem : ∀ i, (i, message) ∈ s.emitted ↔ message ∈ s.emittedBy i := by
    simp [emittedBy]
  constructor
  · rintro ⟨i, hi⟩
    have hlt := h.sources _ hi
    have hinput := List.getElem?_eq_getElem hlt
    refine ⟨_, List.getElem_mem hlt, ?_⟩
    rw [← hall i _ hinput]
    exact (hmem i).mp hi
  · rintro ⟨input, hinput, hmessage⟩
    obtain ⟨i, hi⟩ := List.mem_iff_getElem?.mp hinput
    refine ⟨i, (hmem i).mpr ?_⟩
    rw [hall i input hi]
    exact hmessage

/-- An end of the merged stream is preceded by an error for every partition whose stream was not
read to its end if and only if no stream panics, or some stream yields an error. -/
theorem Inv.end_iff {E B : Type} {inner : List (InputStream (Except E B))}
    {s : SelectAll (Except E B)} (h : s.Inv inner) (hended : s.ended = true) :
    (∀ input ∈ inner, input.Abnormal → ∃ i e, (i, .error e) ∈ s.emitted) ↔
      ((∃ input ∈ inner, input.last = .panicked) → ∃ input ∈ inner, input.Errs) := by
  have herrs : (∃ i e, (i, .error e) ∈ s.emitted) ↔ ∃ input ∈ inner, input.Errs := by
    rw [exists_comm]
    simp only [h.mem_emitted_iff hended]
    constructor
    · rintro ⟨e, input, hinput, he⟩
      exact ⟨input, hinput, e, he⟩
    · rintro ⟨input, hinput, e, he⟩
      exact ⟨e, input, hinput, he⟩
  rw [herrs]
  constructor
  · rintro hnotice ⟨input, hinput, hpanicked⟩
    exact hnotice input hinput (.inl hpanicked)
  · rintro hpanics input hinput (hpanicked | hinputErrs)
    · exact hpanics ⟨input, hinput, hpanicked⟩
    · exact ⟨input, hinput, hinputErrs⟩

end SelectAll

/-! ## The merged stream comes to its end -/

/-- What a task still has to do. Every message is read, sent and received. -/
def SelectTask.work {M : Type} (self : SelectTask M) : ℕ :=
  3 * self.input.items.length + 2 * self.phase.held.length + self.channel.length +
    if self.phase.isDone then 0 else 1

namespace SelectAll

variable {M : Type} {s next : SelectAll M} {task moved : SelectTask M} {queueSize : ℕ}

def work (self : SelectAll M) : ℕ :=
  (self.tasks.map SelectTask.work).sum + (if self.ended then 0 else 1) +
    if self.dropped then 0 else 1

theorem work_poll {dropped : Bool} (h : task.poll dropped = some moved) :
    moved.work < task.work := by
  obtain ⟨⟨items, last⟩, phase, channel⟩ := task
  cases phase with
  | polling =>
    cases dropped with
    | true =>
      cases h
      simp [SelectTask.work, SelectPhase.held, SelectPhase.isDone]
    | false =>
      cases items with
      | nil =>
        cases last <;> cases h <;>
          simp [SelectTask.work, SelectPhase.held, SelectPhase.isDone]
      | cons message items =>
        cases h
        simp only [SelectTask.work, SelectPhase.held, SelectPhase.isDone, List.length_cons,
          Bool.false_eq_true]
        omega
  | _ => cases h

theorem work_send {dropped : Bool} (h : task.send queueSize dropped = some moved) :
    moved.work < task.work := by
  obtain ⟨input, phase, channel⟩ := task
  cases phase with
  | sending message =>
    unfold SelectTask.send at h
    dsimp only at h
    split at h
    · cases h
      simp only [SelectTask.work, SelectPhase.held, SelectPhase.isDone, List.length_nil,
        List.length_singleton, if_true]
      omega
    · split at h
      · cases h
        simp only [SelectTask.work, SelectPhase.held, SelectPhase.isDone, List.length_nil,
          List.length_singleton, List.length_append, Bool.false_eq_true]
        omega
      · cases h
  | _ => cases h

theorem work_set {i : ℕ} (htask : s.tasks[i]? = some task) (h : moved.work < task.work) :
    ({ s with tasks := s.tasks.set i moved } : SelectAll M).work < s.work := by
  have hsum := sum_map_set (f := SelectTask.work) (y := moved) htask
  unfold work
  dsimp only
  omega

variable {action : SelectAction}

section Step

variable (hstep : s.step queueSize action = some next)
include hstep

/-- Every step leaves less to do, but for an end that is returned and a drop that is made
twice. -/
theorem work_step (hfinish : action = .finish → s.ended = false)
    (hdrop : action = .drop → s.dropped = false) : next.work < s.work := by
  obtain ⟨i, task, moved, htask, hmoved, -, -, rfl⟩ | ⟨i, -, hstep⟩ | ⟨hend, -, -, rfl⟩ |
    ⟨hgone, rfl⟩ := step_cases hstep
  · exact work_set htask (hmoved.elim work_poll work_send)
  · obtain ⟨input, phase, message, channel, htask, -, rfl⟩ := receive_cases hstep
    have hless : (⟨input, phase, channel⟩ : SelectTask M).work <
        (⟨input, phase, message :: channel⟩ : SelectTask M).work := by
      simp [SelectTask.work]
    exact work_set htask hless
  · simp [work, hfinish hend]
  · simp [work, hdrop hgone]

theorem emitted_step : ∃ more, next.emitted = s.emitted ++ more ∧ more.length ≤ 1 := by
  obtain ⟨i, task, moved, -, -, -, -, rfl⟩ | ⟨i, -, hstep⟩ | ⟨-, -, -, rfl⟩ | ⟨-, rfl⟩ :=
    step_cases hstep
  · exact ⟨[], (List.append_nil _).symm, by simp⟩
  · obtain ⟨input, phase, message, channel, -, -, rfl⟩ := receive_cases hstep
    exact ⟨[(i, message)], rfl, by simp⟩
  · exact ⟨[], (List.append_nil _).symm, by simp⟩
  · exact ⟨[], (List.append_nil _).symm, by simp⟩

/-- After its end the merged stream returns nothing. -/
theorem Inv.step_of_ended {inner : List (InputStream M)} (h : s.Inv inner)
    (hended : s.ended = true) :
    next.ended = true ∧ next.emitted = s.emitted := by
  obtain ⟨i, task, moved, -, -, -, -, rfl⟩ | ⟨i, -, hstep⟩ | ⟨-, -, -, rfl⟩ | ⟨-, rfl⟩ :=
    step_cases hstep
  · exact ⟨hended, rfl⟩
  · obtain ⟨input, phase, message, channel, htask, -, -⟩ := receive_cases hstep
    have hall := h.ended hended _ (List.mem_of_getElem? htask)
    simp [SelectTask.hasEnded] at hall
  · exact ⟨rfl, rfl⟩
  · exact ⟨hended, rfl⟩

/-- A merged stream that was dropped returns nothing. -/
theorem emitted_of_dropped (hdropped : next.dropped = true) : next.emitted = s.emitted := by
  obtain ⟨i, task, moved, -, -, -, -, rfl⟩ | ⟨i, -, hstep⟩ | ⟨-, -, -, rfl⟩ | ⟨-, rfl⟩ :=
    step_cases hstep
  · rfl
  · obtain ⟨input, phase, message, channel, -, hlive, rfl⟩ := receive_cases hstep
    rw [show s.dropped = true from hdropped] at hlive
    cases hlive
  · rfl
  · rfl

theorem dropped_step (hdropped : next.dropped = true) : s.dropped = true ∨ action = .drop := by
  obtain ⟨i, task, moved, -, -, -, -, rfl⟩ | ⟨i, -, hstep⟩ | ⟨-, -, -, rfl⟩ | ⟨hdrop, rfl⟩ :=
    step_cases hstep
  · exact .inl hdropped
  · obtain ⟨input, phase, message, channel, -, -, rfl⟩ := receive_cases hstep
    exact .inl hdropped
  · exact .inl hdropped
  · exact .inr hdrop

end Step

/-- What was returned from a task is what its stream has yielded first. -/
def Faithful (inner : List (InputStream M)) (s : SelectAll M) : Prop :=
  ∀ i input, inner[i]? = some input → s.emittedBy i <+: input.items

theorem Faithful.step {inner : List (InputStream M)} (h : s.Faithful inner) (hinv : s.Inv inner)
    (hstep : s.step queueSize action = some next) :
    next.Faithful inner := by
  intro i input hinput
  by_cases hdropped : next.dropped = true
  · have hemitted : next.emittedBy i = s.emittedBy i := by
      rw [emittedBy, emittedBy, emitted_of_dropped hstep hdropped]
    rw [hemitted]
    exact h i input hinput
  · have hnext := hinv.step hstep
    obtain ⟨task, htask⟩ := exists_getElem? hnext.length.symm hinput
    have hcarries := hnext.carries (.inl (Bool.eq_false_iff.mpr hdropped)) i _ input htask hinput
    exact ⟨_, hcarries.items⟩

/-- While the merged stream is read and has not ended, some task, channel or the end itself can
take a step. -/
theorem exists_step (hqueue : 0 < queueSize) (hdropped : s.dropped = false) :
    ∃ action next, action ≠ .drop ∧ s.step queueSize action = some next := by
  by_cases hended : s.tasks.all SelectTask.hasEnded
  · exact ⟨.finish, { s with ended := true }, by decide, by simp [step, hdropped, hended]⟩
  · simp only [List.all_eq_true, not_forall] at hended
    obtain ⟨task, htask, hopen⟩ := hended
    obtain ⟨i, hi⟩ := List.mem_iff_getElem?.mp htask
    obtain ⟨⟨items, last⟩, phase, channel⟩ := task
    have hreceive : channel ≠ [] → ∃ next, s.step queueSize (.receive i) = some next := by
      intro hchannel
      obtain ⟨message, rest, rfl⟩ := List.exists_cons_of_ne_nil hchannel
      simp [step, SelectAll.receive, hi, hdropped]
    cases phase with
    | polling =>
      refine ⟨.poll i, ?_⟩
      cases items with
      | nil => cases last <;> simp [step, hi, SelectTask.poll, InputStream.next, hdropped]
      | cons message items => simp [step, hi, SelectTask.poll, InputStream.next, hdropped]
    | sending message =>
      by_cases hroom : channel.length < queueSize
      · refine ⟨.send i, ?_⟩
        simp [step, hi, SelectTask.send, hdropped, hroom]
      · have hchannel : channel ≠ [] := by
          rintro rfl
          simp at hroom
          omega
        obtain ⟨next, hnext⟩ := hreceive hchannel
        exact ⟨.receive i, next, by simp, hnext⟩
    | returned | unwound =>
      have hchannel : channel ≠ [] := by
        rintro rfl
        simp [SelectTask.hasEnded, SelectPhase.isDone] at hopen
      obtain ⟨next, hnext⟩ := hreceive hchannel
      exact ⟨.receive i, next, by simp, hnext⟩

end SelectAll

end DatafusionDistributed
