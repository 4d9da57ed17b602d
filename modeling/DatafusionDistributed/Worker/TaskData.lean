import DatafusionDistributed.DistributedPlanner.NetworkBoundary

/-!
# `TaskData`

The plan of one task on its worker. The plan that the coordinator sent is kept as it is; the plan
that is executed gets its head node from the first request that arrives. All requests that come
later are served from the same plan, whatever head they ask for.
-/

namespace DatafusionDistributed

variable {κ : Type}

/-- `TaskData`. The final plan is set at most once. -/
structure TaskData (κ : Type) where
  basePlan : Plan κ
  finalPlan : Option (Result (Plan κ)) := none

namespace TaskData

/-- The result as it is handed out: an error that is kept is shared by all who ask. -/
def share : Result (Plan κ) → Result (Plan κ)
  | .ok plan => .ok plan
  | .error error => .error (.shared error)

/-- `TaskData::plan`. A panic leaves the final plan unset. -/
def plan (df : DataFusion κ) (self : TaskData κ) (producerHead : ProducerHead κ) :
    Result (Plan κ) × TaskData κ :=
  match self.finalPlan with
  | some result => (share result, self)
  | none =>
    match producerHead.insert df self.basePlan with
    | .error (.panic message) => (.error (.panic message), self)
    | result => (share result, { self with finalPlan := some result })

/-- The plans with which a worker serves requests for these heads, in the order of arrival. -/
def serve (df : DataFusion κ) : TaskData κ → List (ProducerHead κ) → List (Result (Plan κ))
  | _, [] => []
  | self, head :: heads =>
    let (result, next) := self.plan df head
    result :: serve df next heads

variable {df : DataFusion κ} {final : Plan κ} {head : ProducerHead κ}

theorem plan_first {basePlan : Plan κ} :
    ((⟨basePlan, none⟩ : TaskData κ).plan df head).1 = .ok final ↔
      head.insert df basePlan = .ok final := by
  unfold plan
  cases hinsert : head.insert df basePlan with
  | ok inserted => rfl
  | error error =>
    constructor
    · intro h
      cases error <;> cases h
    · intro h
      cases h

/-- One request that asks for the head of the final plan keeps the final plan. -/
theorem plan_step {self : TaskData κ} (hinsert : head.insert df self.basePlan = .ok final)
    (hself : self.finalPlan = none ∨ self.finalPlan = some (.ok final)) :
    (self.plan df head).1 = .ok final ∧ (self.plan df head).2.basePlan = self.basePlan ∧
      (self.plan df head).2.finalPlan = some (.ok final) := by
  unfold plan
  rcases hself with hnone | hsome
  · rw [hnone, hinsert]
    exact ⟨rfl, rfl, rfl⟩
  · rw [hsome]
    exact ⟨rfl, rfl, hsome⟩

/-- Requests that all ask for the same head are served from the same plan, in any order. -/
theorem serve_eq {self : TaskData κ} (hinsert : head.insert df self.basePlan = .ok final)
    (hself : self.finalPlan = none ∨ self.finalPlan = some (.ok final))
    {heads : List (ProducerHead κ)} (hheads : ∀ other ∈ heads, other = head) :
    self.serve df heads = heads.map fun _ => .ok final := by
  induction heads generalizing self with
  | nil => rfl
  | cons other heads ih =>
    obtain ⟨hresult, hbase, hfinal⟩ := plan_step hinsert hself
    rw [hheads other List.mem_cons_self, List.map_cons]
    change (self.plan df head).1 :: serve df (self.plan df head).2 heads = _
    rw [hresult, ih (hbase ▸ hinsert) (.inr hfinal) fun next hnext =>
      hheads next (List.mem_cons_of_mem _ hnext)]

end TaskData

end DatafusionDistributed
