import DatafusionDistributed.DistributedPlanner.NetworkBoundary
import DatafusionDistributed.Recursion

/-!
# `prepare_network_boundaries`

The last pass of the static planner. A boundary between two single tasks is removed. The stage
below any other boundary gets the head node that the consumer tasks need, and a number.
-/

namespace DatafusionDistributed

open Library Plan

variable {κ : Type}

/-- What `prepare_network_boundaries` does at one node. A local stage always has a plan. -/
def prepareNode (df : DataFusion κ) : Rewrite κ ℕ := fun plan taskCount stageId =>
  match plan.kind.inputStage, plan.children with
  | some (.localStage _ tasks), inputPlan :: _ =>
    if taskCount = 1 ∧ tasks = 1 then .ok ((inputPlan, true), stageId)
    else do
      let head ← plan.kind.producerHead df taskCount
      let inputPlan ← head.insert df inputPlan
      let kind := plan.kind.withInputStage (.localStage stageId tasks) (inputPlan.properties df)
      return ((.node kind none [inputPlan], true), stageId + 1)
  | _, _ => .ok ((plan, false), stageId)

/-- `prepare_network_boundaries`: the head stage runs in one task. -/
def prepareNetworkBoundaries (df : DataFusion κ) (plan : Plan κ) : Result (Plan κ) := do
  let ((plan, _), _) ← transformUpWithTaskCount df (prepareNode df) plan 1 1
  return plan

end DatafusionDistributed
