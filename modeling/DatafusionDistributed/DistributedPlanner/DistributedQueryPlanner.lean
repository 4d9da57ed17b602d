import DatafusionDistributed.DistributedPlanner.CollectJoins
import DatafusionDistributed.DistributedPlanner.PrepareNetworkBoundaries

/-!
# `create_distributed_plan`

The passes of the static planner in the order in which they run, up to the prepared plan.
-/

namespace DatafusionDistributed

open Library

variable {κ : Type} {session : Session κ} {df : DataFusion κ}

def preparePlan (session : Session κ) (df : DataFusion κ) (plan : Plan κ) : Result (Plan κ) := do
  let plan ← normalizeCollectJoins session df plan
  let plan ← insertBroadcastExecs session df (coalesceRoot df plan)
  insertChildrenIsolatorUnions session df plan

/-- `create_distributed_plan` with static task counts, up to the prepared boundaries. -/
def createDistributedPlan (session : Session κ) (df : DataFusion κ) (plan : Plan κ) :
    Result (Plan κ) := do
  let plan ← preparePlan session df plan
  let plan ← injectNetworkBoundaries session df (cardinalityBasedBuilder session df) plan
  prepareNetworkBoundaries df plan

variable {plan out : Plan κ}

theorem preparePlan_ok (h : preparePlan session df plan = .ok out) :
    ∃ normalized broadcast, normalizeCollectJoins session df plan = .ok normalized ∧
      insertBroadcastExecs session df (coalesceRoot df normalized) = .ok broadcast ∧
      insertChildrenIsolatorUnions session df broadcast = .ok out := by
  obtain ⟨normalized, hnormalized, h⟩ := bind_ok_iff.mp h
  obtain ⟨broadcast, hbroadcast, h⟩ := bind_ok_iff.mp h
  exact ⟨normalized, broadcast, hnormalized, hbroadcast, h⟩

/-- The passes before injection keep a plan of a single node one, and broadcast the build side
of every join that may be broadcast. -/
theorem preparePlan_buildReady (hplan : plan.SingleNode)
    (h : preparePlan session df plan = .ok out) :
    out.Everywhere (Plan.BuildReady session) := by
  obtain ⟨normalized, broadcast, hnormalized, hbroadcast, hunions⟩ := preparePlan_ok h
  have hroot : (coalesceRoot df normalized).SingleNode :=
    coalesceRoot_singleNode (normalizeCollectJoins_singleNode hplan hnormalized)
  exact insertChildrenIsolatorUnions_buildReady
    (insertBroadcastExecs_buildReady hroot hbroadcast) hunions

theorem preparePlan_singleNode (hplan : plan.SingleNode)
    (h : preparePlan session df plan = .ok out) :
    out.SingleNode :=
  (preparePlan_buildReady hplan h).imp fun _ hready => hready.toIsLocal

theorem createDistributedPlan_ok (h : createDistributedPlan session df plan = .ok out) :
    ∃ prepared injected, preparePlan session df plan = .ok prepared ∧
      injectNetworkBoundaries session df (cardinalityBasedBuilder session df) prepared
        = .ok injected ∧
      prepareNetworkBoundaries df injected = .ok out := by
  obtain ⟨prepared, hprepared, h⟩ := bind_ok_iff.mp h
  obtain ⟨injected, hinjected, h⟩ := bind_ok_iff.mp h
  exact ⟨prepared, injected, hprepared, hinjected, h⟩

end DatafusionDistributed
