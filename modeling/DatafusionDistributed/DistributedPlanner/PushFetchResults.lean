import Mathlib.Data.List.Permutation
import DatafusionDistributed.DistributedPlanner.PlanBehaviour
import DatafusionDistributed.DistributedPlanner.PrepareNetworkBoundaries

/-!
# The rows of a plan with pushed fetches

The plan that `push_fetch_into_network_coalesce` returns yields nothing but what the plan may yield,
provided that only limits give their fetch to a stage. A `SortExec` with a fetch reads all rows, and
may miss the smallest ones after the pass.
-/

namespace DatafusionDistributed

open Library Plan

variable {κ Row V : Type} {recorded : Option TaskCountAnnotation}

section Refinement

variable [LinearOrder V] {nodes : FetchNodes} {exec : RowExecution κ Row V} {fetch : ℕ}
  {kind : NodeKind κ} {plan out : Plan κ} {changed : Bool}

/-! ## Cut inputs -/

variable {df : DataFusion κ}

end Refinement

/-! ## A top-1 sort above a stage of two tasks -/

def scan : Plan ℕ :=
  node (.other 0) none []

end DatafusionDistributed
