import DatafusionDistributed.DistributedPlanner.ElidedBoundaries
import DatafusionDistributed.DistributedPlanner.Restrictions

/-!
# The heads of planned stages

`ProducerHead::insert` takes a `RepartitionExec` or `BroadcastExec` off the top of the plan of a
stage before it puts a head on, whether or not it is an earlier head. This module looks at the plan
of a single node: which of its folds get a stage from which something is taken off, and which of
its broadcasts may be sized for another number of partitions than their stage has in the end.

`injectFrom_headsFit` carries the conditions over to the stages that are planned.
-/

namespace DatafusionDistributed

open Library Plan

variable {κ : Type} {session : Session κ} {df : DataFusion κ} {M : ℕ}

/-- The nodes that `ProducerHead::insert` takes off. -/
def NodeKind.isHead : NodeKind κ → Bool
  | .repartition _ _ | .broadcast _ => true
  | _ => false

variable {plan out : Plan κ} {kind parent : NodeKind κ} {recorded : Option TaskCountAnnotation}
  {children : List (Plan κ)} {taskCount : TaskCountAnnotation} {tasks : ℕ}

theorem Plan.withoutHead_of_not_head (h : plan.kind.isHead = false) : plan.withoutHead = plan := by
  obtain ⟨kind, recorded, children⟩ := plan
  cases kind <;> first | rfl | cases h

/-- The partition count of the plan depends on no `RepartitionExec` on several ranges, and on no
boundary that does not fit its stage. -/
inductive Plan.SeesFitting (df : DataFusion κ) : Plan κ → Prop
  | fixes {plan : Plan κ} : plan.kind.fixesCount = true → plan.kind.hasOneRange = true →
    SeesFitting df plan
  | seen {plan : Plan κ} : plan.kind.fixesCount = false →
    (plan.kind.isNetworkBoundary = true → plan.RemovalFits df) →
    (∀ child ∈ plan.children, SeesFitting df child) → SeesFitting df plan

namespace Plan.SeesFitting

theorem withRecorded (h : (node kind recorded children).SeesFitting df)
    (newRecorded : Option TaskCountAnnotation) :
    (node kind newRecorded children).SeesFitting df := by
  cases h with
  | fixes hfixes hrange => exact .fixes hfixes hrange
  | seen hfixes hfits hchildren => exact .seen hfixes hfits hchildren

theorem withTaskCount (h : plan.SeesFitting df) (taskCount : TaskCountAnnotation) :
    (plan.withTaskCount taskCount).SeesFitting df := by
  obtain ⟨kind, recorded, children⟩ := plan
  exact h.withRecorded _

end Plan.SeesFitting

/-- What follows for the stages of the planned nodes. -/
structure Plan.HeadsFit (df : DataFusion κ) (plan : Plan κ) : Prop where
  coalesce : ∀ exec, plan.kind = .networkCoalesce exec → ∀ staged ∈ plan.children,
    staged.withoutHead.kind.isHead = false
  broadcast : ∀ exec, plan.kind = .networkBroadcast exec → ∀ staged ∈ plan.children,
    staged.SeesFitting df

theorem Plan.HeadsFit.of_not_boundary (h : plan.kind.isNetworkBoundary = false) :
    plan.HeadsFit df := by
  constructor <;>
    · intro exec hexec
      rw [hexec] at h
      cases h

end DatafusionDistributed
