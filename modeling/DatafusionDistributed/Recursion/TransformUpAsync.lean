import DatafusionDistributed.Recursion.WithContext

/-!
# Rewriting all children of a node at once

`transform_up_async` rewrites the children of a node concurrently and only then looks at the
answers. Where it returns a plan it returns what `transform_up` returns. A child after one that
stopped is rewritten as well: its rewrite is dropped, but not an error of a node in it that does
not take its new children. `transformUpAsync_eq_iff` says exactly when this comes to light.
-/

namespace DatafusionDistributed

open Library

namespace Plan

variable {κ : Type}

/-- `transform_up`, by a callback that does not fail. -/
def transformUp (df : DataFusion κ) (f : Plan κ → Transformed (Plan κ)) (plan : Plan κ) :
    Result (Transformed (Plan κ)) :=
  (contextTree df).transformUp f (plan.height (fun _ => 1) + 1) plan

/-- `transform_up_async`, by a callback that does not fail. -/
def transformUpAsync (df : DataFusion κ) (f : Plan κ → Transformed (Plan κ)) (plan : Plan κ) :
    Result (Transformed (Plan κ)) :=
  (contextTree df).transformUpAsync (.panic "each child has a transformation result") f
    (plan.height (fun _ => 1) + 1) plan

/-- The subtrees that `transform_up` leaves out: the children of some node after one on which it
answers `Stop`. -/
def LeftOut (df : DataFusion κ) (f : Plan κ → Transformed (Plan κ)) : Plan κ → Plan κ → Prop :=
  (contextTree df).LeftOut (transformUp df f)

/-- The plan, the flag and the answer of `transform_up_async` are those of `transform_up`. It
returns them exactly if `transform_up` returns, and would return from every subtree that it leaves
out. -/
theorem transformUpAsync_eq_iff (df : DataFusion κ) (f : Plan κ → Transformed (Plan κ))
    (plan : Plan κ) :
    (∀ result, plan.transformUpAsync df f = .ok result → plan.transformUp df f = .ok result) ∧
      ∀ result, plan.transformUp df f = .ok result →
        (plan.transformUpAsync df f = .ok result ↔
          ∀ subtree, plan.LeftOut df f subtree → ∃ out, subtree.transformUp df f = .ok out) := by
  have hrefines : ∀ result, plan.transformUpAsync df f = .ok result →
      plan.transformUp df f = .ok result := fun _ => TreeNode.transformUp_of_async
  have hiff : (∃ result, plan.transformUpAsync df f = .ok result) ↔
      (∃ result, plan.transformUp df f = .ok result) ∧
        ∀ subtree, plan.LeftOut df f subtree → ∃ out, subtree.transformUp df f = .ok out :=
    TreeNode.exists_transformUpAsync_iff
      (fun _ _ hchild => height_child_lt (fun _ => Nat.one_pos) hchild)
      (Nat.lt_succ_self (plan.height fun _ => 1))
  refine ⟨hrefines, fun result h => ⟨fun hasync => (hiff.mp ⟨result, hasync⟩).2, fun hleft => ?_⟩⟩
  obtain ⟨other, hother⟩ := hiff.mpr ⟨⟨result, h⟩, hleft⟩
  have hsame := hrefines other hother
  rw [h] at hsame
  cases hsame
  exact hother

end Plan

/-- An `InterleaveExec`, number 0 here, takes inputs with as many partitions. -/
def interleaving : DataFusion ℕ :=
  { DataFusion.ofLeaves (· / 2) with
    check := fun kind inputs => match kind, inputs with
      | .other 0, [left, right] =>
        if left.partitionCount = right.partitionCount then .ok () else
          .error (.internal "Can not create InterleaveExec: new children can not be interleaved")
      | _, _ => .ok () }

def scanOf (op : ℕ) : Plan ℕ := .node (.other op) none []

/-- It stops at one leaf, and puts a leaf with more partitions in the place of another. -/
def stopAtFirst (plan : Plan ℕ) : Transformed (Plan ℕ) :=
  match plan.kind with
  | .other 1 => ⟨plan, false, .stop⟩
  | .other 2 => ⟨scanOf 4, true, .continues⟩
  | _ => ⟨plan, false, .continues⟩

def interleavedScans : Plan ℕ :=
  .node .union none [scanOf 1, .node (.other 0) none [scanOf 2, scanOf 3]]

/-- After a stop `transform_up` does not come to the node that cannot be rebuilt. -/
theorem transformUpAsync_fails_after_stop :
    interleavedScans.transformUp interleaving stopAtFirst =
        .ok ⟨interleavedScans, false, .stop⟩ ∧
      interleavedScans.transformUpAsync interleaving stopAtFirst = .error
        (.internal "Can not create InterleaveExec: new children can not be interleaved") :=
  ⟨rfl, rfl⟩

end DatafusionDistributed
