import DatafusionDistributed.ExecutionPlans.Common
import DatafusionDistributed.Library.Checked

/-!
# `DistributedLeafExec`

A leaf with one variant for each task. The variants have to agree with each other, but not with
the leaf they were made from. Executed as the only task of a stage, the node reads the leaf it was
made from.

The plans of the leaves have an arbitrary type `P`.
-/

namespace DatafusionDistributed

open Library

variable {κ P : Type}

structure DistributedLeafExec (κ P : Type) where
  original : P
  properties : PlanProperties κ
  variants : List P

namespace DistributedLeafExec

/-- The checks of a variant against the first one. All variants of one scan have its schema, so
the comparison of schemas is left out. -/
def checkVariant (prev new : PlanProperties κ) : Result Unit :=
  let prevPartitionCount := prev.partitionCount
  let newPartitionCount := new.partitionCount
  let prevOutputOrdering := reprStr prev.eqProperties.outputOrdering
  let newOutputOrdering := reprStr new.eqProperties.outputOrdering
  if prevPartitionCount ≠ newPartitionCount then
    .error (.plan ("Different partition count where provided in two different variants of " ++
      s!"DistributedLeafExec: {prevPartitionCount} vs {newPartitionCount}"))
  else if prev.eqProperties.outputOrdering ≠ new.eqProperties.outputOrdering then
    .error (.plan ("Different output orderings where provided in two different variants of " ++
      s!"DistributedLeafExec: {prevOutputOrdering} vs {newOutputOrdering}"))
  else .ok ()

def tryNew (properties : P → PlanProperties κ) (original : P) (variants : List P) :
    Result (DistributedLeafExec κ P) :=
  match variants with
  | [] => .error (.plan "Empty list of variants was provided to DistributedLeafExec")
  | first :: rest => do
    rest.forM fun plan => checkVariant (properties first) (properties plan)
    return { original, properties := properties first, variants := first :: rest }

/-- `execute`, with the leaves executed by `run`. -/
def execute {R : Type} (run : P → ℕ → Result R) (self : DistributedLeafExec κ P) (partition : ℕ)
    (ctx : DistributedTaskContext) : Result R :=
  let taskIndex := ctx.taskIndex
  let length := self.variants.length
  if ctx.taskCount = 1 then run self.original partition
  else match self.variants[taskIndex]? with
    | none => .error (.execution
        s!"Task index {taskIndex} out of range for a per_task vector of length {length}")
    | some plan => run plan partition

theorem checkVariant_ok {prev new : PlanProperties κ} :
    checkVariant prev new = .ok () ↔ new.partitionCount = prev.partitionCount ∧
      new.eqProperties.outputOrdering = prev.eqProperties.outputOrdering := by
  unfold checkVariant
  dsimp only
  split
  · rename_i hcount
    constructor
    · intro h
      cases h
    · rintro ⟨h, -⟩
      exact absurd h.symm hcount
  · rename_i hcount
    split
    · rename_i hordering
      constructor
      · intro h
        cases h
      · rintro ⟨-, h⟩
        exact absurd h.symm hordering
    · rename_i hordering
      rw [not_not] at hcount hordering
      exact ⟨fun _ => ⟨hcount.symm, hordering.symm⟩, fun _ => rfl⟩

/-- `try_new` succeeds if and only if there is a first variant and the others agree with it. -/
theorem tryNew_ok {properties : P → PlanProperties κ} {original : P} {variants : List P}
    {leaf : DistributedLeafExec κ P} :
    tryNew properties original variants = .ok leaf ↔ ∃ first ∈ variants.head?,
      leaf = ⟨original, properties first, variants⟩ ∧ ∀ plan ∈ variants,
        (properties plan).partitionCount = (properties first).partitionCount ∧
          (properties plan).eqProperties.outputOrdering =
            (properties first).eqProperties.outputOrdering := by
  cases variants with
  | nil => simp [tryNew]
  | cons first rest =>
    simp only [tryNew, bind_ok_iff, List.head?_cons, Option.mem_some_iff, exists_eq_left',
      List.forall_mem_cons, true_and]
    constructor
    · rintro ⟨_, hchecks, hleaf⟩
      cases hleaf
      exact ⟨rfl, fun plan hplan => checkVariant_ok.mp (forM_ok_iff.mp hchecks plan hplan)⟩
    · rintro ⟨rfl, hagree⟩
      exact ⟨(), forM_ok_iff.mpr fun plan hplan => checkVariant_ok.mpr (hagree plan hplan), rfl⟩

end DistributedLeafExec

end DatafusionDistributed
