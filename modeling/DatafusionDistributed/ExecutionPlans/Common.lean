import DatafusionDistributed.Common

/-!
# Partitionings and plan properties

The partitioning a plan advertises, and the three ways the boundary nodes rescale it: for the
output of a coalesce, for the producer head of a shuffle, and for the salted producer head of
a two-phase shuffle.

Split points of a range partitioning have an arbitrary type `κ`. Scaling a range partitioning
is DataFusion's own function and enters as the parameter `scale`.
-/

namespace DatafusionDistributed

/-- A physical expression: an expression of the query, known by a number, or a literal. -/
inductive PhysicalExpr where
  | expr (id : ℕ)
  | literal (value : ℕ)
  deriving DecidableEq, Repr

/-- `RangePartitioning`: `n` split points separate `n + 1` ranges. -/
structure RangePartitioning (κ : Type) where
  splitPoints : List κ
  deriving DecidableEq, Repr

def RangePartitioning.partitionCount {κ : Type} (self : RangePartitioning κ) : ℕ :=
  self.splitPoints.length + 1

inductive Partitioning (κ : Type) where
  | roundRobinBatch (n : ℕ)
  | hash (exprs : List PhysicalExpr) (n : ℕ)
  | unknownPartitioning (n : ℕ)
  | range (range : RangePartitioning κ)
  deriving DecidableEq, Repr

/-- DataFusion's `RangePartitioning::scale`. -/
abbrev RangeScale (κ : Type) := RangePartitioning κ → ℕ → Result (RangePartitioning κ)

namespace Partitioning

variable {κ : Type}

def partitionCount : Partitioning κ → ℕ
  | roundRobinBatch n | hash _ n | unknownPartitioning n => n
  | range r => r.partitionCount

@[simp] theorem partitionCount_unknownPartitioning (n : ℕ) :
    (unknownPartitioning n : Partitioning κ).partitionCount = n := rfl

@[simp] theorem partitionCount_hash (exprs : List PhysicalExpr) (n : ℕ) :
    (hash exprs n : Partitioning κ).partitionCount = n := rfl

def isRange : Partitioning κ → Bool
  | range _ => true
  | _ => false

/-- `salted_partitioning`: the salt becomes one more hashed expression, and there is one
partition for each consumer task. -/
def salted (partitioning : Partitioning κ) (salt consumerTaskCount : ℕ) :
    Result (Partitioning κ) :=
  match partitioning with
  | hash exprs _ => .ok (hash (exprs ++ [.literal salt]) consumerTaskCount)
  | _ => .error (.notImplemented "salted_partitioning only supports Hash partitioning")

/-- `coalesce_partitioning`: ranges repeated by several tasks are no range partitioning. -/
def coalesce (partitioning : Partitioning κ) (taskMultiplier : ℕ) : Partitioning κ :=
  match partitioning with
  | roundRobinBatch p => roundRobinBatch (p * taskMultiplier)
  | hash exprs p => hash exprs (p * taskMultiplier)
  | unknownPartitioning p => unknownPartitioning (p * taskMultiplier)
  | range r =>
    if taskMultiplier ≤ 1 then range r
    else unknownPartitioning (r.partitionCount * taskMultiplier)

/-- `scale_shuffle_partitioning`: a range shuffle has one partition for each consumer task. -/
def scaleShuffle (scale : RangeScale κ) (partitioning : Partitioning κ) (consumerTasks : ℕ) :
    Result (Partitioning κ) :=
  match partitioning with
  | roundRobinBatch p => .ok (roundRobinBatch (p * consumerTasks))
  | hash exprs p => .ok (hash exprs (p * consumerTasks))
  | unknownPartitioning p => .ok (unknownPartitioning (p * consumerTasks))
  | range r => range <$> scale r consumerTasks

/-- A coalesce multiplies the partitions, for every kind of partitioning. -/
theorem partitionCount_coalesce (partitioning : Partitioning κ) {taskMultiplier : ℕ}
    (h : 0 < taskMultiplier) :
    (partitioning.coalesce taskMultiplier).partitionCount =
      partitioning.partitionCount * taskMultiplier := by
  cases partitioning with
  | roundRobinBatch p | hash exprs p | unknownPartitioning p => rfl
  | range r =>
    rw [coalesce]
    split
    · have hone : taskMultiplier = 1 := by omega
      rw [hone, Nat.mul_one]
    · rfl

end Partitioning

/-- What the modelled code reads of DataFusion's equivalence properties: the orderings that every
output partition has, the constants that hold in one partition each, and the classes of equal
expressions. -/
structure EquivalenceProperties where
  orderings : List (List PhysicalExpr) := []
  perPartitionConstants : List PhysicalExpr := []
  eqGroup : List (List PhysicalExpr) := []
  deriving DecidableEq, Repr

namespace EquivalenceProperties

/-- `output_ordering`: all orderings, one after the other. -/
def outputOrdering (self : EquivalenceProperties) : Option (List PhysicalExpr) :=
  if self.orderings.isEmpty then none else some self.orderings.flatten

def clearPerPartitionConstants (self : EquivalenceProperties) : EquivalenceProperties :=
  { self with perPartitionConstants := [] }

@[simp] theorem outputOrdering_toList (ordering : Option (List PhysicalExpr)) :
    ({ orderings := ordering.toList } : EquivalenceProperties).outputOrdering = ordering := by
  cases ordering <;> simp [outputOrdering]

end EquivalenceProperties

structure PlanProperties (κ : Type) where
  eqProperties : EquivalenceProperties
  partitioning : Partitioning κ
  deriving DecidableEq, Repr

namespace PlanProperties

variable {κ : Type}

def partitionCount (self : PlanProperties κ) : ℕ :=
  self.partitioning.partitionCount

def withPartitioning (self : PlanProperties κ) (partitioning : Partitioning κ) :
    PlanProperties κ :=
  { self with partitioning }

@[simp] theorem partitionCount_withPartitioning (self : PlanProperties κ)
    (partitioning : Partitioning κ) :
    (self.withPartitioning partitioning).partitionCount = partitioning.partitionCount := rfl

/-- `coalesce_partitioning_props`. -/
def coalesce (self : PlanProperties κ) (taskMultiplier : ℕ) : PlanProperties κ :=
  { self with partitioning := self.partitioning.coalesce taskMultiplier }

theorem partitionCount_coalesce (self : PlanProperties κ) {taskMultiplier : ℕ}
    (h : 0 < taskMultiplier) :
    (self.coalesce taskMultiplier).partitionCount = self.partitionCount * taskMultiplier :=
  self.partitioning.partitionCount_coalesce h

end PlanProperties

end DatafusionDistributed
