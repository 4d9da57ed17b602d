import Mathlib.Algebra.Order.BigOperators.Group.List
import Mathlib.Data.List.GetD
import Mathlib.Data.List.Sort
import Mathlib.Data.Nat.ModEq
import DatafusionDistributed.Events.DesiredTaskCount
import DatafusionDistributed.Library.Checked
import DatafusionDistributed.Library.RoundRobin

/-!
# Splitting the tasks of a union among its children

`split_children` turns the annotations of the children of a union and the number of tasks
the union runs in into a task map: for every outer task, the children it runs and the
context each of them runs with. The steps carry the numbers of the comments in the source.
-/

namespace DatafusionDistributed

open Library

/-- One entry of the task map: a child index and the context that child runs with. -/
abbrev ChildTask := ℕ × DistributedTaskContext

namespace SplitChildren

/-! ## Step 1: validation -/

def validateRestriction (budget i : ℕ) (child : TaskCountAnnotation) : Result Unit :=
  match child.restriction with
  | .exact exact =>
    if exact > budget then
      .error (.plan (s!"ChildrenIsolatorUnionExec child {i} requires {exact.val} tasks, " ++
        s!"but the union has only {budget}"))
    else .ok ()
  | _ =>
    match child.getMin with
    | some minimum =>
      if minimum > budget then
        .error (.plan (s!"ChildrenIsolatorUnionExec child {i} requires at least {minimum.val} " ++
          s!"tasks, but the union has only {budget}"))
      else .ok ()
    | none => .ok ()

def validateChild (budget i : ℕ) (child : TaskCountAnnotation) : Result Unit := do
  validateRestriction budget i child
  if child.soft < 0 then
    .error (.plan (s!"ChildrenIsolatorUnionExec child {i} has a negative " ++
      s!"soft task-count estimate of {child.soft}, which is invalid."))
  else .ok ()

def validate (children : List TaskCountAnnotation) (budget : ℕ) : Result Unit := do
  if budget = 0 then
    .error (.internal (s!"ChildrenIsolatorUnionExec had a task count {budget}. " ++
      "This is a bug in the distributed planning logic, please report it"))
  else if children.isEmpty then
    .error (.internal ("ChildrenIsolatorUnionExec built with no children. " ++
      "This is a bug in the distributed planning logic, please report it"))
  else children.zipIdx.forM fun (child, i) => validateChild budget i child

/-! ## Step 2: fractional shares -/

def exactTotal (children : List TaskCountAnnotation) : ℕ :=
  (children.filterMap fun child => child.getExact.map PNat.val).sum

def totalWeight (children : List TaskCountAnnotation) : ℚ :=
  (children.map TaskCountAnnotation.soft).sum

def flexibleCount (children : List TaskCountAnnotation) : ℕ :=
  (children.filter fun child => child.getExact.isNone).length

def unroundedChildTaskCounts (children : List TaskCountAnnotation) (budget : ℕ) : List ℚ :=
  if totalWeight children > 0 then
    children.map fun child => budget * child.soft / totalWeight children
  else if flexibleCount children > 0 then
    let flexibleBudget := budget - exactTotal children
    children.map fun child =>
      if child.getExact.isSome then 0 else (flexibleBudget : ℚ) / flexibleCount children
  else List.replicate children.length 0

/-! ## Step 3: largest remainders -/

def remainder (unrounded : List ℚ) (idx : ℕ) : ℚ :=
  unrounded.getD idx 0 - ⌊unrounded.getD idx 0⌋

/-- Children by falling remainder; the lower index goes first on ties. -/
def order (unrounded : List ℚ) : List ℕ :=
  (List.range unrounded.length).insertionSort fun a b =>
    remainder unrounded b < remainder unrounded a ∨
      remainder unrounded a = remainder unrounded b ∧ a ≤ b

/-- One more slot for each index of the list, until the slots run out. -/
def giveSlots : List ℕ → ℕ → List ℕ → List ℕ
  | [], _, counts => counts
  | _, 0, counts => counts
  | idx :: rest, unallocated + 1, counts =>
    giveSlots rest unallocated (counts.modify idx (· + 1))

def roundedCounts (children : List TaskCountAnnotation) (budget : ℕ) (unrounded : List ℚ) :
    List ℕ :=
  let floors := unrounded.map fun x => ⌊x⌋.toNat
  if totalWeight children > 0 then
    giveSlots (order unrounded) (budget - floors.sum) floors
  else floors

/-! ## Step 4: minimums and maximums -/

def clampCount (taskCount : ℕ) (child : TaskCountAnnotation) : ℕ :=
  let raised := match child.getMin with
    | some min => max taskCount min
    | none => taskCount
  match child.getMax with
  | some max => min raised max
  | none => raised

def clampCounts (counts : List ℕ) (children : List TaskCountAnnotation) : List ℕ :=
  counts.zipWith clampCount children

/-! ## Step 5: unused slots -/

/-- The child may still grow: it has no maximum, or is below it. -/
def belowMax (children : List TaskCountAnnotation) (counts : List ℕ) (idx : ℕ) : Bool :=
  match children[idx]?.bind TaskCountAnnotation.getMax with
  | some max => decide (counts.getD idx 0 < max)
  | none => true

def deficit (unrounded : List ℚ) (counts : List ℕ) (idx : ℕ) : ℚ :=
  unrounded.getD idx 0 - counts.getD idx 0

/-- The comparison used by `max_by`: `a` beats `b`. -/
def beats (unrounded : List ℚ) (counts : List ℕ) (a b : ℕ) : Bool :=
  decide (deficit unrounded counts b < deficit unrounded counts a ∨
    deficit unrounded counts a = deficit unrounded counts b ∧ a < b)

/-- `max_by`: later elements win ties. -/
def maxBy (gt : ℕ → ℕ → Bool) : List ℕ → Option ℕ
  | [] => none
  | x :: rest => some (rest.foldl (fun best y => if gt best y then best else y) x)

def nextChild (children : List TaskCountAnnotation) (unrounded : List ℚ) (counts : List ℕ) :
    Option ℕ :=
  maxBy (beats unrounded counts) ((List.range children.length).filter (belowMax children counts))

/-- The `while` loop of step 5, on the number of slots left. -/
def fillSlots (children : List TaskCountAnnotation) (unrounded : List ℚ) :
    ℕ → List ℕ → List ℕ
  | 0, counts => counts
  | unallocated + 1, counts =>
    match nextChild children unrounded counts with
    | none => counts
    | some idx => fillSlots children unrounded unallocated (counts.modify idx (· + 1))

/-- The number of tasks of every child after steps 2 to 5. -/
def childTaskCounts (children : List TaskCountAnnotation) (budget : ℕ) : List ℕ :=
  let unrounded := unroundedChildTaskCounts children budget
  let imposed := clampCounts (roundedCounts children budget unrounded) children
  fillSlots children unrounded (budget - imposed.sum) imposed

/-! ## Steps 6 and 7: placement -/

/-- Step 6: the tasks of every child go to consecutive outer slots, wrapping at the budget.
The state is the map so far and the number of tasks placed. -/
def placeTasks (counts : List ℕ) (budget : ℕ) : List (List ChildTask) × ℕ :=
  counts.zipIdx.foldl
    (fun state (taskCount, childIdx) =>
      (List.range taskCount).foldl
        (fun state taskI => dealOne (· % budget) state (childIdx, ⟨taskI, taskCount⟩)) state)
    (List.replicate budget [], 0)

/-- Step 7: a child without a slot runs once, in a slot that is already occupied. -/
def placeZeroAllocations (counts : List ℕ) (budget : ℕ) (state : List (List ChildTask) × ℕ) :
    List (List ChildTask) :=
  if state.2 > 0 then
    (counts.zipIdx.foldl
      (fun (acc : List (List ChildTask) × ℕ) (taskCount, childIdx) =>
        if taskCount ≠ 0 then acc
        else dealOne (· % min state.2 budget) acc (childIdx, ⟨0, 1⟩))
      (state.1, 0)).1
  else state.1

end SplitChildren

open SplitChildren in
/-- `split_children`: the task map has one row for each task of the budget. -/
def splitChildren (children : List TaskCountAnnotation) (budget : ℕ) :
    Result (List (List ChildTask)) := do
  validate children budget
  let counts := childTaskCounts children budget
  return placeZeroAllocations counts budget (placeTasks counts budget)

namespace SplitChildren

/-! ## Lengths -/

@[simp] theorem length_unroundedChildTaskCounts (children : List TaskCountAnnotation) (budget : ℕ) :
    (unroundedChildTaskCounts children budget).length = children.length := by
  unfold unroundedChildTaskCounts
  split
  · simp
  · split <;> simp

@[simp] theorem length_giveSlots (order : List ℕ) (unallocated : ℕ) (counts : List ℕ) :
    (giveSlots order unallocated counts).length = counts.length := by
  induction order generalizing unallocated counts with
  | nil => simp [giveSlots]
  | cons idx rest ih =>
    cases unallocated with
    | zero => simp [giveSlots]
    | succ unallocated => simp [giveSlots, ih]

@[simp] theorem length_roundedCounts (children : List TaskCountAnnotation) (budget : ℕ)
    (unrounded : List ℚ) :
    (roundedCounts children budget unrounded).length = unrounded.length := by
  unfold roundedCounts
  dsimp only
  split <;> simp

@[simp] theorem length_fillSlots (children : List TaskCountAnnotation) (unrounded : List ℚ)
    (unallocated : ℕ) (counts : List ℕ) :
    (fillSlots children unrounded unallocated counts).length = counts.length := by
  induction unallocated generalizing counts with
  | zero => rfl
  | succ unallocated ih =>
    rw [fillSlots]
    split
    · rfl
    · rw [ih, List.length_modify]

@[simp] theorem length_childTaskCounts (children : List TaskCountAnnotation) (budget : ℕ) :
    (childTaskCounts children budget).length = children.length := by
  simp [childTaskCounts, clampCounts]

/-! ## Some child always gets a slot -/

theorem foldl_best_mem (gt : ℕ → ℕ → Bool) (rest : List ℕ) (x : ℕ) :
    rest.foldl (fun best y => if gt best y then best else y) x ∈ x :: rest := by
  induction rest generalizing x with
  | nil => simp
  | cons y rest ih =>
    rw [List.foldl_cons]
    split
    · exact List.cons_subset_cons x (List.subset_cons_self y rest) (ih x)
    · exact List.mem_cons_of_mem _ (ih y)

variable {idx unallocated budget i : ℕ} {children : List TaskCountAnnotation} {unrounded : List ℚ}
  {counts : List ℕ} {child : TaskCountAnnotation}

theorem maxBy_mem {gt : ℕ → ℕ → Bool} {xs : List ℕ} (h : maxBy gt xs = some idx) :
    idx ∈ xs := by
  cases xs with
  | nil => cases h
  | cons x rest =>
    cases h
    exact foldl_best_mem gt rest x

/-- The child chosen for an unused slot exists and is below its maximum. -/
theorem nextChild_spec (h : nextChild children unrounded counts = some idx) :
    idx < children.length ∧ belowMax children counts idx = true := by
  have hmem := maxBy_mem h
  simpa using hmem

theorem nextChild_none (h : nextChild children unrounded counts = none)
    (hidx : idx < children.length) : belowMax children counts idx = false := by
  unfold nextChild at h
  cases hxs : (List.range children.length).filter (belowMax children counts) with
  | nil =>
    rw [List.filter_eq_nil_iff] at hxs
    simpa using hxs idx (List.mem_range.mpr hidx)
  | cons x rest => simp [hxs, maxBy] at h

theorem sum_modify_succ (h : idx < counts.length) :
    (counts.modify idx (· + 1)).sum = counts.sum + 1 := by
  induction counts generalizing idx with
  | nil => simp at h
  | cons n counts ih =>
    cases idx with
    | zero => simp [Nat.add_right_comm]
    | succ idx => simp [ih (by simpa using h), Nat.add_assoc]

theorem sum_le_sum_fillSlots (hlen : counts.length = children.length) :
    counts.sum ≤ (fillSlots children unrounded unallocated counts).sum := by
  induction unallocated generalizing counts with
  | zero => exact le_refl _
  | succ unallocated ih =>
    rw [fillSlots]
    split
    · exact le_refl _
    · rename_i idx hnext
      have hidx := (nextChild_spec hnext).1
      have hstep := sum_modify_succ (show idx < counts.length by omega)
      have hrest := @ih (counts.modify idx (· + 1)) (by simpa using hlen)
      omega

theorem belowMax_of_zero (h : counts.getD idx 0 = 0) : belowMax children counts idx = true := by
  unfold belowMax
  split
  · rename_i m _
    rw [h]
    exact decide_eq_true m.pos
  · rfl

/-- Step 5 starts with every slot unused when no child has a task, so it hands one out. -/
theorem fillSlots_sum_pos (hne : children ≠ []) (hlen : counts.length = children.length)
    (hslots : 0 < counts.sum ∨ 0 < unallocated) :
    0 < (fillSlots children unrounded unallocated counts).sum := by
  by_cases hsum : 0 < counts.sum
  · exact lt_of_lt_of_le hsum (sum_le_sum_fillSlots hlen)
  · have hun : 0 < unallocated := hslots.resolve_left hsum
    obtain ⟨k, rfl⟩ := Nat.exists_eq_succ_of_ne_zero hun.ne'
    have hlt : 0 < children.length := List.length_pos_iff.mpr hne
    have hzero : counts.getD 0 0 = 0 := by
      have hle := List.le_sum_of_mem (List.getElem_mem (show 0 < counts.length by omega))
      rw [List.getD_eq_getElem _ _ (by omega)]
      omega
    rw [fillSlots]
    cases hnext : nextChild children unrounded counts with
    | none =>
      have := nextChild_none hnext hlt
      simp [belowMax_of_zero hzero] at this
    | some idx =>
      have hidx := (nextChild_spec hnext).1
      have hstep := sum_modify_succ (show idx < counts.length by omega)
      have hrest : (counts.modify idx (· + 1)).sum ≤
          (fillSlots children unrounded k (counts.modify idx (· + 1))).sum :=
        sum_le_sum_fillSlots (by simpa using hlen)
      dsimp only
      omega

theorem childTaskCounts_sum_pos (hne : children ≠ []) (hbudget : 0 < budget) :
    0 < (childTaskCounts children budget).sum := by
  apply fillSlots_sum_pos hne
  · simp [clampCounts]
  · omega

/-! ## Every child stays within its bounds -/

/-- The count respects the minimum and the maximum of the child, if it has them. -/
def Within (child : TaskCountAnnotation) (count : ℕ) : Prop :=
  (∀ m, child.getMin = some m → (m : ℕ) ≤ count) ∧ ∀ m, child.getMax = some m → count ≤ m

theorem within_clampCount (count : ℕ) (child : TaskCountAnnotation) :
    Within child (clampCount count child) := by
  obtain ⟨soft, restriction⟩ := child
  cases restriction with
  | range lo hi lt =>
    rw [← PNat.coe_lt_coe] at lt
    simp only [Within, clampCount, TaskCountAnnotation.getMin, TaskCountAnnotation.getMax,
      Option.some.injEq, forall_eq']
    omega
  | none | exact e | min m | max m =>
    simp [Within, clampCount, TaskCountAnnotation.getMin, TaskCountAnnotation.getMax]

/-- Running a child without slots once, as step 7 does, keeps its restriction. -/
theorem Within.allows {count : ℕ} (h : Within child count) :
    child.restriction.Allows (max count 1) := by
  obtain ⟨soft, restriction⟩ := child
  obtain ⟨hmin, hmax⟩ := h
  cases restriction with
  | none => simp [TaskCountRestriction.Allows]
  | exact e =>
    have h1 := hmin e rfl
    have h2 := hmax e rfl
    have h3 := e.pos
    simp only [TaskCountRestriction.Allows]
    omega
  | min m =>
    have h1 := hmin m rfl
    simp only [TaskCountRestriction.Allows]
    omega
  | max m =>
    have h2 := hmax m rfl
    have h3 := m.pos
    simp only [TaskCountRestriction.Allows]
    omega
  | range lo hi lt =>
    have h1 := hmin lo rfl
    have h2 := hmax hi rfl
    have h3 := lo.pos
    simp only [TaskCountRestriction.Allows]
    omega

def AllWithin (children : List TaskCountAnnotation) (counts : List ℕ) : Prop :=
  List.Forall₂ Within children counts

theorem allWithin_clampCounts (hlen : counts.length = children.length) :
    AllWithin children (clampCounts counts children) := by
  induction children generalizing counts with
  | nil => simp [clampCounts, AllWithin]
  | cons child children ih =>
    cases counts with
    | nil => simp at hlen
    | cons count counts => exact .cons (within_clampCount count child) (ih (by simpa using hlen))

theorem AllWithin.modify (h : AllWithin children counts)
    (hbelow : belowMax children counts idx = true) :
    AllWithin children (counts.modify idx (· + 1)) := by
  induction h generalizing idx with
  | nil =>
    rw [List.modify_nil]
    exact .nil
  | @cons child count children counts hchild hrest ih =>
    cases idx with
    | zero =>
      refine .cons ⟨fun m hm => Nat.le_succ_of_le (hchild.1 m hm), fun m hm => ?_⟩ hrest
      have hlt : count < m := by simpa [belowMax, hm] using hbelow
      exact hlt
    | succ idx =>
      refine .cons hchild (ih ?_)
      simpa [belowMax] using hbelow

theorem AllWithin.fillSlots (h : AllWithin children counts) :
    AllWithin children (fillSlots children unrounded unallocated counts) := by
  induction unallocated generalizing counts with
  | zero => exact h
  | succ unallocated ih =>
    rw [SplitChildren.fillSlots]
    split
    · exact h
    · rename_i idx hnext
      exact ih (h.modify (nextChild_spec hnext).2)

theorem allWithin_childTaskCounts (children : List TaskCountAnnotation) (budget : ℕ) :
    AllWithin children (childTaskCounts children budget) := by
  apply AllWithin.fillSlots
  apply allWithin_clampCounts
  simp

/-! ## No child gets more tasks than there are -/

theorem sum_modify_succ_le (counts : List ℕ) (idx : ℕ) :
    (counts.modify idx (· + 1)).sum ≤ counts.sum + 1 := by
  by_cases h : idx < counts.length
  · exact (sum_modify_succ h).le
  · rw [List.modify_eq_self (by omega)]
    omega

theorem sum_giveSlots_le (order : List ℕ) (unallocated : ℕ) (counts : List ℕ) :
    (giveSlots order unallocated counts).sum ≤ counts.sum + unallocated := by
  induction order generalizing unallocated counts with
  | nil =>
    rw [giveSlots]
    omega
  | cons idx rest ih =>
    cases unallocated with
    | zero => exact le_rfl
    | succ unallocated =>
      have hstep := sum_modify_succ_le counts idx
      have hrest := ih unallocated (counts.modify idx (· + 1))
      rw [giveSlots]
      omega

theorem sum_fillSlots_le (children : List TaskCountAnnotation) (unrounded : List ℚ)
    (unallocated : ℕ) (counts : List ℕ) :
    (fillSlots children unrounded unallocated counts).sum ≤ counts.sum + unallocated := by
  induction unallocated generalizing counts with
  | zero => exact le_rfl
  | succ unallocated ih =>
    rw [fillSlots]
    split
    · omega
    · rename_i idx _
      have hstep := sum_modify_succ_le counts idx
      have hrest := ih (counts.modify idx (· + 1))
      omega

/-- Handing out at most the slots that are left keeps every count within the budget. -/
theorem forall_le_of_sum_le {given : List ℕ} (hcounts : ∀ count ∈ counts, count ≤ budget)
    (hnone : budget ≤ counts.sum → given = counts)
    (hsum : given.sum ≤ counts.sum + (budget - counts.sum)) : ∀ count ∈ given, count ≤ budget := by
  by_cases hfull : budget ≤ counts.sum
  · rw [hnone hfull]
    exact hcounts
  · intro count hcount
    have hle := List.le_sum_of_mem hcount
    omega

theorem giveSlots_zero (order counts : List ℕ) : giveSlots order 0 counts = counts := by
  cases order <;> rfl

theorem validateRestriction_min (h : validateRestriction budget i child = .ok ()) {m : ℕ+}
    (hm : child.getMin = some m) :
    (m : ℕ) ≤ budget := by
  unfold validateRestriction at h
  split at h
  · rename_i exact hexact
    unfold TaskCountAnnotation.getMin at hm
    rw [hexact] at hm
    cases hm
    obtain ⟨hcheck, -⟩ := ite_error_ok_iff.mp h
    omega
  · rw [hm] at h
    obtain ⟨hcheck, h⟩ := ite_error_ok_iff.mp h
    omega

theorem validate_child (h : validate children budget = .ok ()) (hchild : child ∈ children) :
    0 ≤ child.soft ∧ ∀ m, child.getMin = some m → (m : ℕ) ≤ budget := by
  obtain ⟨-, h⟩ := ite_error_ok_iff.mp h
  split at h
  · cases h
  · obtain ⟨i, hi⟩ := List.mem_iff_getElem?.mp hchild
    have hvalid := forM_ok_iff.mp h (child, i) (List.mem_zipIdx_iff_getElem?.mpr hi)
    obtain ⟨_, hrestriction, hsoft⟩ := bind_ok_iff.mp hvalid
    obtain ⟨hcheck, -⟩ := ite_error_ok_iff.mp hsoft
    exact ⟨not_lt.mp hcheck, fun m hm => validateRestriction_min hrestriction hm⟩

theorem floor_share_le (hsoft : ∀ child ∈ children, 0 ≤ child.soft) :
    ∀ x ∈ unroundedChildTaskCounts children budget, ⌊x⌋.toNat ≤ budget := by
  have hfloor : ∀ x : ℚ, x ≤ budget → ⌊x⌋.toNat ≤ budget := by
    intro x hx
    rw [Int.toNat_le]
    have hle := Int.floor_le_floor hx
    rwa [Int.floor_natCast] at hle
  intro x hx
  apply hfloor
  unfold unroundedChildTaskCounts at hx
  split at hx
  · rename_i htotal
    obtain ⟨child, hchild, rfl⟩ := List.mem_map.mp hx
    have hle : child.soft ≤ totalWeight children :=
      List.single_le_sum (by simpa using hsoft) _ (List.mem_map_of_mem hchild)
    rw [div_le_iff₀ htotal]
    gcongr
  · split at hx
    · rename_i hflexible
      obtain ⟨child, -, rfl⟩ := List.mem_map.mp hx
      have hbudget : ((budget - exactTotal children : ℕ) : ℚ) ≤ budget := by
        exact_mod_cast Nat.sub_le _ _
      have hcount : (1 : ℚ) ≤ flexibleCount children := by
        exact_mod_cast hflexible
      split
      · positivity
      · exact (div_le_self (by positivity) hcount).trans hbudget
    · rw [(List.mem_replicate.mp hx).2]
      positivity

theorem clampCount_le {count : ℕ} (hcount : count ≤ budget)
    (hmin : ∀ m, child.getMin = some m → (m : ℕ) ≤ budget) : clampCount count child ≤ budget := by
  unfold clampCount
  cases hlow : child.getMin with
  | none => cases child.getMax <;> dsimp only <;> omega
  | some low =>
    have hle := hmin low hlow
    cases child.getMax <;> dsimp only <;> omega

theorem le_of_mem_childTaskCounts (h : validate children budget = .ok ()) :
    ∀ count ∈ childTaskCounts children budget, count ≤ budget := by
  let unrounded := unroundedChildTaskCounts children budget
  have hfloors : ∀ count ∈ unrounded.map fun x => ⌊x⌋.toNat, count ≤ budget := by
    intro count hcount
    obtain ⟨x, hx, rfl⟩ := List.mem_map.mp hcount
    exact floor_share_le (fun child hchild => (validate_child h hchild).1) x hx
  have hrounded : ∀ count ∈ roundedCounts children budget unrounded, count ≤ budget := by
    unfold roundedCounts
    dsimp only
    split
    · refine forall_le_of_sum_le hfloors ?_ (sum_giveSlots_le _ _ _)
      intro hfull
      rw [Nat.sub_eq_zero_of_le hfull, giveSlots_zero]
    · exact hfloors
  have hclamped : ∀ count ∈ clampCounts (roundedCounts children budget unrounded) children,
      count ≤ budget := by
    intro count hcount
    unfold clampCounts at hcount
    rw [← List.map_uncurry_zip_eq_zipWith] at hcount
    obtain ⟨⟨rounded, child⟩, hpair, rfl⟩ := List.mem_map.mp hcount
    obtain ⟨hmem, hchild⟩ := List.of_mem_zip hpair
    exact clampCount_le (hrounded rounded hmem) (validate_child h hchild).2
  refine forall_le_of_sum_le hclamped ?_ (sum_fillSlots_le _ _ _ _)
  intro hfull
  rw [childTaskCounts, Nat.sub_eq_zero_of_le hfull]
  rfl

/-! ## Placement -/

/-- The tasks of the children numbered from `start` that have at least one slot. -/
def allocatedTasks (numbered : List (ℕ × ℕ)) : List ChildTask :=
  numbered.flatMap fun (taskCount, childIdx) =>
    (List.range taskCount).map fun taskI => (childIdx, ⟨taskI, taskCount⟩)

/-- The single task of every child without a slot. -/
def zeroTasks (numbered : List (ℕ × ℕ)) : List ChildTask :=
  (numbered.filter fun p => p.1 = 0).map fun p => (p.2, ⟨0, 1⟩)

/-- All tasks of the children: `n` contexts for a child with `n` slots, and one context for
a child with none. -/
def allTasks (numbered : List (ℕ × ℕ)) : List ChildTask :=
  numbered.flatMap fun (taskCount, childIdx) =>
    (List.range (max taskCount 1)).map fun taskI => (childIdx, ⟨taskI, max taskCount 1⟩)

theorem allocatedTasks_append_zeroTasks (numbered : List (ℕ × ℕ)) :
    (zeroTasks numbered ++ allocatedTasks numbered).Perm (allTasks numbered) := by
  induction numbered with
  | nil => rfl
  | cons p numbered ih =>
    obtain ⟨taskCount, childIdx⟩ := p
    by_cases hzero : taskCount = 0
    · subst hzero
      exact ih.cons (childIdx, ⟨0, 1⟩)
    · have hmax : max taskCount 1 = taskCount := by omega
      have hz : zeroTasks ((taskCount, childIdx) :: numbered) = zeroTasks numbered := by
        simp [zeroTasks, hzero]
      rw [hz]
      simp only [allocatedTasks, allTasks, List.flatMap_cons, hmax] at ih ⊢
      rw [← List.append_assoc]
      refine (List.perm_append_comm.append_right _).trans ?_
      rw [List.append_assoc]
      exact ih.append_left _

theorem placeTasks_eq_deal (counts : List ℕ) (budget : ℕ) :
    placeTasks counts budget =
      deal (· % budget) (List.replicate budget [], 0) (allocatedTasks counts.zipIdx) := by
  simp only [placeTasks, deal, allocatedTasks, List.foldl_flatMap, List.foldl_map]

theorem placeZeroAllocations_eq_deal {state : List (List ChildTask) × ℕ} (h : 0 < state.2) :
    placeZeroAllocations counts budget state =
      (deal (· % min state.2 budget) (state.1, 0) (zeroTasks counts.zipIdx)).1 := by
  rw [placeZeroAllocations, if_pos h]
  simp only [deal, zeroTasks, List.foldl_map, List.foldl_filter]
  congr 2
  funext acc p
  obtain ⟨taskCount, childIdx⟩ := p
  by_cases hzero : taskCount = 0 <;> simp [hzero]

theorem length_allocatedTasks (counts : List ℕ) (start : ℕ) :
    (allocatedTasks (counts.zipIdx start)).length = counts.sum := by
  induction counts generalizing start with
  | nil => rfl
  | cons count counts ih =>
    have hrest := ih (start + 1)
    simp only [allocatedTasks, List.zipIdx_cons, List.flatMap_cons, List.length_append,
      List.length_map, List.length_range, List.sum_cons] at hrest ⊢
    omega

theorem length_placeTasks : (placeTasks counts budget).1.length = budget := by
  rw [placeTasks_eq_deal, length_deal, List.length_replicate]

/-- The rows of the task map hold every task of every child, each once. -/
theorem place_perm (hbudget : 0 < budget) (hsum : 0 < counts.sum) :
    (placeZeroAllocations counts budget (placeTasks counts budget)).flatten.Perm
      (allTasks counts.zipIdx) := by
  have hslots : (placeTasks counts budget).2 = counts.sum := by
    rw [placeTasks_eq_deal, deal_count, length_allocatedTasks]
    omega
  have hlength : (placeTasks counts budget).1.length = budget := length_placeTasks
  have hplaced : (placeTasks counts budget).1.flatten.Perm (allocatedTasks counts.zipIdx) := by
    rw [placeTasks_eq_deal]
    refine (flatten_deal_perm (fun i => ?_) _).trans ?_
    · simpa using Nat.mod_lt i hbudget
    · simp
  rw [placeZeroAllocations_eq_deal (by omega)]
  refine (flatten_deal_perm (fun i => ?_) _).trans ?_
  · have hpos : 0 < min (placeTasks counts budget).2 budget := by omega
    have hmod := Nat.mod_lt i hpos
    dsimp only
    omega
  · exact (hplaced.append_left _).trans (allocatedTasks_append_zeroTasks _)

theorem length_place :
    (placeZeroAllocations counts budget (placeTasks counts budget)).length = budget := by
  by_cases h : 0 < (placeTasks counts budget).2
  · rw [placeZeroAllocations_eq_deal h, length_deal, length_placeTasks]
  · rw [placeZeroAllocations, if_neg h, length_placeTasks]

theorem mem_allTasks {childIdx : ℕ} {ctx : DistributedTaskContext} :
    (childIdx, ctx) ∈ allTasks counts.zipIdx ↔
      ∃ count, counts[childIdx]? = some count ∧ ctx.taskIndex < max count 1 ∧
        ctx.taskCount = max count 1 := by
  obtain ⟨taskIndex, taskCount⟩ := ctx
  simp [allTasks, List.mem_zipIdx_iff_getElem?, -lt_sup_iff, @eq_comm _ taskCount]

theorem nodup_allTasks (counts : List ℕ) : (allTasks counts.zipIdx).Nodup := by
  unfold allTasks
  rw [List.nodup_flatMap]
  constructor
  · rintro ⟨count, idx⟩ -
    exact List.nodup_range.map fun a b h => by simpa using h
  · have hpair : counts.zipIdx.Pairwise fun p q => p.2 ≠ q.2 := by
      rw [← List.pairwise_map, List.zipIdx_map_snd]
      exact List.nodup_range'
    refine hpair.imp ?_
    rintro ⟨n, c⟩ ⟨m, d⟩ hne x hx hy
    simp only [List.mem_map] at hx hy
    obtain ⟨i, -, rfl⟩ := hx
    obtain ⟨j, -, hj⟩ := hy
    exact hne (congrArg Prod.fst hj).symm

/-- Where the tasks of a child stand in the order in which they are placed. -/
theorem getElem?_allocatedTasks {c n start : ℕ} (hn : counts[c]? = some n) (hi : i < n) :
    (allocatedTasks (counts.zipIdx start))[(counts.take c).sum + i]? =
      some (start + c, ⟨i, n⟩) := by
  induction counts generalizing c start with
  | nil => simp at hn
  | cons count counts ih =>
    rw [List.zipIdx_cons, allocatedTasks, List.flatMap_cons]
    cases c with
    | zero =>
      cases hn
      rw [List.getElem?_append_left (by simpa using hi)]
      simp [hi]
    | succ c =>
      rw [List.take_succ_cons, List.sum_cons, Nat.add_assoc,
        List.getElem?_append_right (by simp)]
      have hrest : (allocatedTasks (counts.zipIdx (start + 1)))[(counts.take c).sum + i]? =
          some (start + 1 + c, ⟨i, n⟩) := ih hn
      simp only [List.length_map, List.length_range, Nat.add_sub_cancel_left]
      rw [allocatedTasks] at hrest
      rw [hrest, Nat.add_right_comm, Nat.add_assoc]

/-- The tasks of a child are placed in turn, starting at the same slot. -/
theorem mem_place {c n : ℕ} (hbudget : 0 < budget) (hn : counts[c]? = some n) (hi : i < n) :
    ∃ row, (placeZeroAllocations counts budget (placeTasks counts budget))[
        ((counts.take c).sum + i) % budget]? = some row ∧ (c, ⟨i, n⟩) ∈ row := by
  have htask : (allocatedTasks counts.zipIdx)[(counts.take c).sum + i]? =
      some (0 + c, ⟨i, n⟩) := getElem?_allocatedTasks hn hi
  rw [Nat.zero_add] at htask
  obtain ⟨row, hrow, hmem⟩ := mem_roundRobin hbudget htask
  have hplaced : (placeTasks counts budget).1 =
      roundRobin budget (allocatedTasks counts.zipIdx) := by
    rw [placeTasks_eq_deal]
    rfl
  rw [← hplaced] at hrow
  by_cases hpos : 0 < (placeTasks counts budget).2
  · rw [placeZeroAllocations_eq_deal hpos]
    exact mem_deal_of_mem _ hrow hmem
  · rw [placeZeroAllocations, if_neg hpos]
    exact ⟨row, hrow, hmem⟩

theorem nodup_place_row {r : ℕ} {row : List ChildTask} (hbudget : 0 < budget)
    (hsum : 0 < counts.sum) (hcounts : ∀ count ∈ counts, count ≤ budget)
    (hrow : (placeZeroAllocations counts budget (placeTasks counts budget))[r]? = some row) :
    (row.map Prod.fst).Nodup := by
  have hperm := place_perm hbudget hsum
  have hnodup := hperm.nodup_iff.mpr (nodup_allTasks counts)
  have hmem : ∀ task ∈ row, task ∈ allTasks counts.zipIdx := fun task htask =>
    hperm.mem_iff.mp (List.mem_flatten.mpr ⟨row, List.mem_of_getElem? hrow, htask⟩)
  refine List.Nodup.map_on ?_ ((List.nodup_flatten.mp hnodup).1 row (List.mem_of_getElem? hrow))
  rintro ⟨c, i, n⟩ hfirst ⟨d, j, m⟩ hsecond rfl
  obtain ⟨count, hcount, hi, rfl⟩ := mem_allTasks.mp (hmem _ hfirst)
  obtain ⟨other, hother, hj, rfl⟩ := mem_allTasks.mp (hmem _ hsecond)
  rw [hcount] at hother
  cases hother
  dsimp only at hi hj
  have hsame : i = j := by
    by_cases hzero : count = 0
    · omega
    · -- Both stand in row `r`, and fewer than `budget` slots apart.
      have hmax : max count 1 = count := by omega
      rw [hmax] at hi hj hfirst hsecond
      obtain ⟨rowI, hrowI, hmemI⟩ := mem_place hbudget hcount hi
      obtain ⟨rowJ, hrowJ, hmemJ⟩ := mem_place hbudget hcount hj
      have hslotI := bucket_unique hnodup hrowI hrow hmemI hfirst
      have hslotJ := bucket_unique hnodup hrowJ hrow hmemJ hsecond
      have hmod := Nat.ModEq.add_left_cancel' _ (hslotI.trans hslotJ.symm)
      have hle := hcounts count (List.mem_of_getElem? hcount)
      exact hmod.eq_of_lt_of_lt (by omega) (by omega)
  rw [hsame]

end SplitChildren

open SplitChildren

/-- What a successful split guarantees: some child, one row for each outer task, a positive budget,
and rows that together hold the contexts `0..n` of every child, each once, where `n` is a count that
the child's restriction allows. -/
structure IsSplit (children : List TaskCountAnnotation) (budget : ℕ)
    (taskIdxMap : List (List ChildTask)) (counts : List ℕ) : Prop where
  nonempty : children ≠ []
  length_map : taskIdxMap.length = budget
  budget_pos : 0 < budget
  perm : taskIdxMap.flatten.Perm (allTasks counts.zipIdx)
  within : AllWithin children counts

theorem splitChildren_isSplit {children : List TaskCountAnnotation} {budget : ℕ}
    {taskIdxMap : List (List ChildTask)} (h : splitChildren children budget = .ok taskIdxMap) :
    IsSplit children budget taskIdxMap (childTaskCounts children budget) := by
  obtain ⟨_, hvalid, hmap⟩ := bind_ok_iff.mp h
  cases hmap
  have hbudget : 0 < budget := by
    obtain ⟨hcheck, hvalid⟩ := ite_error_ok_iff.mp hvalid
    omega
  have hne : children ≠ [] := by
    rintro rfl
    rw [validate, if_neg hbudget.ne'] at hvalid
    cases hvalid
  exact ⟨hne, length_place, hbudget, place_perm hbudget (childTaskCounts_sum_pos hne hbudget),
    allWithin_childTaskCounts children budget⟩

/-- No outer task runs two tasks of one child. -/
theorem splitChildren_row_nodup {children : List TaskCountAnnotation} {budget r : ℕ}
    {taskIdxMap : List (List ChildTask)} {row : List ChildTask}
    (h : splitChildren children budget = .ok taskIdxMap) (hrow : taskIdxMap[r]? = some row) :
    (row.map Prod.fst).Nodup := by
  have hsplit := splitChildren_isSplit h
  obtain ⟨_, hvalid, hmap⟩ := bind_ok_iff.mp h
  cases hmap
  exact nodup_place_row hsplit.budget_pos
    (childTaskCounts_sum_pos hsplit.nonempty hsplit.budget_pos) (le_of_mem_childTaskCounts hvalid)
    hrow

end DatafusionDistributed
