import Mathlib.Data.Rat.Floor
import DatafusionDistributed.Common

/-!
# Task-count annotations

`TaskCountAnnotation` pairs a soft estimate with a restriction. The soft estimate is an
`f64` in the source and a rational here. A `range` is only built by `try_range` and by
`merge`, and both turn a range of one count into an exact count, so the constructor keeps
`min < max`.

`Allows r n` says that `n` tasks satisfy the restriction `r`. Resolving an annotation gives
an allowed count (`allows_asUsize`), and a merged annotation allows what both sides allow
(`merge_allows`).
-/

namespace DatafusionDistributed

inductive TaskCountRestriction where
  | none
  | exact (count : ℕ+)
  | min (count : ℕ+)
  | max (count : ℕ+)
  | range (min max : ℕ+) (lt : min < max)
  deriving DecidableEq, Repr

namespace TaskCountRestriction

/-- A range, or the exact count when both bounds agree. -/
def ofBounds (lower upper : ℕ+) (h : lower ≤ upper) : TaskCountRestriction :=
  if heq : lower = upper then .exact lower else .range lower upper (lt_of_le_of_ne h heq)

/-- The exact count `count` meets the other restriction, or `message` is the error. -/
def keepExact (count : ℕ+) (ok : Prop) [Decidable ok] (message : String) :
    Result TaskCountRestriction :=
  if ok then .ok (.exact count) else .error (.plan message)

def mergeRangeMin (rmin rmax : ℕ+) (lt : rmin < rmax) (min : ℕ+) : Result TaskCountRestriction :=
  if h : min > rmax then
    .error (.plan s!"Minimum task count {min.val} is above the required maximum {rmax.val}")
  else .ok (ofBounds (min ⊔ rmin) rmax (sup_le (not_lt.mp h) lt.le))

def mergeRangeMax (rmin rmax : ℕ+) (lt : rmin < rmax) (max : ℕ+) : Result TaskCountRestriction :=
  if h : max < rmin then
    .error (.plan s!"Maximum task count {max.val} is below the required minimum {rmin.val}")
  else .ok (ofBounds rmin (max ⊓ rmax) (le_inf (not_lt.mp h) lt.le))

def mergeMinMax (min max : ℕ+) : Result TaskCountRestriction :=
  if h : min > max then
    .error (.plan s!"Minimum task count {min.val} is above the required maximum {max.val}")
  else .ok (ofBounds min max (not_lt.mp h))

def mergeRanges (amin amax bmin bmax : ℕ+) (alt : amin < amax) (blt : bmin < bmax) :
    Result TaskCountRestriction :=
  if h : amin ≤ bmax ∧ bmin ≤ amax then
    .ok (ofBounds (amin ⊔ bmin) (amax ⊓ bmax)
      (sup_le (le_inf alt.le h.1) (le_inf h.2 blt.le)))
  else
    .error (.plan
      s!"Incompatible task count ranges of {amin.val}..={amax.val} and {bmin.val}..={bmax.val}")

def merge : TaskCountRestriction → TaskCountRestriction → Result TaskCountRestriction
  | .none, r => .ok r
  | r, .none => .ok r
  | .exact a, .exact b =>
    keepExact a (a = b) s!"Incompatible exact task counts {a.val} and {b.val}"
  | .min a, .min b => .ok (.min (a ⊔ b))
  | .max a, .max b => .ok (.max (a ⊓ b))
  | .exact e, .min m | .min m, .exact e =>
    keepExact e (m ≤ e) s!"Exact task count {e.val} is below the required minimum {m.val}"
  | .exact e, .max m | .max m, .exact e =>
    keepExact e (e ≤ m) s!"Exact task count {e.val} is above the required maximum {m.val}"
  | .exact e, .range lo hi _ | .range lo hi _, .exact e =>
    keepExact e (lo ≤ e ∧ e ≤ hi)
      s!"Exact task count {e.val} is outside of the required range {lo.val}..={hi.val}"
  | .range lo hi lt, .min m | .min m, .range lo hi lt => mergeRangeMin lo hi lt m
  | .range lo hi lt, .max m | .max m, .range lo hi lt => mergeRangeMax lo hi lt m
  | .min lo, .max hi | .max hi, .min lo => mergeMinMax lo hi
  | .range amin amax alt, .range bmin bmax blt => mergeRanges amin amax bmin bmax alt blt

/-! ## Meaning of a restriction -/

/-- `n` tasks satisfy the restriction. -/
def Allows : TaskCountRestriction → ℕ → Prop
  | .none, n => 1 ≤ n
  | .exact e, n => n = e
  | .min m, n => m ≤ n
  | .max m, n => 1 ≤ n ∧ n ≤ m
  | .range lo hi _, n => lo ≤ n ∧ n ≤ hi

instance (r : TaskCountRestriction) (n : ℕ) : Decidable (r.Allows n) := by
  cases r <;> unfold Allows <;> infer_instance

variable {r : TaskCountRestriction} {lo hi : ℕ+} {counts : ℕ → Prop}

theorem Allows.pos {n : ℕ} (h : r.Allows n) : 1 ≤ n := by
  cases r with
  | none => exact h
  | exact e => exact h ▸ e.pos
  | min m => exact le_trans m.pos h
  | max m => exact h.1
  | range lo hi lt => exact le_trans lo.pos h.1

theorem allows_ofBounds {lower upper : ℕ+} (h : lower ≤ upper) {n : ℕ} :
    (ofBounds lower upper h).Allows n ↔ (lower : ℕ) ≤ n ∧ n ≤ upper := by
  unfold ofBounds
  split
  · rename_i heq
    subst heq
    simp only [Allows]
    omega
  · rfl

theorem coe_sup (a b : ℕ+) : ((a ⊔ b : ℕ+) : ℕ) = Max.max (a : ℕ) b :=
  (Subtype.mono_coe _).map_sup a b

theorem coe_inf (a b : ℕ+) : ((a ⊓ b : ℕ+) : ℕ) = Min.min (a : ℕ) b :=
  (Subtype.mono_coe _).map_inf a b

/-- The outcome of a merge for the counts both sides allow: a restriction that allows these
counts, or an error if there are none. -/
def Meets (counts : ℕ → Prop) : Result TaskCountRestriction → Prop
  | .ok r => ∀ n, r.Allows n ↔ counts n
  | .error _ => ∀ n, ¬counts n

theorem keepExact_meets {count : ℕ+} {ok : Prop} [Decidable ok] {message : String}
    (h : ∀ n, counts n ↔ n = count ∧ ok) : Meets counts (keepExact count ok message) := by
  unfold keepExact
  split
  · rename_i hok
    intro n
    rw [h, and_iff_left hok]
    rfl
  · rename_i hok
    exact fun n hn => hok ((h n).mp hn).2

theorem mergeRangeMin_meets {m : ℕ+} (lt : lo < hi)
    (h : ∀ n, counts n ↔ ((lo : ℕ) ≤ n ∧ n ≤ hi) ∧ (m : ℕ) ≤ n) :
    Meets counts (mergeRangeMin lo hi lt m) := by
  unfold mergeRangeMin
  split <;> intro n <;> rw [h]
  · rename_i hm
    rw [gt_iff_lt, ← PNat.coe_lt_coe] at hm
    omega
  · rw [allows_ofBounds, coe_sup]
    omega

theorem mergeRangeMax_meets {m : ℕ+} (lt : lo < hi)
    (h : ∀ n, counts n ↔ ((lo : ℕ) ≤ n ∧ n ≤ hi) ∧ 1 ≤ n ∧ n ≤ m) :
    Meets counts (mergeRangeMax lo hi lt m) := by
  have := lo.pos
  unfold mergeRangeMax
  split <;> intro n <;> rw [h]
  · rename_i hm
    rw [← PNat.coe_lt_coe] at hm
    omega
  · rw [allows_ofBounds, coe_inf]
    omega

theorem mergeMinMax_meets (h : ∀ n, counts n ↔ (lo : ℕ) ≤ n ∧ 1 ≤ n ∧ n ≤ hi) :
    Meets counts (mergeMinMax lo hi) := by
  have := lo.pos
  unfold mergeMinMax
  split <;> intro n <;> rw [h]
  · rename_i hm
    rw [gt_iff_lt, ← PNat.coe_lt_coe] at hm
    omega
  · rw [allows_ofBounds]
    omega

theorem mergeRanges_meets {amin amax bmin bmax : ℕ+} (alt : amin < amax) (blt : bmin < bmax)
    (h : ∀ n, counts n ↔ ((amin : ℕ) ≤ n ∧ n ≤ amax) ∧ (bmin : ℕ) ≤ n ∧ n ≤ bmax) :
    Meets counts (mergeRanges amin amax bmin bmax alt blt) := by
  unfold mergeRanges
  split <;> intro n <;> rw [h]
  · rw [allows_ofBounds, coe_sup, coe_inf]
    omega
  · rename_i hdisjoint
    rw [← PNat.coe_le_coe, ← PNat.coe_le_coe] at hdisjoint
    omega

/-- A merge allows exactly the counts that both sides allow, and fails if there are none. -/
theorem merge_meets (a b : TaskCountRestriction) :
    Meets (fun n => a.Allows n ∧ b.Allows n) (a.merge b) := by
  cases b with
  | none =>
    have hmerge : a.merge .none = .ok a := by cases a <;> rfl
    rw [hmerge]
    exact fun n => (and_iff_left_of_imp Allows.pos).symm
  | exact b =>
    have := b.pos
    cases a with
    | none => exact fun n => (and_iff_right_of_imp Allows.pos).symm
    | exact a => exact keepExact_meets fun n => by simp only [Allows, ← PNat.coe_inj]; omega
    | min a | max a =>
      exact keepExact_meets fun n => by simp only [Allows, ← PNat.coe_le_coe]; omega
    | range lo hi lt =>
      exact keepExact_meets fun n => by simp only [Allows, ← PNat.coe_le_coe]; omega
  | min b =>
    cases a with
    | none => exact fun n => (and_iff_right_of_imp Allows.pos).symm
    | exact a => exact keepExact_meets fun n => by simp only [Allows, ← PNat.coe_le_coe]; omega
    | min a => exact fun n => by simp only [Allows, coe_sup]; omega
    | max a => exact mergeMinMax_meets fun n => and_comm
    | range lo hi lt => exact mergeRangeMin_meets lt fun n => Iff.rfl
  | max b =>
    cases a with
    | none => exact fun n => (and_iff_right_of_imp Allows.pos).symm
    | exact a =>
      have := a.pos
      exact keepExact_meets fun n => by simp only [Allows, ← PNat.coe_le_coe]; omega
    | min a => exact mergeMinMax_meets fun n => Iff.rfl
    | max a => exact fun n => by simp only [Allows, coe_inf]; omega
    | range lo hi lt => exact mergeRangeMax_meets lt fun n => Iff.rfl
  | range blo bhi blt =>
    cases a with
    | none => exact fun n => (and_iff_right_of_imp Allows.pos).symm
    | exact a => exact keepExact_meets fun n => by simp only [Allows, ← PNat.coe_le_coe]; omega
    | min a => exact mergeRangeMin_meets blt fun n => and_comm
    | max a => exact mergeRangeMax_meets blt fun n => and_comm
    | range lo hi lt => exact mergeRanges_meets lt blt fun n => Iff.rfl

theorem merge_allows {a b : TaskCountRestriction} (h : a.merge b = .ok r) (n : ℕ) :
    r.Allows n ↔ a.Allows n ∧ b.Allows n := by
  have hmeets := merge_meets a b
  rw [h] at hmeets
  exact hmeets n

theorem Meets.congr {others : ℕ → Prop} {result : Result TaskCountRestriction}
    (h : Meets counts result) (hcounts : ∀ n, counts n ↔ others n) : Meets others result := by
  rwa [← funext fun n => propext (hcounts n)]

/-- Merges in sequence meet what each of them asks for. -/
theorem Meets.bind {rest : ℕ → Prop} {result : Result TaskCountRestriction}
    {next : TaskCountRestriction → Result TaskCountRestriction} (h : Meets counts result)
    (hnext : ∀ r, Meets (fun n => r.Allows n ∧ rest n) (next r)) :
    Meets (fun n => counts n ∧ rest n) (result >>= next) := by
  cases result with
  | error e => exact fun n hn => h n hn.1
  | ok r => exact (hnext r).congr fun n => and_congr_left' (h n)

end TaskCountRestriction

/-! ## Annotations -/

structure TaskCountAnnotation where
  soft : ℚ
  restriction : TaskCountRestriction
  deriving DecidableEq, Repr

namespace TaskCountAnnotation

open TaskCountRestriction (Allows)

def ofSoft (value : ℚ) : TaskCountAnnotation := ⟨value, .none⟩

def ofExact (exact : ℕ+) (soft : ℚ) : TaskCountAnnotation := ⟨soft, .exact exact⟩

def ofMin (min : ℕ+) (soft : ℚ) : TaskCountAnnotation := ⟨soft, .min min⟩

def ofMax (max : ℕ+) (soft : ℚ) : TaskCountAnnotation := ⟨soft, .max max⟩

def tryRange (min max : ℕ+) (soft : ℚ) : Result TaskCountAnnotation :=
  if h : min > max then
    .error (.plan (s!"Task count range minimum {min.val} must be less than or equal to " ++
      s!"its maximum {max.val}"))
  else .ok ⟨soft, TaskCountRestriction.ofBounds min max (not_lt.mp h)⟩

def getExact (self : TaskCountAnnotation) : Option ℕ+ :=
  match self.restriction with
  | .exact count => some count
  | _ => Option.none

def getMin (self : TaskCountAnnotation) : Option ℕ+ :=
  match self.restriction with
  | .exact min | .min min | .range min _ _ => some min
  | _ => Option.none

def getMax (self : TaskCountAnnotation) : Option ℕ+ :=
  match self.restriction with
  | .exact max | .max max | .range _ max _ => some max
  | _ => Option.none

/-- `as_usize`: the integer task count an annotation resolves to. -/
def asUsize (self : TaskCountAnnotation) : ℕ :=
  let tasks := Max.max ⌈self.soft⌉.toNat 1
  match self.restriction with
  | .none => tasks
  | .exact exact => exact
  | .min min => Max.max tasks min
  | .max max => Min.min tasks max
  | .range min max _ => Min.min (Max.max (min : ℕ) tasks) max

def merge (a b : TaskCountAnnotation) : Result TaskCountAnnotation := do
  let restriction ← a.restriction.merge b.restriction
  return ⟨Max.max a.soft b.soft, restriction⟩

theorem allows_asUsize (a : TaskCountAnnotation) : a.restriction.Allows a.asUsize := by
  obtain ⟨soft, restriction⟩ := a
  cases restriction with
  | none | exact e | min m => simp [Allows, asUsize]
  | max m =>
    have := m.pos
    simp only [Allows, asUsize]
    omega
  | range lo hi lt =>
    rw [← PNat.coe_lt_coe] at lt
    simp only [Allows, asUsize]
    omega

/-- Every other allowed count is further from the soft estimate than the resolved one. -/
theorem asUsize_nearest (a : TaskCountAnnotation) {n : ℕ} (h : a.restriction.Allows n)
    (hne : n ≠ a.asUsize) :
    (a.asUsize - max 1 ⌈a.soft⌉ : ℤ).natAbs < (n - max 1 ⌈a.soft⌉ : ℤ).natAbs := by
  obtain ⟨soft, restriction⟩ := a
  cases restriction <;> simp only [Allows, asUsize] at h hne ⊢ <;> omega

theorem asUsize_pos (a : TaskCountAnnotation) : 1 ≤ a.asUsize := a.allows_asUsize.pos

variable {a b r : TaskCountAnnotation}

theorem merge_ok (h : a.merge b = .ok r) :
    a.restriction.merge b.restriction = .ok r.restriction ∧ r.soft = Max.max a.soft b.soft := by
  unfold merge at h
  cases hm : a.restriction.merge b.restriction with
  | error e => rw [hm] at h; cases h
  | ok restriction => rw [hm] at h; cases h; exact ⟨rfl, rfl⟩

theorem merge_allows (h : a.merge b = .ok r) (n : ℕ) :
    r.restriction.Allows n ↔ a.restriction.Allows n ∧ b.restriction.Allows n :=
  TaskCountRestriction.merge_allows (merge_ok h).1 n

end TaskCountAnnotation

/-! ## Merging as intersection -/

namespace TaskCountRestriction

/-- Merges that agree: both fail, or both give restrictions that allow the same counts. -/
def Agree : Result TaskCountRestriction → Result TaskCountRestriction → Prop
  | .ok r, .ok s => ∀ n, r.Allows n ↔ s.Allows n
  | .error _, .error _ => True
  | _, _ => False

theorem Meets.agree {first second : Result TaskCountRestriction} (h : Meets counts first)
    (h' : Meets counts second) : Agree first second := by
  -- An outcome that succeeds allows some count, so the other one succeeds as well.
  have hsome (r : TaskCountRestriction) : r.Allows _ := TaskCountAnnotation.allows_asUsize ⟨0, r⟩
  cases first with
  | ok r =>
    cases second with
    | ok s => exact fun n => (h n).trans (h' n).symm
    | error e => exact h' _ ((h _).mp (hsome r))
  | error e =>
    cases second with
    | ok s => exact h _ ((h' _).mp (hsome s))
    | error e' => trivial

/-- The restrictions under `merge` are sets of counts under intersection: it gives a restriction
for the intersection, fails if that is empty, and so is commutative, associative and idempotent.
Both bounds of a range that it gives are in the intersection, and of the counts that an annotation
allows the resolved one is the nearest to the soft estimate. -/
theorem merge_is_intersection :
    (∀ a b : TaskCountRestriction,
      (∀ r, a.merge b = .ok r → ∀ n, r.Allows n ↔ a.Allows n ∧ b.Allows n) ∧
      ((∃ e, a.merge b = .error e) ↔ ∀ n, ¬(a.Allows n ∧ b.Allows n))) ∧
    (∀ a b : TaskCountRestriction, Agree (a.merge b) (b.merge a)) ∧
    (∀ a b c : TaskCountRestriction,
      Agree (a.merge b >>= fun r => r.merge c) (b.merge c >>= fun r => a.merge r)) ∧
    (∀ a : TaskCountRestriction, Agree (a.merge a) (.ok a)) ∧
    (∀ (a b : TaskCountRestriction) (lo hi : ℕ+) (lt : lo < hi),
      a.merge b = .ok (.range lo hi lt) →
      lo < hi ∧ (a.Allows lo ∧ b.Allows lo) ∧ a.Allows hi ∧ b.Allows hi) ∧
    ∀ a : TaskCountAnnotation, a.restriction.Allows a.asUsize ∧
      ∀ n, a.restriction.Allows n → n ≠ a.asUsize →
        (a.asUsize - Max.max 1 ⌈a.soft⌉ : ℤ).natAbs < (n - Max.max 1 ⌈a.soft⌉ : ℤ).natAbs := by
  have hswap (a b : TaskCountRestriction) :
      Meets (fun n => b.Allows n ∧ a.Allows n) (a.merge b) :=
    (merge_meets a b).congr fun n => and_comm
  refine ⟨fun a b => ⟨fun r h => merge_allows h, ?_⟩,
    fun a b => (hswap a b).agree (merge_meets b a),
    fun a b c => ?_, fun a => (merge_meets a a).agree fun n => and_self_iff.symm,
    fun a b lo hi lt h => ⟨lt, ?_, ?_⟩,
    fun a => ⟨a.allows_asUsize, fun n h hne => a.asUsize_nearest h hne⟩⟩
  · have hmeets := merge_meets a b
    cases hmerge : a.merge b with
    | error e =>
      rw [hmerge] at hmeets
      exact ⟨fun _ => hmeets, fun _ => ⟨e, rfl⟩⟩
    | ok r =>
      have hasUsize := TaskCountAnnotation.allows_asUsize ⟨0, r⟩
      have hallowed := (merge_allows hmerge _).mp hasUsize
      refine ⟨?_, fun hnone => absurd hallowed (hnone _)⟩
      rintro ⟨e, herror⟩
      cases herror
  · have hleft := (merge_meets a b).bind (fun r => merge_meets r c)
    have hright := (merge_meets b c).bind (fun r => hswap a r)
    exact hleft.agree (hright.congr fun n => and_comm.trans and_assoc.symm)
  · exact (merge_allows h lo).mp ⟨le_rfl, lt.le⟩
  · exact (merge_allows h hi).mp ⟨lt.le, le_rfl⟩

end TaskCountRestriction

end DatafusionDistributed
