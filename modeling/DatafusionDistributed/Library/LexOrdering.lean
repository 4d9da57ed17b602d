import Mathlib.Data.List.Basic
import Mathlib.Order.Lattice
import Mathlib.Order.Nat

/-!
# Lexicographic orderings of rows

Rows are sorted by a list of sort expressions: by the key of the first expression, then by the
key of the second where the first ones agree, and so on. A stream that is sorted by some orderings
may be sorted by others too. `Satisfied` decides which ones: it walks through the ordering and
checks that each expression is the next one of a known ordering, where expressions that were met
before count as settled. `satisfied_iff` shows that this is exact.
-/

namespace DatafusionDistributed.Library

variable {ε Row V : Type}

section Order

variable [LinearOrder V] (key : ε → Row → V)

/-- The first row may stand before the second one. -/
def Precedes : List ε → Row → Row → Prop
  | [], _, _ => True
  | e :: es, a, b => key e a < key e b ∨ key e a = key e b ∧ Precedes es a b

def SortedBy (ordering : List ε) (rows : List Row) : Prop :=
  rows.Pairwise (Precedes key ordering)

variable {key}

theorem precedes_nil (a b : Row) : Precedes key [] a b :=
  trivial

variable {a b : Row} {orderings : List (List ε)}

theorem precedes_cons_iff {e : ε} {es : List ε} :
    Precedes key (e :: es) a b ↔
      key e a < key e b ∨ key e a = key e b ∧ Precedes key es a b :=
  Iff.rfl

theorem precedes_refl (ordering : List ε) (a : Row) : Precedes key ordering a a := by
  induction ordering with
  | nil => exact precedes_nil a a
  | cons e es ih => exact precedes_cons_iff.mpr (.inr ⟨rfl, ih⟩)

theorem Precedes.trans {ordering : List ε} {c : Row} (hab : Precedes key ordering a b)
    (hbc : Precedes key ordering b c) : Precedes key ordering a c := by
  induction ordering with
  | nil => exact precedes_nil a c
  | cons e es ih =>
    rcases hab with hab | ⟨heq, hab⟩
    · rcases hbc with hbc | ⟨heq, -⟩
      · exact .inl (hab.trans hbc)
      · exact .inl (heq ▸ hab)
    · rcases hbc with hbc | ⟨heq', hbc⟩
      · exact .inl (heq ▸ hbc)
      · exact .inr ⟨heq.trans heq', ih hab hbc⟩

theorem Precedes.append {first second : List ε} (hfirst : Precedes key first a b)
    (hsecond : Precedes key second a b) : Precedes key (first ++ second) a b := by
  induction first with
  | nil => exact hsecond
  | cons e es ih =>
    rcases precedes_cons_iff.mp hfirst with hlt | ⟨heq, hrest⟩
    · exact .inl hlt
    · exact .inr ⟨heq, ih hrest⟩

/-- Rows that are in order for several orderings are in order for their concatenation. -/
theorem Precedes.flatten (h : ∀ ordering ∈ orderings, Precedes key ordering a b) :
    Precedes key orderings.flatten a b := by
  induction orderings with
  | nil => exact precedes_nil a b
  | cons ordering orderings ih =>
    apply Precedes.append
    · exact h ordering List.mem_cons_self
    · exact ih fun other hother => h other (List.mem_cons_of_mem _ hother)

theorem sortedBy_nil_ordering (rows : List Row) : SortedBy key [] rows :=
  List.pairwise_of_forall fun a b => precedes_nil a b

/-- What holds for pairs of rows holds for streams. -/
theorem SortedBy.of_precedes {ordering : List ε} {rows : List Row}
    (hrows : ∀ other ∈ orderings, SortedBy key other rows)
    (h : ∀ a b, (∀ other ∈ orderings, Precedes key other a b) → Precedes key ordering a b) :
    SortedBy key ordering rows := by
  have hall : rows.Pairwise fun a b => ∀ other ∈ orderings, Precedes key other a b := by
    rw [List.pairwise_iff_getElem]
    intro i j hi hj hij other hother
    exact List.pairwise_iff_getElem.mp (hrows other hother) i j hi hj hij
  exact hall.imp fun hab => h _ _ hab

theorem SortedBy.flatten {rows : List Row}
    (h : ∀ ordering ∈ orderings, SortedBy key ordering rows) :
    SortedBy key orderings.flatten rows :=
  .of_precedes h fun _ _ => Precedes.flatten

end Order

section Satisfied

variable [DecidableEq ε]

/-- The first expression of an ordering that is not settled. -/
def nextUnsettled (settled ordering : List ε) : Option ε :=
  ordering.find? fun e => e ∉ settled

/-- Whether an ordering follows from others for rows that agree on the settled expressions. -/
def satisfiedFrom (orderings : List (List ε)) : List ε → List ε → Bool
  | _, [] => true
  | settled, e :: es =>
    (decide (e ∈ settled) || orderings.any fun other => nextUnsettled settled other = some e) &&
      satisfiedFrom orderings (e :: settled) es

/-- Every stream that is sorted by the orderings is sorted by this one. -/
def Satisfied (orderings : List (List ε)) (ordering : List ε) : Prop :=
  satisfiedFrom orderings [] ordering = true

instance (orderings : List (List ε)) (ordering : List ε) :
    Decidable (Satisfied orderings ordering) :=
  inferInstanceAs (Decidable (_ = _))

variable {orderings : List (List ε)} {settled ordering : List ε} {e : ε} {key : ε → Row → V}

theorem satisfiedFrom_cons {es : List ε} :
    satisfiedFrom orderings settled (e :: es) = true ↔
      (e ∈ settled ∨ ∃ other ∈ orderings, nextUnsettled settled other = some e) ∧
        satisfiedFrom orderings (e :: settled) es = true := by
  simp [satisfiedFrom]

/-- Rows that agree on what is settled are in order for the next expression. -/
theorem key_le_of_nextUnsettled [LinearOrder V] {other : List ε} {a b : Row}
    (hsettled : ∀ x ∈ settled, key x a = key x b) (hother : Precedes key other a b)
    (hnext : nextUnsettled settled other = some e) : key e a ≤ key e b := by
  induction other with
  | nil => cases hnext
  | cons x xs ih =>
    by_cases hx : x ∈ settled
    · have hrest : nextUnsettled settled xs = some e := by
        rwa [nextUnsettled, List.find?_cons_of_neg (by simpa using hx)] at hnext
      rcases hother with hlt | ⟨-, hother⟩
      · exact absurd (hsettled x hx) hlt.ne
      · exact ih hother hrest
    · rw [nextUnsettled, List.find?_cons_of_pos (by simpa using hx)] at hnext
      cases hnext
      rcases hother with hlt | ⟨heq, -⟩
      · exact hlt.le
      · exact heq.le

theorem precedes_of_satisfiedFrom [LinearOrder V] {a b : Row}
    (h : ∀ other ∈ orderings, Precedes key other a b) :
    ∀ {settled : List ε}, (∀ x ∈ settled, key x a = key x b) →
      satisfiedFrom orderings settled ordering = true → Precedes key ordering a b := by
  induction ordering with
  | nil =>
    intro settled _ _
    exact precedes_nil a b
  | cons e es ih =>
    intro settled hsettled hsat
    obtain ⟨hnext, hrest⟩ := satisfiedFrom_cons.mp hsat
    have hle : key e a ≤ key e b := by
      rcases hnext with hmem | ⟨other, hother, hnext⟩
      · exact (hsettled e hmem).le
      · exact key_le_of_nextUnsettled hsettled (h other hother) hnext
    rcases hle.lt_or_eq with hlt | heq
    · exact .inl hlt
    · exact .inr ⟨heq, ih (List.forall_mem_cons.mpr ⟨heq, hsettled⟩) hrest⟩

theorem SortedBy.of_satisfied [LinearOrder V] (hsat : Satisfied orderings ordering)
    {rows : List Row} (h : ∀ other ∈ orderings, SortedBy key other rows) :
    SortedBy key ordering rows :=
  .of_precedes h fun _ _ hab => precedes_of_satisfiedFrom hab (by simp) hsat

/-- Two rows, `false` and `true`, that agree on the settled expressions, are out of order for one
expression, and in order for all others. -/
def inversion (settled : List ε) (e x : ε) (row : Bool) : ℕ :=
  if x ∈ settled then 0 else if x = e then (if row then 0 else 1) else if row then 1 else 0

theorem inversion_settled {x : ε} (h : x ∈ settled) (row : Bool) :
    inversion settled e x row = 0 :=
  if_pos h

/-- The two rows are in order for an ordering whose next expression is another one. -/
theorem precedes_inversion {other : List ε} (hnext : nextUnsettled settled other ≠ some e) :
    Precedes (inversion settled e) other false true := by
  induction other with
  | nil => exact precedes_nil _ _
  | cons x xs ih =>
    by_cases hx : x ∈ settled
    · right
      refine ⟨by rw [inversion_settled hx, inversion_settled hx], ih ?_⟩
      rwa [nextUnsettled, List.find?_cons_of_neg (by simpa using hx)] at hnext
    · left
      rw [nextUnsettled, List.find?_cons_of_pos (by simpa using hx)] at hnext
      have hne : x ≠ e := fun heq => hnext (by rw [heq])
      simp [inversion, hx, hne]

/-- An ordering that does not follow: two rows that are in order for all the others. -/
theorem exists_inversion :
    ∀ {settled : List ε}, satisfiedFrom orderings settled ordering = false →
      ∃ key : ε → Bool → ℕ, (∀ other ∈ orderings, Precedes key other false true) ∧
        ¬ Precedes key ordering false true ∧ ∀ x ∈ settled, key x false = key x true := by
  induction ordering with
  | nil =>
    intro settled h
    cases h
  | cons e es ih =>
    intro settled h
    by_cases hnext : e ∈ settled ∨ ∃ other ∈ orderings, nextUnsettled settled other = some e
    · -- The walk gets past the first expression, so the rows agree on it.
      have hrest : satisfiedFrom orderings (e :: settled) es = false := by
        rw [← Bool.not_eq_true] at h ⊢
        exact fun hsat => h (satisfiedFrom_cons.mpr ⟨hnext, hsat⟩)
      obtain ⟨key, hothers, hnot, hagree⟩ := ih hrest
      refine ⟨key, hothers, fun hprec => ?_, fun x hx => hagree x (List.mem_cons_of_mem _ hx)⟩
      rcases precedes_cons_iff.mp hprec with hlt | ⟨-, hes⟩
      · exact absurd (hagree e List.mem_cons_self) hlt.ne
      · exact hnot hes
    · have hunsettled : e ∉ settled := fun hmem => hnext (.inl hmem)
      refine ⟨inversion settled e, fun other hother => ?_, fun hprec => ?_, fun x hx => ?_⟩
      · exact precedes_inversion fun heq => hnext (.inr ⟨other, hother, heq⟩)
      · rw [precedes_cons_iff] at hprec
        simp [inversion, hunsettled] at hprec
      · rw [inversion_settled hx, inversion_settled hx]

/-- The walk is exact: an ordering follows from others if and only if any two rows that are in
order for them are in order for it. -/
theorem satisfied_iff :
    Satisfied orderings ordering ↔ ∀ key : ε → Bool → ℕ,
      (∀ other ∈ orderings, Precedes key other false true) →
        Precedes key ordering false true := by
  constructor
  · intro hsat key hothers
    exact precedes_of_satisfiedFrom hothers (by simp) hsat
  · intro h
    by_contra hsat
    obtain ⟨key, hothers, hnot, -⟩ := exists_inversion (Bool.not_eq_true _ ▸ hsat)
    exact hnot (h key hothers)

theorem satisfied_of_mem (h : ordering ∈ orderings) : Satisfied orderings ordering :=
  satisfied_iff.mpr fun _ hothers => hothers ordering h

theorem satisfied_nil_iff : Satisfied [[]] ordering ↔ ordering = [] := by
  cases ordering with
  | nil => simp [Satisfied, satisfiedFrom]
  | cons e es => simp [Satisfied, satisfiedFrom, nextUnsettled]

end Satisfied

end DatafusionDistributed.Library
