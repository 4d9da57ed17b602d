import Mathlib.Data.List.Nodup
import Mathlib.Data.List.Perm.Basic

/-!
# Dealing items out to buckets

A loop that appends its `i`-th item to the bucket `slot i` loses nothing and repeats
nothing: the concatenation of the buckets is a permutation of the items. This holds for
every slot function that stays inside the buckets, so it covers wrap-around placement,
round-robin placement and any mixture of the two run one after the other.
-/

namespace DatafusionDistributed.Library

variable {α : Type}

def pushAt (buckets : List (List α)) (k : ℕ) (x : α) : List (List α) :=
  buckets.modify k (· ++ [x])

@[simp] theorem length_pushAt (buckets : List (List α)) (k : ℕ) (x : α) :
    (pushAt buckets k x).length = buckets.length := by
  simp [pushAt]

variable {buckets : List (List α)} {k j : ℕ} {slot : ℕ → ℕ} {state : List (List α) × ℕ} {x : α}
  {bucket : List α}

theorem flatten_pushAt_perm (hk : k < buckets.length) (x : α) :
    (pushAt buckets k x).flatten.Perm (x :: buckets.flatten) := by
  induction buckets generalizing k with
  | nil => simp at hk
  | cons bucket rest ih =>
    cases k with
    | zero =>
      simp only [pushAt, List.modify_zero_cons, List.flatten_cons, List.append_assoc]
      exact List.perm_middle
    | succ k =>
      have hrest := @ih k (by simpa using hk)
      exact (hrest.append_left bucket).trans List.perm_middle

/-- One turn of a dealing loop: the state is the buckets and the number of items dealt. -/
def dealOne (slot : ℕ → ℕ) (state : List (List α) × ℕ) (x : α) : List (List α) × ℕ :=
  (pushAt state.1 (slot state.2) x, state.2 + 1)

def deal (slot : ℕ → ℕ) (state : List (List α) × ℕ) (items : List α) : List (List α) × ℕ :=
  items.foldl (dealOne slot) state

@[simp] theorem length_deal (slot : ℕ → ℕ) (state : List (List α) × ℕ) (items : List α) :
    (deal slot state items).1.length = state.1.length := by
  induction items generalizing state with
  | nil => rfl
  | cons x items ih =>
    show (deal slot (dealOne slot state x) items).1.length = _
    rw [ih]
    simp [dealOne]

@[simp] theorem deal_count (slot : ℕ → ℕ) (state : List (List α) × ℕ) (items : List α) :
    (deal slot state items).2 = state.2 + items.length := by
  induction items generalizing state with
  | nil => rfl
  | cons x items ih =>
    show (deal slot (dealOne slot state x) items).2 = _
    rw [ih]
    simp only [dealOne, List.length_cons]
    omega

/-- Dealing loses no item and invents none. -/
theorem flatten_deal_perm (hslot : ∀ i, slot i < state.1.length) (items : List α) :
    (deal slot state items).1.flatten.Perm (items ++ state.1.flatten) := by
  induction items generalizing state with
  | nil => rfl
  | cons x items ih =>
    have hstep := flatten_pushAt_perm (hslot state.2) x
    have hrest := @ih (dealOne slot state x) (by simpa [dealOne] using hslot)
    refine hrest.trans ((hstep.append_left items).trans ?_)
    exact List.perm_middle

theorem mem_pushAt_of_mem {y : α} (hbucket : buckets[j]? = some bucket) (hx : x ∈ bucket) :
    ∃ pushed, (pushAt buckets k y)[j]? = some pushed ∧ x ∈ pushed := by
  rw [pushAt, List.getElem?_modify, hbucket]
  by_cases h : k = j
  · exact ⟨bucket ++ [y], by simp [h], List.mem_append_left _ hx⟩
  · exact ⟨bucket, by simp [h], hx⟩

theorem mem_deal_of_mem (items : List α) (hbucket : state.1[j]? = some bucket) (hx : x ∈ bucket) :
    ∃ dealt, (deal slot state items).1[j]? = some dealt ∧ x ∈ dealt := by
  induction items generalizing state bucket with
  | nil => exact ⟨bucket, hbucket, hx⟩
  | cons y items ih =>
    obtain ⟨pushed, hpushed, hmem⟩ := mem_pushAt_of_mem hbucket hx
    exact @ih (dealOne slot state y) pushed hpushed hmem

/-- Buckets without repetitions: an item identifies its bucket. -/
theorem bucket_unique (h : buckets.flatten.Nodup) {s t : ℕ} {bs bt : List α}
    (hs : buckets[s]? = some bs) (ht : buckets[t]? = some bt) (hxs : x ∈ bs) (hxt : x ∈ bt) :
    s = t := by
  have hdisjoint := (List.nodup_flatten.mp h).2
  rw [List.pairwise_iff_getElem] at hdisjoint
  obtain ⟨hslt, rfl⟩ := List.getElem?_eq_some_iff.mp hs
  obtain ⟨htlt, rfl⟩ := List.getElem?_eq_some_iff.mp ht
  rcases Nat.lt_trichotomy s t with hlt | heq | hgt
  · exact absurd hxt (hdisjoint s t hslt htlt hlt hxs)
  · exact heq
  · exact absurd hxs (hdisjoint t s htlt hslt hgt hxt)

end DatafusionDistributed.Library
