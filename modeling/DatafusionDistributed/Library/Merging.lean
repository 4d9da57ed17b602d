import Mathlib.Data.List.Pairwise
import DatafusionDistributed.Library.Tallies

/-!
# Merging streams

Several streams are merged into one by taking, again and again, the first element of one of them.
A sort-merge takes an element that may stand before the first elements of all streams, and keeps
sorted streams sorted. A merge that takes whatever is ready is one for the order in which
everything may stand before everything.
-/

namespace DatafusionDistributed.Library

variable {α : Type}

/-- `out` is a merge of the streams. -/
inductive Merges (le : α → α → Prop) : List (List α) → List α → Prop
  | done {streams : List (List α)} : (∀ stream ∈ streams, stream = []) → Merges le streams []
  | take {streams : List (List α)} {i : ℕ} {a : α} {rest out : List α} :
    streams[i]? = some (a :: rest) →
    (∀ stream ∈ streams, ∀ b ∈ stream.head?, le a b) →
    Merges le (streams.set i rest) out → Merges le streams (a :: out)

/-- `out` has the elements of the streams, those of each stream in order. -/
def Interleaves (streams : List (List α)) (out : List α) : Prop :=
  Merges (fun _ _ => True) streams out

namespace Merges

variable {le : α → α → Prop} {streams : List (List α)} {out : List α}

theorem exists_mem (h : Merges le streams out) {x : α} (hx : x ∈ out) :
    ∃ stream ∈ streams, x ∈ stream := by
  induction h with
  | done => cases hx
  | @take streams i a rest out hi _ _ ih =>
    have hstream := List.mem_of_getElem? hi
    rcases List.mem_cons.mp hx with rfl | hx
    · exact ⟨_, hstream, List.mem_cons_self⟩
    · obtain ⟨stream, hmem, hx⟩ := ih hx
      rcases List.mem_or_eq_of_mem_set hmem with hmem | rfl
      · exact ⟨stream, hmem, hx⟩
      · exact ⟨_, hstream, List.mem_cons_of_mem _ hx⟩

/-- The streams around the one at position `i`. -/
theorem eq_take_append_cons_drop {i : ℕ} {stream : List α} (hi : streams[i]? = some stream) :
    streams = streams.take i ++ stream :: streams.drop (i + 1) := by
  obtain ⟨hlt, hget⟩ := List.getElem?_eq_some_iff.mp hi
  rw [← hget, List.getElem_cons_drop, List.take_append_drop]

/-- A merge loses nothing and adds nothing. -/
theorem perm (h : Merges le streams out) : out.Perm streams.flatten := by
  induction h with
  | @done streams hempty =>
    rw [List.flatten_eq_nil_iff.mpr hempty]
  | @take streams i a rest out hi _ _ ih =>
    obtain ⟨hlt, -⟩ := List.getElem?_eq_some_iff.mp hi
    rw [List.set_eq_take_append_cons_drop, if_pos hlt] at ih
    rw [eq_take_append_cons_drop hi]
    simp only [List.flatten_append] at ih ⊢
    exact (ih.cons a).trans List.perm_middle.symm

theorem sorted (htrans : ∀ a b c, le a b → le b c → le a c) (h : Merges le streams out)
    (hsorted : ∀ stream ∈ streams, stream.Pairwise le) : out.Pairwise le := by
  induction h with
  | done => exact .nil
  | @take streams i a rest out hi hfirst hrest ih =>
    have hstream := hsorted _ (List.mem_of_getElem? hi)
    rw [List.pairwise_cons] at hstream
    constructor
    · intro x hx
      obtain ⟨stream, hmem, hx⟩ := hrest.exists_mem hx
      rcases List.mem_or_eq_of_mem_set hmem with hmem | rfl
      · -- The first element of a sorted stream stands before all of it.
        cases stream with
        | nil => cases hx
        | cons b others =>
          have hab := hfirst _ hmem b rfl
          rcases List.mem_cons.mp hx with rfl | hx
          · exact hab
          · exact htrans a b x hab ((List.pairwise_cons.mp (hsorted _ hmem)).1 x hx)
      · exact hstream.1 x hx
    · exact ih (forall_mem_set hsorted hstream.2)

theorem eq_nil (h : Merges le [] out) : out = [] := by
  cases h with
  | done => rfl
  | take hi => cases hi

theorem eq_of_singleton {stream : List α} (h : Merges le [stream] out) : out = stream := by
  induction stream generalizing out with
  | nil =>
    cases h with
    | done => rfl
    | @take _ i _ _ _ hi => cases i <;> cases hi
  | cons b rest ih =>
    cases h with
    | done hempty => cases hempty (b :: rest) List.mem_cons_self
    | @take _ i _ _ _ hi _ hrest =>
      cases i with
      | zero =>
        cases hi
        rw [ih hrest]
      | succ i => cases hi

/-- Streams that are empty except for one. -/
theorem of_single (hrefl : ∀ a, le a a) {i : ℕ} {stream : List α} (hi : streams[i]? = some stream)
    (hothers : ∀ (j : ℕ) (other : List α), j ≠ i → streams[j]? = some other → other = []) :
    Merges le streams stream := by
  induction stream generalizing streams with
  | nil =>
    apply done
    intro other hother
    obtain ⟨j, hj⟩ := List.mem_iff_getElem?.mp hother
    by_cases hji : j = i
    · subst hji
      exact Option.some.inj (hj.symm.trans hi)
    · exact hothers j other hji hj
  | cons a rest ih =>
    refine take hi ?_ (ih ?_ ?_)
    · intro other hother b hb
      obtain ⟨j, hj⟩ := List.mem_iff_getElem?.mp hother
      by_cases hji : j = i
      · subst hji
        cases hj.symm.trans hi
        cases hb
        exact hrefl a
      · rw [hothers j other hji hj] at hb
        cases hb
    · obtain ⟨hlt, -⟩ := List.getElem?_eq_some_iff.mp hi
      exact List.getElem?_set_self hlt
    · intro j other hji hj
      rw [List.getElem?_set_ne (Ne.symm hji)] at hj
      exact hothers j other hji hj

/-- Streams that are empty except for two of one element each. -/
theorem of_two (hrefl : ∀ a, le a a) {i j : ℕ} {a b : α} (hij : i ≠ j) (hab : le a b)
    (hi : streams[i]? = some [a]) (hj : streams[j]? = some [b])
    (hothers : ∀ (k : ℕ) (other : List α), k ≠ i → k ≠ j → streams[k]? = some other → other = []) :
    Merges le streams [a, b] := by
  refine take hi ?_ (of_single hrefl ?_ ?_ (i := j))
  · intro other hother c hc
    obtain ⟨k, hk⟩ := List.mem_iff_getElem?.mp hother
    by_cases hki : k = i
    · subst hki
      cases hk.symm.trans hi
      cases hc
      exact hrefl a
    · by_cases hkj : k = j
      · subst hkj
        cases hk.symm.trans hj
        cases hc
        exact hab
      · rw [hothers k other hki hkj hk] at hc
        cases hc
  · rw [List.getElem?_set_ne hij]
    exact hj
  · intro k other hkj hk
    by_cases hki : k = i
    · subst hki
      obtain ⟨hlt, -⟩ := List.getElem?_eq_some_iff.mp hi
      rw [List.getElem?_set_self hlt] at hk
      exact (Option.some.inj hk).symm
    · rw [List.getElem?_set_ne (Ne.symm hki)] at hk
      exact hothers k other hki hkj hk

variable (htotal : ∀ a b, le a b ∨ le b a) (htrans : ∀ a b c, le a b → le b c → le a c)
include htotal htrans

end Merges

end DatafusionDistributed.Library
