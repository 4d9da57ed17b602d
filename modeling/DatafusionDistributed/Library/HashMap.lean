import Mathlib.Data.List.AList
import Mathlib.Data.List.Sort

/-!
# Hash maps

A hash map is an association list without repeated keys, in an order that means nothing. The
operations are those of `entry(..).or_insert(..)`, of collecting an iterator of pairs, and of
listing the entries in the order of their keys.
-/

namespace DatafusionDistributed.Library

universe u v

abbrev HashMap (κ : Type u) (ν : Type v) :=
  AList fun _ : κ => ν

namespace HashMap

variable {κ : Type u} {ν : Type v} [DecidableEq κ]

/-- `entry(key).or_insert(value)`. -/
def orInsert (self : HashMap κ ν) (key : κ) (value : ν) : HashMap κ ν :=
  if key ∈ self then self else self.insert key value

variable {self : HashMap κ ν} {key other : κ} {value : ν}

theorem mem_iff_exists_lookup : key ∈ self ↔ ∃ value, self.lookup key = some value := by
  rw [← AList.lookup_isSome, Option.isSome_iff_exists]

@[simp]
theorem mem_orInsert : other ∈ self.orInsert key value ↔ other = key ∨ other ∈ self := by
  unfold orInsert
  split
  · rename_i h
    exact ⟨Or.inr, fun hother => hother.elim (fun heq => heq ▸ h) id⟩
  · exact AList.mem_insert self

theorem lookup_orInsert_of_mem (h : other ∈ self) :
    (self.orInsert key value).lookup other = self.lookup other := by
  unfold orInsert
  split
  · rfl
  · rename_i hkey
    exact AList.lookup_insert_ne fun heq => hkey (heq ▸ h)

theorem lookup_orInsert_ne (h : other ≠ key) :
    (self.orInsert key value).lookup other = self.lookup other := by
  unfold orInsert
  split
  · rfl
  · exact AList.lookup_insert_ne h

theorem lookup_orInsert_of_notMem (h : key ∉ self) :
    (self.orInsert key value).lookup key = some value := by
  rw [orInsert, if_neg h, AList.lookup_insert]

/-- The map in which the first pair of each key stays. -/
def collectFirst (pairs : List (κ × ν)) : HashMap κ ν :=
  pairs.foldl (fun map pair => map.orInsert pair.1 pair.2) ∅

/-- `collect`: the last pair of each key stays. -/
def collect (pairs : List (κ × ν)) : HashMap κ ν :=
  pairs.foldl (fun map pair => map.insert pair.1 pair.2) ∅

variable {pairs : List (κ × ν)} {map : HashMap κ ν}

omit [DecidableEq κ] in
/-- The keys of a fold over maps that adds one key at each step. -/
theorem mem_foldl {step : HashMap κ ν → κ × ν → HashMap κ ν}
    (hstep : ∀ map pair, key ∈ step map pair ↔ key = pair.1 ∨ key ∈ map) :
    key ∈ pairs.foldl step map ↔ key ∈ map ∨ key ∈ pairs.map Prod.fst := by
  induction pairs generalizing map with
  | nil => simp
  | cons pair pairs ih =>
    rw [List.foldl_cons, ih, hstep, List.map_cons, List.mem_cons]
    tauto

/-- What a step of a fold over maps adds comes from the pairs. -/
theorem lookup_foldl_mem {step : HashMap κ ν → κ × ν → HashMap κ ν}
    (hstep : ∀ map pair key value, (step map pair).lookup key = some value →
      map.lookup key = some value ∨ (key, value) = pair)
    (h : (pairs.foldl step map).lookup key = some value) :
    map.lookup key = some value ∨ (key, value) ∈ pairs := by
  induction pairs generalizing map with
  | nil => exact Or.inl h
  | cons pair pairs ih =>
    rcases ih h with h | h
    · rcases hstep map pair key value h with h | h
      · exact Or.inl h
      · exact Or.inr (h ▸ List.mem_cons_self)
    · exact Or.inr (List.mem_cons_of_mem _ h)

theorem lookup_insert_cases (map : HashMap κ ν) (pair : κ × ν) (key : κ) (value : ν)
    (h : (map.insert pair.1 pair.2).lookup key = some value) :
    map.lookup key = some value ∨ (key, value) = pair := by
  by_cases hkey : key = pair.1
  · subst hkey
    rw [AList.lookup_insert] at h
    exact Or.inr (Prod.ext rfl (Option.some.inj h).symm)
  · rw [AList.lookup_insert_ne hkey] at h
    exact Or.inl h

theorem lookup_orInsert_cases (map : HashMap κ ν) (pair : κ × ν) (key : κ) (value : ν)
    (h : (map.orInsert pair.1 pair.2).lookup key = some value) :
    map.lookup key = some value ∨ (key, value) = pair := by
  unfold orInsert at h
  split at h
  · exact Or.inl h
  · exact lookup_insert_cases map pair key value h

@[simp]
theorem mem_collectFirst :
    key ∈ collectFirst pairs ↔ key ∈ pairs.map Prod.fst := by
  rw [collectFirst, mem_foldl fun _ _ => mem_orInsert]
  exact or_iff_right (AList.notMem_empty key)

@[simp]
theorem mem_collect : key ∈ collect pairs ↔ key ∈ pairs.map Prod.fst := by
  rw [collect, mem_foldl fun map _ => AList.mem_insert map]
  exact or_iff_right (AList.notMem_empty key)

theorem mem_of_lookup_collectFirst (h : (collectFirst pairs).lookup key = some value) :
    (key, value) ∈ pairs :=
  (lookup_foldl_mem lookup_orInsert_cases h).resolve_left (by simp)

theorem mem_of_lookup_collect (h : (collect pairs).lookup key = some value) :
    (key, value) ∈ pairs :=
  (lookup_foldl_mem lookup_insert_cases h).resolve_left (by simp)

/-- The entries in the order of a key. -/
def sortedEntries (self : HashMap κ ν) (le : κ → κ → Prop) [DecidableRel le] : List (κ × ν) :=
  (self.entries.map fun entry => (entry.1, entry.2)).insertionSort fun a b => le a.1 b.1

theorem mem_sortedEntries {le : κ → κ → Prop} [DecidableRel le] :
    (key, value) ∈ self.sortedEntries le ↔ self.lookup key = some value := by
  simp [sortedEntries, ← Option.mem_def, AList.mem_lookup_iff]

theorem mem_keys_sortedEntries {le : κ → κ → Prop} [DecidableRel le] :
    key ∈ (self.sortedEntries le).map Prod.fst ↔ key ∈ self := by
  simp [mem_iff_exists_lookup, mem_sortedEntries]

end HashMap

end DatafusionDistributed.Library
