import Mathlib.Data.List.Basic

/-!
# Trimming a repeated pattern

`trimStartMatches` takes a pattern off the front of a list as often as it stands there, as
`str::trim_start_matches` does. What is left is the only rest that does not start with the pattern
and becomes the list with some copies of the pattern put back.

The lower case of ASCII letters is a projection.
-/

namespace DatafusionDistributed.Library

section Copies

variable {α : Type} {pattern : List α}

def copies (count : ℕ) (pattern : List α) : List α :=
  (List.replicate count pattern).flatten

@[simp] theorem copies_zero : copies 0 pattern = [] := rfl

theorem copies_succ (count : ℕ) : copies (count + 1) pattern = pattern ++ copies count pattern := by
  simp [copies, List.replicate_succ]

theorem length_copies (count : ℕ) : (copies count pattern).length = count * pattern.length := by
  simp [copies]

/-- A list is some copies of a pattern, followed by something that does not start with it. -/
theorem exists_copies (hpattern : pattern ≠ []) (text : List α) :
    ∃ count rest, text = copies count pattern ++ rest ∧ ¬ pattern <+: rest := by
  induction h : text.length using Nat.strongRecOn generalizing text with
  | _ size ih =>
    by_cases hpat : pattern <+: text
    · obtain ⟨tail, rfl⟩ := hpat
      have hpos : 0 < pattern.length := List.length_pos_iff.mpr hpattern
      rw [List.length_append] at h
      obtain ⟨count, rest, rfl, hrest⟩ := ih tail.length (by omega) tail rfl
      refine ⟨count + 1, rest, ?_, hrest⟩
      rw [copies_succ, List.append_assoc]
    · exact ⟨0, text, rfl, hpat⟩

end Copies

section Trim

variable {α : Type} [DecidableEq α]

/-- At most `fuel` copies of the pattern are taken off. -/
def trimWithin (pattern : List α) : ℕ → List α → List α
  | 0, text => text
  | fuel + 1, text =>
    if pattern <+: text then trimWithin pattern fuel (text.drop pattern.length) else text

def trimStartMatches (pattern text : List α) : List α :=
  trimWithin pattern text.length text

variable {pattern text rest : List α}

theorem trimWithin_copies (hrest : ¬ pattern <+: rest) {fuel count : ℕ} (h : count ≤ fuel) :
    trimWithin pattern fuel (copies count pattern ++ rest) = rest := by
  induction fuel generalizing count with
  | zero =>
    obtain rfl : count = 0 := by omega
    rfl
  | succ fuel ih =>
    cases count with
    | zero => exact if_neg hrest
    | succ count =>
      rw [copies_succ, List.append_assoc, trimWithin, if_pos (List.prefix_append _ _),
        List.drop_left]
      exact ih (by omega)

/-- Trimming inverts putting copies of the pattern in front. -/
theorem trimStartMatches_eq_iff (hpattern : pattern ≠ []) :
    trimStartMatches pattern text = rest ↔
      ∃ count, text = copies count pattern ++ rest ∧ ¬ pattern <+: rest := by
  have hpos : 0 < pattern.length := List.length_pos_iff.mpr hpattern
  have htrim : ∀ {count rest}, ¬ pattern <+: rest →
      trimStartMatches pattern (copies count pattern ++ rest) = rest := by
    intro count rest hrest
    apply trimWithin_copies hrest
    rw [List.length_append, length_copies]
    exact Nat.le_add_right_of_le (Nat.le_mul_of_pos_right count hpos)
  constructor
  · rintro rfl
    obtain ⟨count, rest, rfl, hrest⟩ := exists_copies hpattern text
    rw [htrim hrest]
    exact ⟨count, rfl, hrest⟩
  · rintro ⟨count, rfl, hrest⟩
    exact htrim hrest

theorem trimStartMatches_of_not_isPrefix (h : ¬ pattern <+: text) :
    trimStartMatches pattern text = text := by
  have hpattern : pattern ≠ [] := by
    rintro rfl
    exact h (List.nil_prefix)
  exact (trimStartMatches_eq_iff hpattern).mpr ⟨0, rfl, h⟩

theorem trimStartMatches_append (hpattern : pattern ≠ []) :
    trimStartMatches pattern (pattern ++ text) = trimStartMatches pattern text := by
  obtain ⟨count, htext, hrest⟩ := (trimStartMatches_eq_iff hpattern).mp
    (rfl : trimStartMatches pattern text = _)
  refine (trimStartMatches_eq_iff hpattern).mpr ⟨count + 1, ?_, hrest⟩
  rw [copies_succ, List.append_assoc, ← htext]

end Trim

/-! ## Lower case -/

def asciiLowercase (text : List Char) : List Char :=
  text.map Char.toLower

theorem toLower_toLower (c : Char) : c.toLower.toLower = c.toLower := by
  by_cases h : c.val ≥ 65 ∧ c.val ≤ 90
  · have hlower : c.toLower.val = c.val + 32 := congrArg Char.val (dif_pos h)
    apply dif_neg
    rw [hlower]
    rintro ⟨-, hupper⟩
    obtain ⟨hge, hle⟩ := h
    change 65 ≤ c.val.toNat at hge
    change c.val.toNat ≤ 90 at hle
    change (c.val.toNat + 32) % 4294967296 ≤ 90 at hupper
    omega
  · have hkeep : c.toLower = c := dif_neg h
    rw [hkeep, hkeep]

@[simp] theorem asciiLowercase_append (text rest : List Char) :
    asciiLowercase (text ++ rest) = asciiLowercase text ++ asciiLowercase rest :=
  List.map_append

@[simp] theorem length_asciiLowercase (text : List Char) :
    (asciiLowercase text).length = text.length :=
  List.length_map _

theorem asciiLowercase_asciiLowercase (text : List Char) :
    asciiLowercase (asciiLowercase text) = asciiLowercase text := by
  unfold asciiLowercase
  rw [List.map_map]
  apply List.map_congr_left
  intro c _
  exact toLower_toLower c

/-- Both parts of a text in lower case are in lower case. -/
theorem asciiLowercase_append_eq_iff {text rest : List Char} :
    asciiLowercase (text ++ rest) = text ++ rest ↔
      asciiLowercase text = text ∧ asciiLowercase rest = rest := by
  rw [asciiLowercase_append]
  constructor
  · intro h
    exact List.append_inj h (length_asciiLowercase text)
  · rintro ⟨htext, hrest⟩
    rw [htext, hrest]

end DatafusionDistributed.Library
