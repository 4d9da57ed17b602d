import Mathlib.Algebra.GroupWithZero.Nat
import Mathlib.Data.List.Nodup
import Mathlib.Algebra.Order.BigOperators.Group.List

/-!
# Walking a list of widths

Blocks of given widths are laid out one after the other on the natural numbers. `locate`
finds the block that holds a position, by subtracting widths until the position falls
inside one. Every position below the total width falls in exactly one cell of exactly one
block, and every cell is reached from exactly one position.
-/

namespace DatafusionDistributed.Library

variable {α : Type} (width : α → ℕ)

/-- The block that holds `position`, with the offset inside it. -/
def locate : List α → ℕ → Option (α × ℕ)
  | [], _ => none
  | x :: rest, position =>
    if position < width x then some (x, position) else locate rest (position - width x)

/-- All cells of a list of blocks, in layout order. -/
def cells (blocks : List α) : List (α × ℕ) :=
  blocks.flatMap fun x => (List.range (width x)).map fun q => (x, q)

@[simp] theorem cells_cons (x : α) (rest : List α) :
    cells width (x :: rest) = (List.range (width x)).map (fun q => (x, q)) ++ cells width rest :=
  rfl

theorem length_cells (blocks : List α) :
    (cells width blocks).length = (blocks.map width).sum := by
  induction blocks with
  | nil => rfl
  | cons x rest ih => simp [ih]

/-- The walk reads the cells in layout order. -/
theorem locate_eq_getElem? (blocks : List α) (position : ℕ) :
    locate width blocks position = (cells width blocks)[position]? := by
  induction blocks generalizing position with
  | nil => rfl
  | cons x rest ih =>
    rw [locate, cells_cons]
    split
    · rename_i h
      rw [List.getElem?_append_left (by simpa using h)]
      simp [h]
    · rename_i h
      rw [List.getElem?_append_right (by simpa using h), ih]
      simp

variable {blocks : List α} {x : α} {q : ℕ}

theorem mem_cells :
    (x, q) ∈ cells width blocks ↔ x ∈ blocks ∧ q < width x := by
  simp [cells]

theorem nodup_cells (h : blocks.Nodup) : (cells width blocks).Nodup := by
  induction blocks with
  | nil => exact List.nodup_nil
  | cons x rest ih =>
    rw [List.nodup_cons] at h
    rw [cells_cons, List.nodup_append]
    refine ⟨?_, ih h.2, ?_⟩
    · exact List.nodup_range.map fun a b hab => by simpa using hab
    · rintro ⟨y, q⟩ hy ⟨z, r⟩ hz heq
      obtain ⟨hz, -⟩ := (mem_cells width).mp hz
      simp only [List.mem_map, Prod.mk.injEq] at hy
      obtain ⟨_, _, rfl, rfl⟩ := hy
      cases heq
      exact h.1 hz

/-- A successful walk ends inside a block of the list, below the total width. -/
theorem locate_some {position : ℕ} (h : locate width blocks position = some (x, q)) :
    x ∈ blocks ∧ q < width x ∧ position < (blocks.map width).sum := by
  rw [locate_eq_getElem?] at h
  obtain ⟨hlt, hget⟩ := List.getElem?_eq_some_iff.mp h
  have hmem := (mem_cells width).mp (hget ▸ List.getElem_mem hlt)
  exact ⟨hmem.1, hmem.2, by rwa [length_cells] at hlt⟩

theorem exists_locate (hx : x ∈ blocks) (hq : q < width x) :
    ∃ position, locate width blocks position = some (x, q) := by
  obtain ⟨position, h⟩ := List.mem_iff_getElem?.mp ((mem_cells width).mpr ⟨hx, hq⟩)
  exact ⟨position, by rw [locate_eq_getElem?, h]⟩

theorem locate_inj (h : blocks.Nodup) {a b : ℕ} {cell : α × ℕ}
    (ha : locate width blocks a = some cell) (hb : locate width blocks b = some cell) :
    a = b := by
  rw [locate_eq_getElem?] at ha hb
  obtain ⟨ha', -⟩ := List.getElem?_eq_some_iff.mp ha
  exact (List.getElem?_inj ha' (nodup_cells width h)).mp (ha.trans hb.symm)

end DatafusionDistributed.Library
