import DatafusionDistributed.Library.Fibers

/-!
# Joins of multisets

What a join emits for a row depends on the rows of the other side that match it. If both sides are
divided so that matching rows are in cells of the same name, every row meets all its matches in its
own cell, whether there are any or not; so the joins of the cells sum to the join of the whole.
-/

namespace DatafusionDistributed.Library

variable {L R Out β : Type}

theorem sum_map_bind (parts : List (Multiset L)) (g : L → Multiset Out) :
    (parts.map fun part => part.bind g).sum = parts.sum.bind g := by
  induction parts with
  | nil => rfl
  | cons part parts ih => rw [List.map_cons, List.sum_cons, ih, List.sum_cons, Multiset.add_bind]

/-- What a join emits for a row of either side, given the rows that match it. -/
structure JoinOutput (L R Out : Type) where
  left : L → Multiset R → Multiset Out
  right : R → Multiset L → Multiset Out

namespace JoinOutput

def join (self : JoinOutput L R Out) (on : L → R → Bool) (left : Multiset L)
    (right : Multiset R) : Multiset Out :=
  (left.bind fun l => self.left l (right.filter fun r => on l r)) +
    right.bind fun r => self.right r (left.filter fun l => on l r)

theorem sum_map_bind_fibers [DecidableEq β] (f : L → β) {cells : List β} (hcells : cells.Nodup)
    (s : Multiset L) (h : ∀ a ∈ s, f a ∈ cells) (g : L → Multiset Out) :
    (cells.map fun cell => (s.filter (f · = cell)).bind g).sum = s.bind g := by
  have hparts := sum_map_bind (cells.map fun cell => s.filter (f · = cell)) g
  rwa [List.map_map, sum_map_fibers f hcells s h] at hparts

/-- Within the cell of a row are all its matches. -/
theorem filter_cell {on : L → Bool} {f : L → β} [DecidableEq β] {cell : β}
    (h : ∀ a, on a = true → f a = cell) (s : Multiset L) :
    ((s.filter (f · = cell)).filter fun a => on a) = s.filter fun a => on a := by
  rw [Multiset.filter_filter]
  refine Multiset.filter_congr fun a _ => ?_
  exact ⟨fun hboth => hboth.1, fun hon => ⟨hon, h a hon⟩⟩

/-- The joins of the cells sum to the join of the whole. -/
theorem sum_join_cells [DecidableEq β] (self : JoinOutput L R Out) {on : L → R → Bool}
    {f : L → β} {g : R → β} (hon : ∀ l r, on l r = true → f l = g r) {cells : List β}
    (hcells : cells.Nodup) {left : Multiset L} {right : Multiset R}
    (hleft : ∀ l ∈ left, f l ∈ cells) (hright : ∀ r ∈ right, g r ∈ cells) :
    (cells.map fun cell =>
      self.join on (left.filter (f · = cell)) (right.filter (g · = cell))).sum =
      self.join on left right := by
  have hcell : ∀ cell, self.join on (left.filter (f · = cell)) (right.filter (g · = cell)) =
      ((left.filter (f · = cell)).bind fun l => self.left l (right.filter fun r => on l r)) +
        (right.filter (g · = cell)).bind fun r => self.right r (left.filter fun l => on l r) := by
    intro cell
    unfold join
    congr 1
    · refine Multiset.bind_congr fun l hl => ?_
      have hl := (Multiset.mem_filter.mp hl).2
      rw [filter_cell fun r hr => (hon l r hr).symm.trans hl]
    · refine Multiset.bind_congr fun r hr => ?_
      have hr := (Multiset.mem_filter.mp hr).2
      rw [filter_cell fun l hl => (hon l r hl).trans hr]
  calc (cells.map fun cell =>
        self.join on (left.filter (f · = cell)) (right.filter (g · = cell))).sum
      = (cells.map fun cell =>
          ((left.filter (f · = cell)).bind fun l => self.left l (right.filter fun r => on l r)) +
            (right.filter (g · = cell)).bind fun r =>
              self.right r (left.filter fun l => on l r)).sum := by
        rw [List.map_congr_left fun cell _ => hcell cell]
    _ = (cells.map fun cell => (left.filter (f · = cell)).bind fun l =>
          self.left l (right.filter fun r => on l r)).sum +
        (cells.map fun cell => (right.filter (g · = cell)).bind fun r =>
          self.right r (left.filter fun l => on l r)).sum := List.sum_map_add
    _ = self.join on left right := by
        rw [sum_map_bind_fibers f hcells left hleft, sum_map_bind_fibers g hcells right hright]
        rfl

end JoinOutput

end DatafusionDistributed.Library
