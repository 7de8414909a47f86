import Mathlib.Tactic

/-!
# Largest remainders

A pool is shared among items in proportion to their weights.  Every item gets its share
rounded down; what is left over goes, one each, to the items with the largest remainders.

* `sum_share_add_sum_rest`: shares and remainders add up to the pool, over the common
  denominator.
* `leftover_lt`: fewer units are left over than there are items.
* `rest_pos_of_mem_take`: an item that gets a unit more was rounded down.
* `mem_take_of_rest_lt`: a larger remainder is served first.
-/

namespace GGateway.Library
namespace LargestRemainder

variable {α : Type*} (weight : α → Nat) (pool total : Nat)

/-- The share of an item, rounded down. -/
def share (item : α) : Nat :=
  weight item * pool / total

/-- What rounding down has taken from an item, in parts of the total weight. -/
def rest (item : α) : Nat :=
  weight item * pool % total

theorem sum_share_add_sum_rest (items : List α) :
    total * (items.map (share weight pool total)).sum + (items.map (rest weight pool total)).sum =
      (items.map weight).sum * pool := by
  induction items with
  | nil => simp
  | cons item items ih =>
    have hitem : total * share weight pool total item + rest weight pool total item =
        weight item * pool :=
      Nat.div_add_mod _ _
    simp only [List.map_cons, List.sum_cons, Nat.mul_add, Nat.add_mul]
    omega

variable {weight pool total} {items : List α}

section Leftover

variable (htotal : (items.map weight).sum = total) (hpos : 0 < total)

include htotal hpos

theorem sum_share_le : (items.map (share weight pool total)).sum ≤ pool := by
  have hsum := sum_share_add_sum_rest weight pool total items
  rw [htotal] at hsum
  have hle : total * (items.map (share weight pool total)).sum ≤ total * pool := by omega
  exact Nat.le_of_mul_le_mul_left hle hpos

omit hpos in
/-- The remainders make up exactly what is left over. -/
theorem sum_rest :
    (items.map (rest weight pool total)).sum =
      total * (pool - (items.map (share weight pool total)).sum) := by
  have hsum := sum_share_add_sum_rest weight pool total items
  rw [htotal] at hsum
  rw [Nat.mul_sub]
  omega

omit htotal in
theorem rest_lt (item : α) : rest weight pool total item < total :=
  Nat.mod_lt _ hpos

omit htotal in
/-- A list of remainders is smaller than its length times the total. -/
theorem sum_rest_le (items : List α) :
    (items.map (rest weight pool total)).sum ≤ items.length * (total - 1) := by
  rw [← smul_eq_mul, ← List.length_map (rest weight pool total)]
  apply List.sum_le_card_nsmul
  intro value hvalue
  obtain ⟨item, _, rfl⟩ := List.mem_map.mp hvalue
  have hlt : rest weight pool total item < total := rest_lt hpos item
  omega

/-- Fewer units are left over than there are items. -/
theorem leftover_lt :
    pool - (items.map (share weight pool total)).sum < items.length := by
  have hnonempty : 0 < items.length := by
    rw [List.length_pos_iff]
    rintro rfl
    simp at htotal
    omega
  have hle : (items.map (rest weight pool total)).sum ≤ items.length * (total - 1) :=
    sum_rest_le hpos items
  rw [sum_rest htotal] at hle
  -- Otherwise every remainder would have to be a whole total.
  by_contra hmany
  have hlower : total * items.length ≤ items.length * (total - 1) :=
    (Nat.mul_le_mul_left total (Nat.not_lt.mp hmany)).trans hle
  have hsplit : items.length * total = items.length * (total - 1) + items.length := by
    rw [← Nat.mul_succ, Nat.succ_eq_add_one, Nat.sub_add_cancel hpos]
  rw [Nat.mul_comm] at hlower
  omega

end Leftover

section Order

variable {order : List α}
  (hsorted : order.Pairwise fun left right =>
    rest weight pool total right ≤ rest weight pool total left)

include hsorted

/-- Every item before a position has a remainder at least as large as every item after it. -/
theorem rest_le_of_mem_take {count : Nat} {item other : α} (hitem : item ∈ order.take count)
    (hother : other ∈ order.drop count) :
    rest weight pool total other ≤ rest weight pool total item := by
  rw [← List.take_append_drop count order, List.pairwise_append] at hsorted
  exact hsorted.2.2 item hitem other hother

/-- A larger remainder is served first. -/
theorem mem_take_of_rest_lt {count : Nat} {item other : α} (hitem : item ∈ order.take count)
    (hother : other ∈ order)
    (hlt : rest weight pool total item < rest weight pool total other) :
    other ∈ order.take count := by
  rw [← List.take_append_drop count order, List.mem_append] at hother
  refine hother.resolve_right fun hlate => ?_
  have hle := rest_le_of_mem_take hsorted hitem hlate
  omega

/-- An item that gets one of the units left over was rounded down: were its remainder zero, so
would be those of all items after it, and the ones before it could not make up the rest. -/
theorem rest_pos_of_mem_take (htotal : (items.map weight).sum = total) (hpos : 0 < total)
    (hperm : order.Perm items) {item : α}
    (hitem : item ∈ order.take (pool - (items.map (share weight pool total)).sum)) :
    0 < rest weight pool total item := by
  rw [Nat.pos_iff_ne_zero]
  intro hzero
  let count := pool - (items.map (share weight pool total)).sum
  have hsum : ((order.take count).map (rest weight pool total)).sum +
      ((order.drop count).map (rest weight pool total)).sum = total * count := by
    rw [← List.sum_append, ← List.map_append, List.take_append_drop,
      (hperm.map (rest weight pool total)).sum_eq, sum_rest htotal]
  have hlate : ((order.drop count).map (rest weight pool total)).sum = 0 := by
    rw [List.sum_eq_zero_iff]
    intro value hvalue
    obtain ⟨other, hother, rfl⟩ := List.mem_map.mp hvalue
    have hle := rest_le_of_mem_take hsorted hitem hother
    omega
  obtain ⟨before, after, hsplit⟩ := List.append_of_mem hitem
  have hlength : before.length + (after.length + 1) ≤ count := by
    have htake := List.length_take_le count order
    rwa [hsplit, List.length_append, List.length_cons] at htake
  have hearly : ((order.take count).map (rest weight pool total)).sum ≤
      (before.length + after.length) * (total - 1) := by
    rw [hsplit, List.map_append, List.sum_append, List.map_cons, List.sum_cons, hzero,
      Nat.add_mul]
    have hbefore : (before.map (rest weight pool total)).sum ≤ before.length * (total - 1) :=
      sum_rest_le hpos before
    have hafter : (after.map (rest weight pool total)).sum ≤ after.length * (total - 1) :=
      sum_rest_le hpos after
    omega
  have hless : (before.length + after.length) * (total - 1) < total * count := by
    calc (before.length + after.length) * (total - 1)
        ≤ (before.length + after.length) * total := Nat.mul_le_mul_left _ (Nat.sub_le _ _)
      _ < (before.length + after.length + 1) * total := Nat.mul_lt_mul_of_pos_right (by omega) hpos
      _ ≤ count * total := Nat.mul_le_mul_right _ (by omega)
      _ = total * count := Nat.mul_comm _ _
  omega

end Order

end LargestRemainder
end GGateway.Library
