import Mathlib.Data.List.Destutter
import Mathlib.Data.List.Sort
import Mathlib.Tactic

/-!
# Sorting and dropping repetitions

A list that is sorted and then freed of adjacent repetitions is the strictly sorted
list of its elements.  So the result depends on the set of elements only, and doing
it twice is doing it once.
-/

namespace GGateway.Library
namespace SortedSet

variable {α : Type*} [DecidableEq α]

omit [DecidableEq α] in
theorem eq_nil_congr {values others : List α}
    (h : ∀ element, element ∈ values ↔ element ∈ others) : others = [] ↔ values = [] := by
  rw [List.eq_nil_iff_forall_not_mem, List.eq_nil_iff_forall_not_mem]
  exact forall_congr' fun element => not_congr (h element).symm

omit [DecidableEq α] in
/-- A sorted list without repetitions is determined by its elements. -/
theorem eq_of_sorted_nodup {below : α → α → Prop} [Std.Antisymm below] {values others : List α}
    (hvalues : values.Pairwise below) (hothers : others.Pairwise below)
    (hnodup : values.Nodup) (hnodup' : others.Nodup)
    (h : ∀ element, element ∈ values ↔ element ∈ others) : values = others := by
  have hperm : values.Perm others := (List.perm_ext_iff_of_nodup hnodup hnodup').mpr h
  exact hperm.eq_of_pairwise' hvalues hothers

/-- Sort, then drop repetitions. -/
def sortCompact (below : α → α → Prop) [DecidableRel below] (values : List α) : List α :=
  (values.mergeSort fun left right => decide (below left right)).destutter (· ≠ ·)

variable {below : α → α → Prop} [DecidableRel below] [Std.Total below] [IsTrans α below]
  [Std.Antisymm below]

/-- In a sorted list all repetitions are adjacent. -/
theorem sortCompact_eq_dedup (values : List α) :
    sortCompact below values =
      (values.mergeSort fun left right => decide (below left right)).dedup :=
  (List.pairwise_mergeSort' below values).destutter_eq_dedup

@[simp] theorem mem_sortCompact (values : List α) (element : α) :
    element ∈ sortCompact below values ↔ element ∈ values := by
  rw [sortCompact_eq_dedup, List.mem_dedup, List.mem_mergeSort]

theorem sortCompact_congr {values others : List α}
    (h : ∀ element, element ∈ values ↔ element ∈ others) :
    sortCompact below values = sortCompact below others := by
  have hsorted : ∀ list : List α, (sortCompact below list).Pairwise below := fun list =>
    (List.pairwise_mergeSort' below list).sublist (List.destutter_sublist (· ≠ ·) _)
  have hnodup : ∀ list : List α, (sortCompact below list).Nodup := fun list => by
    rw [sortCompact_eq_dedup]
    exact List.nodup_dedup _
  apply eq_of_sorted_nodup (hsorted values) (hsorted others) (hnodup values) (hnodup others)
  intro element
  rw [mem_sortCompact, mem_sortCompact, h]

end SortedSet
end GGateway.Library
