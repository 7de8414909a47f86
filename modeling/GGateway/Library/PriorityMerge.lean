import Mathlib.Data.List.Basic
import Mathlib.Order.Defs.LinearOrder
import Mathlib.Tactic

/-!
# Emptying a priority queue

A queue is emptied by popping a least item and putting its successor back, if it has one.
Nothing is assumed about how the queue finds a least item.

* `Empties.sorted`: when successors are larger, the items come out in order.
* `Empties.perm`: the items that come out are those that were put in, with all their
  successors.
* `countP_le_countP_take`: in a sorted list, what lies below a bound lies in every prefix that
  is long enough for it.
-/

namespace GGateway.Library
namespace PriorityMerge

variable {α κ : Type*} [LinearOrder κ]

/-- The items of a queue come out in this order. -/
inductive Empties (key : α → κ) (advance : α → Option α) : List α → List α → Prop
  | empty : Empties key advance [] []
  | pop {items others output : List α} {item : α} (hperm : items.Perm (item :: others))
      (hleast : ∀ other ∈ others, key item ≤ key other)
      (hrest : Empties key advance ((advance item).toList ++ others) output) :
      Empties key advance items (item :: output)

namespace Empties

variable {key : α → κ} {advance : α → Option α} {items output : List α}

/-- Nothing that comes out lies below what was put in. -/
theorem bounded (hadvance : ∀ item next, advance item = some next → key item ≤ key next)
    (h : Empties key advance items output) {bound : κ} (hbound : ∀ item ∈ items, bound ≤ key item) :
    ∀ item ∈ output, bound ≤ key item := by
  induction h with
  | empty => simp
  | pop hperm hleast hrest ih =>
    rename_i items others output first
    have hfirst : bound ≤ key first := hbound first (hperm.mem_iff.mpr List.mem_cons_self)
    rw [List.forall_mem_cons]
    refine ⟨hfirst, ih ?_⟩
    intro item hitem
    rcases List.mem_append.mp hitem with hnext | hother
    · exact hfirst.trans (hadvance first item (Option.mem_toList.mp hnext))
    · exact hbound item (hperm.mem_iff.mpr (List.mem_cons_of_mem _ hother))

theorem sorted (hadvance : ∀ item next, advance item = some next → key item ≤ key next)
    (h : Empties key advance items output) :
    output.Pairwise fun left right => key left ≤ key right := by
  induction h with
  | empty => exact List.Pairwise.nil
  | pop hperm hleast hrest ih =>
    rename_i items others output first
    rw [List.pairwise_cons]
    refine ⟨hrest.bounded hadvance ?_, ih⟩
    intro item hitem
    rcases List.mem_append.mp hitem with hnext | hother
    · exact hadvance first item (Option.mem_toList.mp hnext)
    · exact hleast item hother

theorem perm {orbit : α → List α}
    (horbit : ∀ item, orbit item = item :: (advance item).toList.flatMap orbit)
    (h : Empties key advance items output) : output.Perm (items.flatMap orbit) := by
  induction h with
  | empty => exact List.Perm.nil
  | pop hperm hleast hrest ih =>
    rename_i items others output first
    rw [List.flatMap_append] at ih
    have hitems : (items.flatMap orbit).Perm
        (first :: ((advance first).toList.flatMap orbit ++ others.flatMap orbit)) := by
      have hflat := hperm.flatMap_right orbit
      rwa [List.flatMap_cons, horbit first, List.cons_append] at hflat
    exact (ih.cons first).trans hitems.symm

end Empties

/-- In a list that is sorted by rank, what ranks below a bound lies in every prefix that has
room for all that ranks below it. -/
theorem countP_le_countP_take {ρ : Type*} [LinearOrder ρ] (rank : α → ρ) {items : List α}
    (hsorted : items.Pairwise fun left right => rank left ≤ rank right) (bound : ρ)
    (wanted : α → Bool) {count : Nat}
    (hroom : items.countP (fun item => decide (rank item ≤ bound)) ≤ count) :
    items.countP (fun item => wanted item && decide (rank item ≤ bound)) ≤
      (items.take count).countP wanted := by
  induction items generalizing count with
  | nil => simp
  | cons first rest ih =>
    rw [List.pairwise_cons] at hsorted
    by_cases hfirst : rank first ≤ bound
    · rw [List.countP_cons, if_pos (decide_eq_true hfirst)] at hroom
      obtain ⟨count, rfl⟩ := Nat.exists_eq_succ_of_ne_zero (by omega : count ≠ 0)
      have hroomRest : rest.countP (fun item => decide (rank item ≤ bound)) ≤ count := by omega
      have hrest := ih hsorted.2 hroomRest
      rw [List.take_succ_cons, List.countP_cons, List.countP_cons]
      simp only [hfirst, decide_true, Bool.and_true] at hrest ⊢
      omega
    · -- Nothing after the first item is below the bound either.
      have hnone : (first :: rest).countP
          (fun item => wanted item && decide (rank item ≤ bound)) = 0 := by
        rw [List.countP_eq_zero]
        intro item hitem hboth
        have hle : rank item ≤ bound := of_decide_eq_true (Bool.and_eq_true_iff.mp hboth).2
        rcases List.mem_cons.mp hitem with rfl | hrest
        · exact hfirst hle
        · exact hfirst ((hsorted.1 item hrest).trans hle)
      omega

end PriorityMerge
end GGateway.Library
