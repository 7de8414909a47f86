import Mathlib.Data.List.Nodup
import Mathlib.Tactic

/-!
# Finite maps as entry lists

A map that is iterated as well as looked up is kept as the list of its entries,
in one iteration order.  Such a list stands for a map when no key repeats; all
facts below are stated through `List.lookup`, so that nothing depends on the
order.
-/

namespace GGateway.Library
namespace Assoc

variable {α β : Type*}

/-- No key repeats. -/
def Keyed (entries : List (α × β)) : Prop :=
  (entries.map Prod.fst).Nodup

@[simp] theorem keyed_nil : Keyed ([] : List (α × β)) :=
  List.nodup_nil

variable [BEq α]

/-- Replace the value at a key, or add the key at the end. -/
def upsert (key : α) (update : Option β → β) : List (α × β) → List (α × β)
  | [] => [(key, update none)]
  | (stored, value) :: rest =>
    if stored == key then (stored, update (some value)) :: rest
    else (stored, value) :: upsert key update rest

/-- Remove a key. -/
def erase (key : α) (entries : List (α × β)) : List (α × β) :=
  entries.filter fun entry => entry.1 != key

variable [LawfulBEq α]

variable {entries : List (α × β)} {key : α}

theorem lookup_eq_some_iff (keyed : Keyed entries) {value : β} :
    entries.lookup key = some value ↔ (key, value) ∈ entries := by
  induction entries with
  | nil => simp
  | cons entry rest ih =>
    obtain ⟨stored, first⟩ := entry
    simp only [Keyed, List.map_cons, List.nodup_cons] at keyed
    by_cases hkey : key = stored
    · subst hkey
      have habsent : (key, value) ∉ rest := by
        intro hrest
        exact keyed.1 (List.mem_map_of_mem hrest)
      simp [habsent, eq_comm]
    · have hne : (key == stored) = false := by simpa using hkey
      simp [List.lookup_cons, hne, ih keyed.2, hkey]

/-- Two entry lists of one map agree on every key. -/
theorem lookup_eq_of_perm {left right : List (α × β)} (hperm : left.Perm right)
    (keyed : Keyed left) (key : α) : left.lookup key = right.lookup key := by
  have keyed' : Keyed right := (hperm.map Prod.fst).nodup_iff.mp keyed
  apply Option.ext
  intro value
  rw [lookup_eq_some_iff keyed, lookup_eq_some_iff keyed', hperm.mem_iff]

theorem lookup_upsert_self (key : α) (update : Option β → β) (entries : List (α × β)) :
    (upsert key update entries).lookup key = some (update (entries.lookup key)) := by
  induction entries with
  | nil => simp [upsert]
  | cons entry rest ih =>
    obtain ⟨stored, value⟩ := entry
    by_cases hstored : stored = key
    · subst hstored
      simp [upsert]
    · have hkey : (key == stored) = false := by simpa using Ne.symm hstored
      simp [upsert, hstored, List.lookup_cons, hkey, ih]

theorem lookup_upsert_of_ne {other : α} (hne : other ≠ key) (update : Option β → β)
    (entries : List (α × β)) : (upsert key update entries).lookup other = entries.lookup other := by
  have hother : (other == key) = false := by simpa using hne
  induction entries with
  | nil => simp [upsert, List.lookup_cons, hother]
  | cons entry rest ih =>
    obtain ⟨stored, value⟩ := entry
    by_cases hstored : stored = key
    · subst hstored
      simp [upsert, List.lookup_cons, hother]
    · simp [upsert, hstored, List.lookup_cons, ih]

theorem mem_keys_upsert {other : α} {update : Option β → β} :
    other ∈ (upsert key update entries).map Prod.fst ↔
      other = key ∨ other ∈ entries.map Prod.fst := by
  induction entries with
  | nil => simp [upsert]
  | cons entry rest ih =>
    obtain ⟨stored, value⟩ := entry
    by_cases hstored : stored = key
    · subst hstored
      simp [upsert]
    · have hne : (stored == key) = false := by simpa using hstored
      simp only [upsert, hne, Bool.false_eq_true, if_false, List.map_cons, List.mem_cons, ih]
      tauto

theorem keyed_upsert {update : Option β → β} (keyed : Keyed entries) :
    Keyed (upsert key update entries) := by
  induction entries with
  | nil => simp [upsert, Keyed]
  | cons entry rest ih =>
    obtain ⟨stored, value⟩ := entry
    have hsplit := keyed
    simp only [Keyed, List.map_cons, List.nodup_cons] at hsplit
    by_cases hstored : stored = key
    · subst hstored
      simpa [upsert, Keyed] using hsplit
    have hne : (stored == key) = false := by simpa using hstored
    have hfresh : stored ∉ (upsert key update rest).map Prod.fst := by
      rw [mem_keys_upsert]
      exact not_or.mpr ⟨hstored, hsplit.1⟩
    simp only [upsert, hne, Bool.false_eq_true, if_false, Keyed, List.map_cons,
      List.nodup_cons]
    exact ⟨hfresh, ih hsplit.2⟩

theorem lookup_erase_self (key : α) (entries : List (α × β)) :
    (erase key entries).lookup key = none := by
  rw [List.lookup_eq_none_iff]
  intro entry hentry
  simpa [bne, BEq.comm] using (List.mem_filter.mp hentry).2

theorem lookup_erase_of_ne {other : α} (hne : other ≠ key) (entries : List (α × β)) :
    (erase key entries).lookup other = entries.lookup other := by
  induction entries with
  | nil => rfl
  | cons entry rest ih =>
    obtain ⟨stored, value⟩ := entry
    by_cases hstored : stored = key
    · subst hstored
      have hother : (other == stored) = false := by simpa using hne
      simpa [erase, List.lookup_cons, hother] using ih
    · have hcons : erase key ((stored, value) :: rest) = (stored, value) :: erase key rest :=
        List.filter_cons_of_pos (by simpa using hstored)
      rw [hcons, List.lookup_cons, List.lookup_cons, ih]

omit [LawfulBEq α] in
theorem keyed_erase (keyed : Keyed entries) : Keyed (erase key entries) :=
  List.Nodup.sublist (List.filter_sublist.map Prod.fst) keyed

/-- The entries at a key are the value that is looked up there. -/
theorem map_filter_key (keyed : Keyed entries) (key : α) :
    (entries.filter fun entry => entry.1 == key).map Prod.snd = (entries.lookup key).toList := by
  induction entries with
  | nil => rfl
  | cons entry rest ih =>
    obtain ⟨stored, value⟩ := entry
    simp only [Keyed, List.map_cons, List.nodup_cons] at keyed
    have hrest := ih keyed.2
    by_cases hstored : stored = key
    · subst hstored
      have habsent : rest.lookup stored = none := by
        rw [List.lookup_eq_none_iff]
        intro entry hentry
        have hne : stored ≠ entry.1 := fun h => keyed.1 (h ▸ List.mem_map_of_mem hentry)
        simpa using hne
      rw [habsent] at hrest
      simpa [List.lookup_cons] using hrest
    · have hother : (key == stored) = false := by simpa using Ne.symm hstored
      simpa [List.lookup_cons, hstored, hother] using hrest

end Assoc
end GGateway.Library
