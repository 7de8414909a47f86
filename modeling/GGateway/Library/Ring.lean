import Mathlib.Data.List.GetD
import Mathlib.Data.List.Rotate
import Mathlib.Tactic

/-!
# Rings

A ring is a list that is read from some position on and around.  The module has
the binary search that finds the position, the order in which a ring is read, the
walk that stops when it has met every member, and the fact that sorting commutes
with leaving members out.
-/

namespace GGateway.Library
namespace Ring

/-! ## Binary search -/

/-- The loop of a binary search; the first argument bounds the iterations. -/
def searchFrom (reached : Nat → Bool) : Nat → Nat → Nat → Nat
  | 0, low, _ => low
  | fuel + 1, low, high =>
    if low < high then
      let middle := (low + high) / 2
      if reached middle then searchFrom reached fuel low middle
      else searchFrom reached fuel (middle + 1) high
    else low

/-- The least position below `count` that `reached` holds of, or `count`. -/
def search (count : Nat) (reached : Nat → Bool) : Nat :=
  searchFrom reached count 0 count

section Search

variable {reached : Nat → Bool} {count : Nat}

/-- The invariant of the loop: below `low` nothing is reached, from `high` on
everything is. -/
theorem searchFrom_spec
    (hmono : ∀ i j, i ≤ j → j < count → reached i = true → reached j = true) {fuel low high : Nat}
    (hfuel : high - low ≤ fuel) (hlow : low ≤ high) (hhigh : high ≤ count)
    (hbelow : ∀ i, i < low → reached i = false)
    (habove : ∀ i, high ≤ i → i < count → reached i = true) :
    searchFrom reached fuel low high ≤ count ∧
      (∀ i, i < searchFrom reached fuel low high → reached i = false) ∧
      ∀ i, searchFrom reached fuel low high ≤ i → i < count → reached i = true := by
  induction fuel generalizing low high with
  | zero =>
    have heq : low = high := by omega
    subst heq
    exact ⟨hhigh, hbelow, habove⟩
  | succ fuel ih =>
    unfold searchFrom
    split_ifs with hlt
    · dsimp only
      split_ifs with hmiddle
      · apply ih
        · omega
        · omega
        · omega
        · exact hbelow
        · intro i hi hcount
          exact hmono _ i hi hcount hmiddle
      · apply ih
        · omega
        · omega
        · exact hhigh
        · intro i hi
          by_contra hreached
          rw [Bool.not_eq_false] at hreached
          exact hmiddle (hmono i _ (by omega) (by omega) hreached)
        · exact habove
    · have heq : low = high := by omega
      subst heq
      exact ⟨hhigh, hbelow, habove⟩

theorem search_spec
    (hmono : ∀ i j, i ≤ j → j < count → reached i = true → reached j = true) :
    search count reached ≤ count ∧ (∀ i, i < search count reached → reached i = false) ∧
      ∀ i, search count reached ≤ i → i < count → reached i = true := by
  apply searchFrom_spec hmono
  · omega
  · omega
  · exact le_rfl
  · intro i hi
    omega
  · intro i hi hcount
    omega

end Search

/-! ## Reading a ring -/

section Reading

variable {α : Type*}

/-- The members from the first reached one on, then the others. -/
def clockwise (reached : α → Bool) (points : List α) : List α :=
  points.filter reached ++ points.filter fun point => !reached point

theorem mem_clockwise {reached : α → Bool} {points : List α} {point : α} :
    point ∈ clockwise reached points ↔ point ∈ points := by
  simp only [clockwise, List.mem_append, List.mem_filter]
  cases reached point <;> simp

/-- Leaving members out of the ring leaves them out of every reading of it. -/
theorem clockwise_filter (reached keep : α → Bool) (points : List α) :
    clockwise reached (points.filter keep) = (clockwise reached points).filter keep := by
  simp only [clockwise, List.filter_append, List.filter_filter]
  congr 1 <;> exact List.filter_congr fun point _ => Bool.and_comm _ _

/-- Where what is reached stays reached, the search splits the list. -/
theorem take_drop_search {reached : α → Bool} {points : List α} (default : α)
    (hsorted : points.Pairwise fun left right => reached left = true → reached right = true) :
    let start := search points.length fun i => reached (points.getD i default)
    start ≤ points.length ∧ points.take start = points.filter (fun point => !reached point) ∧
      points.drop start = points.filter reached := by
  intro start
  have hget : ∀ i, (h : i < points.length) → points.getD i default = points[i] := by
    intro i h
    exact List.getD_eq_getElem points default h
  have hmono : ∀ i j, i ≤ j → j < points.length →
      reached (points.getD i default) = true → reached (points.getD j default) = true := by
    intro i j hij hj hi
    rcases Nat.lt_or_eq_of_le hij with hlt | heq
    · rw [hget j hj]
      rw [hget i (by omega)] at hi
      exact List.pairwise_iff_getElem.mp hsorted i j (by omega) hj hlt hi
    · rw [← heq]
      exact hi
  obtain ⟨hle, hbelow, habove⟩ := search_spec hmono
  have htake : ∀ point ∈ points.take start, reached point = false := by
    intro point hpoint
    obtain ⟨i, hi, rfl⟩ := List.getElem_of_mem hpoint
    rw [List.length_take] at hi
    have hfalse := hbelow i (by omega)
    rwa [hget i (by omega), ← List.getElem_take] at hfalse
  have hdrop : ∀ point ∈ points.drop start, reached point = true := by
    intro point hpoint
    obtain ⟨i, hi, rfl⟩ := List.getElem_of_mem hpoint
    rw [List.length_drop] at hi
    have htrue := habove (start + i) (by omega) (by omega)
    rwa [hget (start + i) (by omega), ← List.getElem_drop] at htrue
  refine ⟨hle, ?_, ?_⟩
  · conv_rhs => rw [← List.take_append_drop start points]
    rw [List.filter_append, List.filter_eq_self.mpr, List.filter_eq_nil_iff.mpr, List.append_nil]
    · intro point hpoint
      simp [hdrop point hpoint]
    · intro point hpoint
      simp [htake point hpoint]
  · conv_rhs => rw [← List.take_append_drop start points]
    rw [List.filter_append, List.filter_eq_nil_iff.mpr, List.filter_eq_self.mpr, List.nil_append]
    · exact hdrop
    · intro point hpoint
      simp [htake point hpoint]

/-- Reading around from the position the search finds is reading clockwise. -/
theorem rotate_search {reached : α → Bool} {points : List α} (default : α)
    (hsorted : points.Pairwise fun left right => reached left = true → reached right = true) :
    points.rotate (search points.length fun i => reached (points.getD i default)) =
      clockwise reached points := by
  obtain ⟨hle, htake, hdrop⟩ := take_drop_search default hsorted
  rw [List.rotate_eq_drop_append_take hle, htake, hdrop]
  rfl

/-- Reading position after position, modulo the length, reads the rotation. -/
theorem map_range_getD (points : List α) (start : Nat) (default : α) :
    (List.range points.length).map
      (fun offset => points.getD ((start + offset) % points.length) default) =
      points.rotate start := by
  apply List.ext_getElem
  · simp
  · intro i hi hi'
    rw [List.length_rotate] at hi'
    have hlt : (start + i) % points.length < points.length := Nat.mod_lt _ (by omega)
    rw [List.getElem_map, List.getElem_range, List.getD_eq_getElem points default hlt,
      List.getElem_rotate]
    simp only [Nat.add_comm]

end Reading

/-! ## Walking a ring -/

/-- Visit ordinals in turn, skipping those already seen, until one is acceptable or
`bound` of them have been met. -/
def walk (bound : Nat) (acceptable : Nat → Bool) : List Nat → List Nat → Nat → Option Nat
  | [], _, _ => none
  | ordinal :: rest, seen, distinct =>
    if distinct < bound then
      if bound ≤ ordinal ∨ ordinal ∈ seen then walk bound acceptable rest seen distinct
      else if acceptable ordinal then some ordinal
      else walk bound acceptable rest (ordinal :: seen) (distinct + 1)
    else none

/-- Distinct members of a list that are as many as the list is long are all of it. -/
theorem mem_of_length_le {members seen : List Nat} (hnodup : seen.Nodup) (hsub : seen ⊆ members)
    (hfull : members.length ≤ seen.length) {ordinal : Nat} (h : ordinal ∈ members) :
    ordinal ∈ seen := by
  have hsubset : seen.toFinset ⊆ members.toFinset := by
    intro member hmember
    rw [List.mem_toFinset] at hmember ⊢
    exact hsub hmember
  have hcard : members.toFinset.card ≤ seen.toFinset.card := by
    rw [List.toFinset_card_of_nodup hnodup]
    exact (List.toFinset_card_le members).trans hfull
  rw [← List.mem_toFinset, Finset.eq_of_subset_of_card_le hsubset hcard, List.mem_toFinset]
  exact h

/-- The walk finds the first acceptable ordinal below the bound: what it skips and
what it leaves out at the end is not acceptable.  `missing` counts what the counter
is ahead of the ordinals seen, which the ordinals below the bound must allow for. -/
theorem walk_eq_find_below {bound missing : Nat} {acceptable : Nat → Bool}
    {ordinals seen members : List Nat} (hnodup : seen.Nodup)
    (hseen : ∀ ordinal ∈ seen, ordinal ∈ members ∧ acceptable ordinal = false)
    (hordinals : ∀ ordinal ∈ ordinals, ordinal < bound → ordinal ∈ members)
    (hmembers : members.length + missing ≤ bound) :
    walk bound acceptable ordinals seen (seen.length + missing) =
      ordinals.find? fun ordinal => decide (ordinal < bound) && acceptable ordinal := by
  induction ordinals generalizing seen with
  | nil => rfl
  | cons ordinal rest ih =>
    have hrest : ∀ other ∈ rest, other < bound → other ∈ members := fun other hother =>
      hordinals other (List.mem_cons_of_mem _ hother)
    unfold walk
    by_cases hroom : seen.length + missing < bound
    · rw [if_pos hroom]
      by_cases hskip : bound ≤ ordinal ∨ ordinal ∈ seen
      · have hnot : ¬ (decide (ordinal < bound) && acceptable ordinal) = true := by
          rcases hskip with hbeyond | hmem
          · simp [not_lt.mpr hbeyond]
          · simp [(hseen ordinal hmem).2]
        rw [if_pos hskip, ih hnodup hseen hrest]
        symm
        apply List.find?_cons_of_neg
        exact hnot
      · rw [if_neg hskip]
        rw [not_or, not_le] at hskip
        by_cases haccept : acceptable ordinal = true
        · rw [if_pos haccept, List.find?_cons_of_pos (by simp [hskip.1, haccept])]
        rw [if_neg haccept, List.find?_cons_of_neg (by simp [haccept])]
        have hnext : ∀ other ∈ ordinal :: seen,
            other ∈ members ∧ acceptable other = false := by
          intro other hother
          rcases List.mem_cons.mp hother with rfl | hother
          · exact ⟨hordinals other List.mem_cons_self hskip.1, by simpa using haccept⟩
          · exact hseen other hother
        have hcount : seen.length + missing + 1 = (ordinal :: seen).length + missing := by
          rw [List.length_cons]
          omega
        rw [hcount]
        exact ih (List.nodup_cons.mpr ⟨hskip.2, hnodup⟩) hnext hrest
    · -- Every ordinal below the bound has been seen, so none of the rest is acceptable.
      rw [if_neg hroom]
      symm
      rw [List.find?_eq_none]
      intro other hother
      by_cases hbelow : other < bound
      · have hall := mem_of_length_le hnodup (fun member hmember => (hseen member hmember).1)
          (by omega) (hordinals other hother hbelow)
        simp [(hseen other hall).2]
      · simp [hbelow]

/-- Where every ordinal is below the bound, the walk is a plain search. -/
theorem walk_eq_find {bound : Nat} {acceptable : Nat → Bool} {ordinals seen : List Nat}
    (hnodup : seen.Nodup) (hseen : ∀ ordinal ∈ seen, ordinal < bound ∧ acceptable ordinal = false)
    (hordinals : ∀ ordinal ∈ ordinals, ordinal < bound) :
    walk bound acceptable ordinals seen seen.length = ordinals.find? acceptable := by
  have hbelow : walk bound acceptable ordinals seen (seen.length + 0) =
      ordinals.find? fun ordinal => decide (ordinal < bound) && acceptable ordinal := by
    apply walk_eq_find_below hnodup
    · intro ordinal hordinal
      exact ⟨List.mem_range.mpr (hseen ordinal hordinal).1, (hseen ordinal hordinal).2⟩
    · exact fun ordinal _ hlt => List.mem_range.mpr hlt
    · simp
  rw [Nat.add_zero] at hbelow
  rw [hbelow]
  apply List.find?_congr
  intro ordinal hordinal
  simp [hordinals ordinal hordinal]

/-- Whatever the walk has seen, it returns something acceptable. -/
theorem acceptable_of_walk {bound : Nat} {acceptable : Nat → Bool} {ordinals seen : List Nat}
    {distinct ordinal : Nat} (h : walk bound acceptable ordinals seen distinct = some ordinal) :
    acceptable ordinal = true := by
  induction ordinals generalizing seen distinct with
  | nil => contradiction
  | cons first rest ih =>
    unfold walk at h
    split_ifs at h with hroom hskip haccept
    · exact ih h
    · cases h
      exact haccept
    · exact ih h

/-- The walk together with the ordinals it asks about, in order. -/
def walkLogged (bound : Nat) (acceptable : Nat → Bool) :
    List Nat → List Nat → Nat → Option Nat × List Nat
  | [], _, _ => (none, [])
  | ordinal :: rest, seen, distinct =>
    if distinct < bound then
      if bound ≤ ordinal ∨ ordinal ∈ seen then walkLogged bound acceptable rest seen distinct
      else if acceptable ordinal then (some ordinal, [ordinal])
      else
        let (found, asked) := walkLogged bound acceptable rest (ordinal :: seen) (distinct + 1)
        (found, ordinal :: asked)
    else (none, [])

theorem walkLogged_fst (bound : Nat) (acceptable : Nat → Bool) (ordinals seen : List Nat)
    (distinct : Nat) :
    (walkLogged bound acceptable ordinals seen distinct).1 =
      walk bound acceptable ordinals seen distinct := by
  induction ordinals generalizing seen distinct with
  | nil => rfl
  | cons ordinal rest ih =>
    unfold walkLogged walk
    split_ifs
    · exact ih seen distinct
    · rfl
    · exact ih (ordinal :: seen) (distinct + 1)
    · rfl

/-- The walk asks about no ordinal twice, and about none that it has seen. -/
theorem walkLogged_fresh (bound : Nat) (acceptable : Nat → Bool) (ordinals seen : List Nat)
    (distinct : Nat) :
    (walkLogged bound acceptable ordinals seen distinct).2.Nodup ∧
      ∀ ordinal ∈ (walkLogged bound acceptable ordinals seen distinct).2,
        ordinal < bound ∧ ordinal ∉ seen := by
  induction ordinals generalizing seen distinct with
  | nil => exact ⟨List.nodup_nil, nofun⟩
  | cons ordinal rest ih =>
    unfold walkLogged
    split_ifs with hroom hskip haccept
    · exact ih seen distinct
    · rw [not_or, not_le] at hskip
      exact ⟨List.nodup_singleton _, List.forall_mem_singleton.mpr hskip⟩
    · rw [not_or, not_le] at hskip
      obtain ⟨hnodup, hfresh⟩ := ih (ordinal :: seen) (distinct + 1)
      constructor
      · refine List.nodup_cons.mpr ⟨fun hmem => ?_, hnodup⟩
        exact (hfresh ordinal hmem).2 List.mem_cons_self
      · refine List.forall_mem_cons.mpr ⟨hskip, fun other hother => ?_⟩
        obtain ⟨hlt, hnot⟩ := hfresh other hother
        exact ⟨hlt, fun hmem => hnot (List.mem_cons_of_mem _ hmem)⟩
    · exact ⟨List.nodup_nil, nofun⟩

/-! ## Sorting a ring -/

section Sorting

variable {α : Type*} {le : α → α → Bool}

/-- A list that is cut where a condition fails for the first time. -/
theorem append_inj_of_split (condition : α → Bool) {left left' right right' : List α}
    (h : left ++ right = left' ++ right') (hleft : ∀ a ∈ left, condition a = true)
    (hleft' : ∀ a ∈ left', condition a = true) (hright : ∀ a ∈ right, condition a = false)
    (hright' : ∀ a ∈ right', condition a = false) : left = left' ∧ right = right' := by
  have hfilter := congrArg (List.filter condition) h
  rw [List.filter_append, List.filter_append, List.filter_eq_self.mpr hleft,
    List.filter_eq_self.mpr hleft', List.filter_eq_nil_iff.mpr (by simpa using hright),
    List.filter_eq_nil_iff.mpr (by simpa using hright'), List.append_nil, List.append_nil]
    at hfilter
  subst hfilter
  exact ⟨rfl, List.append_cancel_left h⟩

/-- A stable sort of part of a list is that part of the sorted list. -/
theorem mergeSort_filter (htrans : ∀ a b c, le a b = true → le b c = true → le a c = true)
    (htotal : ∀ a b, (le a b || le b a) = true) (keep : α → Bool) (points : List α) :
    (points.filter keep).mergeSort le = (points.mergeSort le).filter keep := by
  induction points with
  | nil => simp
  | cons point points ih =>
    obtain ⟨before, after, hwhole, hrest, hbefore⟩ :=
      List.mergeSort_cons htrans htotal point points
    -- What stands behind `point` in a sorted list is not before it.
    have hbehind : ∀ {before after : List α} {whole : List α},
        (point :: whole).mergeSort le = before ++ point :: after →
        ∀ other ∈ after, le point other = true := by
      intro before after whole heq other hother
      have hsorted := List.pairwise_mergeSort htrans htotal (point :: whole)
      rw [heq, List.pairwise_append] at hsorted
      exact (List.pairwise_cons.mp hsorted.2.1).1 other hother
    have hafter := hbehind hwhole
    by_cases hkeep : keep point = true
    · rw [List.filter_cons_of_pos hkeep]
      obtain ⟨before', after', hwhole', hrest', hbefore'⟩ :=
        List.mergeSort_cons htrans htotal point (points.filter keep)
      have hafter' := hbehind hwhole'
      have hsplit : before' ++ after' = before.filter keep ++ after.filter keep := by
        rw [← hrest', ih, hrest, List.filter_append]
      obtain ⟨rfl, rfl⟩ := append_inj_of_split (fun other => !le point other) hsplit
        hbefore' (fun other hother => hbefore other (List.mem_of_mem_filter hother))
        (fun other hother => by simp [hafter' other hother])
        (fun other hother => by simp [hafter other (List.mem_of_mem_filter hother)])
      rw [hwhole', hwhole, List.filter_append, List.filter_cons_of_pos hkeep]
    · rw [List.filter_cons_of_neg hkeep, ih, hwhole, hrest, List.filter_append,
        List.filter_append, List.filter_cons_of_neg hkeep]

end Sorting

end Ring
end GGateway.Library
