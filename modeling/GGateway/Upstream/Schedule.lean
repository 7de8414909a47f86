import GGateway.Library.PriorityMerge
import GGateway.Upstream.CappedShares

/-!
# The weighted round-robin schedule

The loop of `compileWRR` over its heap is the emptying of a priority queue: a slot that has
`assigned` places is due for the `j`th of them at `j / assigned`, and the slot that is due
first is popped.

* `schedule_eq_sorted`: the schedule is the list of all places in the order of their deadlines,
  identities and indexes.
* `quota_le_count_take`: no prefix of the schedule owes a slot a whole place.
* `smooth_round_robin` puts these together for a compiled selector, with what a window of the
  counter picks.
-/

namespace GGateway.Upstream

open Library Text PriorityMerge

/-! ## Places and deadlines -/

/-- The slot that is pushed back after one of its places, if it has another. -/
def Slot.advance (slot : Slot) : Option Slot :=
  if slot.emitted + 1 < slot.assigned then some { slot with emitted := slot.emitted + 1 } else none

/-- When the next place of a slot is due. -/
def Slot.deadline (slot : Slot) : ℚ :=
  ((slot.emitted : ℚ) + 1) / slot.assigned

def Slot.key (slot : Slot) : ℚ ×ₗ Bytes ×ₗ Nat :=
  toLex (slot.deadline, toLex (slot.identity, slot.index))

/-- The comparison of the heap is that of deadlines, identities and indexes. -/
theorem deadlineBefore_iff {left right : Slot} (hleft : 0 < left.assigned)
    (hright : 0 < right.assigned) :
    deadlineBefore left right = true ↔ left.key < right.key := by
  have hl : (0 : ℚ) < left.assigned := by exact_mod_cast hleft
  have hr : (0 : ℚ) < right.assigned := by exact_mod_cast hright
  have hlt : left.deadline < right.deadline ↔
      (left.emitted + 1) * right.assigned < (right.emitted + 1) * left.assigned := by
    unfold Slot.deadline
    rw [div_lt_div_iff₀ hl hr]
    exact_mod_cast Iff.rfl
  have heq : left.deadline = right.deadline ↔
      (left.emitted + 1) * right.assigned = (right.emitted + 1) * left.assigned := by
    unfold Slot.deadline
    rw [div_eq_div_iff hl.ne' hr.ne']
    exact_mod_cast Iff.rfl
  unfold deadlineBefore Slot.key
  rw [Prod.Lex.toLex_lt_toLex, Prod.Lex.toLex_lt_toLex]
  rw [hlt, heq]
  by_cases hsame : (left.emitted + 1) * right.assigned = (right.emitted + 1) * left.assigned
  · by_cases hidentity : left.identity = right.identity
    · simp [hsame, hidentity]
    · simp [hsame, hidentity]
  · simp [hsame]

variable {slots : List Slot} {slot : Slot}

theorem earliest_le (hassigned : ∀ slot ∈ slots, 0 < slot.assigned)
    (h : earliest slots = some slot) : ∀ other ∈ slots, slot.key ≤ other.key := by
  induction slots generalizing slot with
  | nil => contradiction
  | cons first rest ih =>
    rw [List.forall_mem_cons] at hassigned
    unfold earliest at h
    split at h
    · rename_i hnone
      cases h
      rw [earliest_eq_none hnone]
      simp
    · rename_i other hother
      have hrest := ih hassigned.2 hother
      have hbefore := deadlineBefore_iff (hassigned.2 other (mem_of_earliest hother)) hassigned.1
      rw [List.forall_mem_cons]
      split_ifs at h with hlt
      · cases h
        exact ⟨(hbefore.mp hlt).le, hrest⟩
      · cases h
        have hle : first.key ≤ other.key := not_lt.mp fun hlt' => hlt (hbefore.mpr hlt')
        exact ⟨le_rfl, fun later hlater => hle.trans (hrest later hlater)⟩

/-- The slots that the loop pops, as they are when they are popped. -/
def popSchedule : Nat → List Slot → List Slot
  | 0, _ => []
  | pending + 1, slots =>
    match earliest slots with
    | none => []
    | some slot =>
      slot :: popSchedule pending
        (slot.advance.toList ++ slots.filter (·.index != slot.index))

theorem emitSchedule_eq (pending : Nat) (slots : List Slot) :
    emitSchedule pending slots = (popSchedule pending slots).map Slot.index := by
  induction pending generalizing slots with
  | zero => rfl
  | succ pending ih =>
    unfold emitSchedule popSchedule
    cases hearliest : earliest slots with
    | none => rfl
    | some slot =>
      dsimp only
      rw [List.map_cons, ← ih, Slot.advance]
      split_ifs <;> rfl

/-- The loop empties the heap. -/
theorem popSchedule_empties (h : Ready slots) {pending : Nat}
    (hpending : pending = (slots.map Slot.due).sum) :
    Empties Slot.key Slot.advance slots (popSchedule pending slots) := by
  have hassigned : ∀ slot ∈ slots, 0 < slot.assigned := by
    intro slot hslot
    have hdue := h.due slot hslot
    omega
  induction pending generalizing slots with
  | zero =>
    have hnil : slots = [] := by
      cases slots with
      | nil => rfl
      | cons slot rest =>
        have hdue := h.due slot List.mem_cons_self
        rw [List.map_cons, List.sum_cons, Slot.due] at hpending
        omega
    rw [hnil]
    exact Empties.empty
  | succ pending ih =>
    unfold popSchedule
    cases hearliest : earliest slots with
    | none =>
      rw [earliest_eq_none hearliest] at hpending
      contradiction
    | some slot =>
      have hmem := mem_of_earliest hearliest
      obtain ⟨hready, hsum⟩ := h.advance hmem
      have hnext : (if slot.emitted + 1 < slot.assigned then
          { slot with emitted := slot.emitted + 1 } ::
            slots.filter (·.index != slot.index)
          else slots.filter (·.index != slot.index)) =
          slot.advance.toList ++ slots.filter (·.index != slot.index) := by
        unfold Slot.advance
        split_ifs <;> rfl
      rw [hnext] at hready hsum
      refine Empties.pop (perm_cons_filter h.nodup hmem) ?_ (ih hready (by omega) ?_)
      · intro other hother
        exact earliest_le hassigned hearliest other (List.mem_of_mem_filter hother)
      · intro other hother
        have hdue := hready.due other hother
        omega

theorem key_lt_of_advance {next : Slot} (h : slot.advance = some next) : slot.key ≤ next.key := by
  unfold Slot.advance at h
  split_ifs at h with hmore
  cases h
  have hpos : (0 : ℚ) < slot.assigned := by exact_mod_cast (by omega : 0 < slot.assigned)
  refine (Prod.Lex.toLex_lt_toLex.mpr (Or.inl ?_)).le
  show ((slot.emitted : ℚ) + 1) / slot.assigned < (((slot.emitted + 1 : Nat) : ℚ) + 1) / slot.assigned
  rw [div_lt_div_iff_of_pos_right hpos]
  push_cast
  linarith

/-- A slot with all places that it still has. -/
def Slot.places (slot : Slot) : List Slot :=
  slot :: (List.range (slot.assigned - slot.emitted - 1)).map fun later =>
    { slot with emitted := slot.emitted + 1 + later }

theorem Slot.places_eq (slot : Slot) :
    slot.places = slot :: slot.advance.toList.flatMap Slot.places := by
  unfold Slot.advance
  split_ifs with hmore
  · obtain ⟨count, hcount⟩ : ∃ count, slot.assigned - slot.emitted - 1 = count + 1 :=
      ⟨slot.assigned - slot.emitted - 2, by omega⟩
    have hnext : slot.assigned - (slot.emitted + 1) - 1 = count := by omega
    simp only [Slot.places, Option.toList_some, List.flatMap_cons, List.flatMap_nil,
      List.append_nil, hcount, hnext, List.range_succ_eq_map, List.map_cons, List.map_map,
      Nat.add_zero]
    congr 2
    apply List.map_congr_left
    intro later _
    simp only [Function.comp_apply, Nat.succ_eq_add_one]
    congr 1
    omega
  · have hlast : slot.assigned - slot.emitted - 1 = 0 := by omega
    simp [Slot.places, hlast]

/-! ## The schedule is sorted -/

/-- All places: every slot with the numbers from one to its assignment. -/
def schedulePairs (slots : List Slot) : List (Slot × Nat) :=
  slots.flatMap fun slot => (List.range slot.assigned).map fun place => (slot, place + 1)

def pairKey (pair : Slot × Nat) : ℚ ×ₗ Bytes ×ₗ Nat :=
  toLex ((pair.2 : ℚ) / pair.1.assigned, toLex (pair.1.identity, pair.1.index))

/-- The slot as it is when a place is popped. -/
def placed (pair : Slot × Nat) : Slot :=
  { pair.1 with emitted := pair.2 - 1 }

theorem mem_schedulePairs {pair : Slot × Nat} :
    pair ∈ schedulePairs slots ↔ pair.1 ∈ slots ∧ 1 ≤ pair.2 ∧ pair.2 ≤ pair.1.assigned := by
  simp only [schedulePairs, List.mem_flatMap, List.mem_map, List.mem_range]
  constructor
  · rintro ⟨slot, hslot, place, hplace, rfl⟩
    exact ⟨hslot, Nat.le_add_left 1 place, hplace⟩
  · rintro ⟨hslot, hone, hle⟩
    refine ⟨pair.1, hslot, pair.2 - 1, by omega, ?_⟩
    rw [Nat.sub_add_cancel hone]

theorem key_placed {pair : Slot × Nat} (h : 1 ≤ pair.2) : (placed pair).key = pairKey pair := by
  have hcast : (((pair.2 - 1 : Nat) : ℚ) + 1) = pair.2 := by
    exact_mod_cast congrArg Nat.cast (Nat.sub_add_cancel h)
  show toLex ((((pair.2 - 1 : Nat) : ℚ) + 1) / pair.1.assigned, _) = _
  rw [hcast]
  rfl

section Sorted

variable {cap : Nat} {indexes : List Nat} {slots : List Slot}

theorem places_eq_map (hemitted : slot.emitted = 0) (hassigned : 1 ≤ slot.assigned) :
    slot.places = (List.range slot.assigned).map fun place => placed (slot, place + 1) := by
  obtain ⟨index, identity, weight, assigned, emitted, remainder⟩ := slot
  obtain ⟨count, rfl⟩ := Nat.exists_eq_add_of_le' hassigned
  subst hemitted
  simp only [Slot.places, placed, Nat.add_sub_cancel, Nat.sub_zero, List.range_succ_eq_map,
    List.map_cons, List.map_map, Nat.zero_add]
  congr 1
  apply List.map_congr_left
  intro later _
  simp only [Function.comp_apply, Nat.succ_eq_add_one, Nat.add_comm]

section Places

variable (h : Apportioned cap indexes slots)

include h

theorem flatMap_places :
    slots.flatMap Slot.places = (schedulePairs slots).map placed := by
  rw [schedulePairs, List.map_flatMap]
  apply List.flatMap_congr
  intro slot hslot
  rw [places_eq_map (h.emitted slot hslot) (h.assigned slot hslot), List.map_map]
  rfl

/-- Two places of one schedule have different keys. -/
theorem eq_of_key_eq {left right : Slot × Nat}
    (hleft : left ∈ schedulePairs slots) (hright : right ∈ schedulePairs slots)
    (hkey : pairKey left = pairKey right) : left = right := by
  rw [mem_schedulePairs] at hleft hright
  have hpair := Prod.mk.inj (toLex_inj.mp hkey)
  have hindex : left.1.index = right.1.index := (Prod.mk.inj (toLex_inj.mp hpair.2)).2
  have hslot : left.1 = right.1 :=
    List.inj_on_of_nodup_map (h.same ▸ h.nodup) hleft.1 hright.1 hindex
  have hpos : (right.1.assigned : ℚ) ≠ 0 := by
    have hassigned := h.assigned right.1 hright.1
    exact_mod_cast (by omega : right.1.assigned ≠ 0)
  have hplace : (left.2 : ℚ) = right.2 := by
    have hdeadline := hpair.1
    rw [hslot, div_left_inj' hpos] at hdeadline
    exact hdeadline
  exact Prod.ext hslot (by exact_mod_cast hplace)

theorem popSchedule_eq :
    popSchedule (slots.map Slot.assigned).sum slots =
      ((schedulePairs slots).mergeSort fun left right =>
        decide (pairKey left ≤ pairKey right)).map placed := by
  obtain ⟨hready, hsum⟩ := h.ready
  have hempties := popSchedule_empties hready hsum.symm
  let sorted := (schedulePairs slots).mergeSort fun left right =>
    decide (pairKey left ≤ pairKey right)
  have hperm : sorted.Perm (schedulePairs slots) := List.mergeSort_perm _ _
  have hmem : ∀ {pair}, pair ∈ sorted → pair ∈ schedulePairs slots := fun hpair =>
    hperm.mem_iff.mp hpair
  have hsorted : (sorted.map placed).Pairwise fun left right => left.key ≤ right.key := by
    have hpairs : sorted.Pairwise fun left right => pairKey left ≤ pairKey right :=
      pairwise_mergeSort_of_total (fun left right : Slot × Nat => pairKey left ≤ pairKey right)
        (fun _ _ _ => le_trans) (fun _ _ => le_total _ _) _
    rw [List.pairwise_map]
    refine hpairs.imp_of_mem fun {left right} hleft hright hle => ?_
    rwa [key_placed (mem_schedulePairs.mp (hmem hleft)).2.1,
      key_placed (mem_schedulePairs.mp (hmem hright)).2.1]
  have hall : (popSchedule (slots.map Slot.assigned).sum slots).Perm (sorted.map placed) := by
    have hplaces := hempties.perm Slot.places_eq
    rw [flatMap_places h] at hplaces
    exact hplaces.trans (hperm.map placed).symm
  -- Both lists are sorted, and no two places have one key.
  refine hall.eq_of_pairwise ?_ (hempties.sorted fun _ _ => key_lt_of_advance) hsorted
  intro left right hleft hright hle hge
  obtain ⟨first, hfirst, rfl⟩ := List.mem_map.mp (hall.mem_iff.mp hleft)
  obtain ⟨second, hsecond, rfl⟩ := List.mem_map.mp hright
  have hkeys := le_antisymm hle hge
  rw [key_placed (mem_schedulePairs.mp (hmem hfirst)).2.1,
    key_placed (mem_schedulePairs.mp (hmem hsecond)).2.1] at hkeys
  rw [eq_of_key_eq h (hmem hfirst) (hmem hsecond) hkeys]

/-- The schedule lists all places by deadline, identity and index. -/
theorem schedule_eq_sorted :
    emitSchedule (slots.map Slot.assigned).sum slots =
      ((schedulePairs slots).mergeSort fun left right =>
        decide (pairKey left ≤ pairKey right)).map fun pair => pair.1.index := by
  rw [emitSchedule_eq, popSchedule_eq h, List.map_map]
  rfl

/-! ## Counting -/

/-- What is counted over all places is counted slot by slot. -/
theorem countP_popSchedule (wanted : Slot → Bool) :
    (popSchedule (slots.map Slot.assigned).sum slots).countP wanted =
      (slots.map fun slot => (List.range slot.assigned).countP fun place =>
        wanted (placed (slot, place + 1))).sum := by
  have hperm : (popSchedule (slots.map Slot.assigned).sum slots).Perm
      ((schedulePairs slots).map placed) := by
    rw [popSchedule_eq h]
    exact (List.mergeSort_perm _ _).map placed
  rw [hperm.countP_eq, schedulePairs, List.map_flatMap, List.countP_flatMap]
  congr 1
  apply List.map_congr_left
  intro slot _
  rw [Function.comp_apply, List.map_map, List.countP_map]
  rfl

end Places

/-- Among distinct slots, only one has a given index. -/
theorem sum_of_index (hnodup : (slots.map Slot.index).Nodup) (hslot : slot ∈ slots)
    (value : Slot → Nat) :
    (slots.map fun other => if other.index = slot.index then value other else 0).sum =
      value slot := by
  have hperm := perm_cons_filter hnodup hslot
  rw [(hperm.map _).sum_eq, List.map_cons, List.sum_cons, if_pos rfl]
  have hothers : ((slots.filter (·.index != slot.index)).map fun other =>
      if other.index = slot.index then value other else 0).sum = 0 := by
    rw [List.sum_eq_zero_iff]
    intro count hcount
    obtain ⟨other, hother, rfl⟩ := List.mem_map.mp hcount
    have hne : other.index ≠ slot.index := by simpa using (List.mem_filter.mp hother).2
    exact if_neg hne
  rw [hothers, Nat.add_zero]

theorem count_schedule (h : Apportioned cap indexes slots) (hslot : slot ∈ slots) :
    (emitSchedule (slots.map Slot.assigned).sum slots).count slot.index = slot.assigned := by
  rw [emitSchedule_eq, List.count, List.countP_map, countP_popSchedule h]
  have hslots : (slots.map fun other => (List.range other.assigned).countP fun place =>
      ((· == slot.index) ∘ Slot.index) (placed (other, place + 1))) =
      slots.map fun other => if other.index = slot.index then other.assigned else 0 := by
    apply List.map_congr_left
    intro other _
    show (List.range other.assigned).countP (fun _ => other.index == slot.index) = _
    by_cases hindex : other.index = slot.index
    · simp [hindex]
    · simp [hindex]
  rw [hslots, sum_of_index (h.same ▸ h.nodup) hslot]

/-- The number of places that are due by a moment. -/
theorem countP_range_lt (limit bound : Nat) :
    (List.range limit).countP (fun place => decide (place < bound)) = min limit bound := by
  induction limit with
  | zero => simp
  | succ limit ih =>
    rw [List.range_succ, List.countP_append, ih, List.countP_singleton]
    split_ifs with hlt
    · have hlt := of_decide_eq_true hlt
      omega
    · have hge : ¬ limit < bound := by simpa using hlt
      omega

/-- By `k / T` a slot of `a` places is due for `k * a / T` of them. -/
theorem countP_due (hassigned : 1 ≤ slot.assigned) {prefixLength total : Nat} (htotal : 0 < total)
    (hwithin : prefixLength ≤ total) :
    (List.range slot.assigned).countP (fun place =>
        decide ((placed (slot, place + 1)).deadline ≤ (prefixLength : ℚ) / total)) =
      prefixLength * slot.assigned / total := by
  have hpos : (0 : ℚ) < slot.assigned := by exact_mod_cast hassigned
  have htot : (0 : ℚ) < total := by exact_mod_cast htotal
  have hdue : ∀ place : Nat, (placed (slot, place + 1)).deadline ≤ (prefixLength : ℚ) / total ↔
      place < prefixLength * slot.assigned / total := by
    intro place
    show ((place : ℚ) + 1) / slot.assigned ≤ _ ↔ _
    rw [div_le_div_iff₀ hpos htot, ← Nat.succ_le_iff, Nat.le_div_iff_mul_le htotal]
    exact_mod_cast Iff.rfl
  simp only [hdue]
  rw [countP_range_lt, min_eq_right]
  exact Nat.div_le_of_le_mul (Nat.mul_le_mul_right _ hwithin)

/-- No prefix of the schedule owes a slot a whole place. -/
theorem quota_le_count_take (h : Apportioned cap indexes slots) (hslot : slot ∈ slots)
    {prefixLength : Nat} (hwithin : prefixLength ≤ (slots.map Slot.assigned).sum) :
    prefixLength * slot.assigned / (slots.map Slot.assigned).sum ≤
      ((emitSchedule (slots.map Slot.assigned).sum slots).take prefixLength).count slot.index := by
  let total := (slots.map Slot.assigned).sum
  have htotal : 0 < total := by
    have hassigned := h.assigned slot hslot
    have hle : slot.assigned ≤ total := List.single_le_sum (by simp) _ (List.mem_map_of_mem hslot)
    omega
  have hsorted : (popSchedule total slots).Pairwise fun left right =>
      left.deadline ≤ right.deadline := by
    obtain ⟨hready, hsum⟩ := h.ready
    have hkeys := (popSchedule_empties hready hsum.symm).sorted fun _ _ => key_lt_of_advance
    refine hkeys.imp fun {left right} hle => ?_
    rcases Prod.Lex.toLex_le_toLex.mp hle with hlt | ⟨heq, _⟩
    · exact hlt.le
    · exact heq.le
  -- All places that are due by then fit into the prefix.
  have hroom : (popSchedule total slots).countP
      (fun place => decide (place.deadline ≤ (prefixLength : ℚ) / total)) ≤ prefixLength := by
    rw [countP_popSchedule h]
    have hdue : (slots.map fun slot => (List.range slot.assigned).countP fun place =>
        decide ((placed (slot, place + 1)).deadline ≤ (prefixLength : ℚ) / total)) =
        (slots.map Slot.assigned).map fun assigned => assigned * prefixLength / total := by
      rw [List.map_map]
      apply List.map_congr_left
      intro other hother
      rw [countP_due (h.assigned other hother) htotal hwithin, Nat.mul_comm]
      rfl
    rw [hdue]
    refine (sum_shares_le _ prefixLength total).trans ?_
    exact Nat.div_le_of_le_mul le_rfl
  have hcount := countP_le_countP_take Slot.deadline hsorted ((prefixLength : ℚ) / total)
    (fun place => place.index == slot.index) hroom
  rw [emitSchedule_eq, ← List.map_take, List.count, List.countP_map]
  refine le_trans (le_of_eq ?_) hcount
  rw [countP_popSchedule h]
  have hslots : (slots.map fun other => (List.range other.assigned).countP fun place =>
      (placed (other, place + 1)).index == slot.index &&
        decide ((placed (other, place + 1)).deadline ≤ (prefixLength : ℚ) / total)) =
      slots.map fun other => if other.index = slot.index then
        prefixLength * other.assigned / total else 0 := by
    apply List.map_congr_left
    intro other hother
    show (List.range other.assigned).countP (fun place => other.index == slot.index && _) = _
    by_cases hindex : other.index = slot.index
    · rw [if_pos hindex, ← countP_due (h.assigned other hother) htotal hwithin]
      simp [hindex]
    · simp [hindex]
  rw [hslots, sum_of_index (h.same ▸ h.nodup) hslot]

end Sorted

/-! ## Compiled selectors -/

/-- What divides the divisor of the weights divides all of them. -/
theorem dvd_weightDivisor_iff {divisor : Nat} :
    divisor ∣ weightDivisor slots ↔ ∀ slot ∈ slots, divisor ∣ slot.weight := by
  have hfold : ∀ (slots : List Slot) (start : Nat),
      divisor ∣ slots.foldl (fun divisor slot => Nat.gcd divisor slot.weight) start ↔
        divisor ∣ start ∧ ∀ slot ∈ slots, divisor ∣ slot.weight := by
    intro slots
    induction slots with
    | nil => simp
    | cons slot rest ih =>
      intro start
      rw [List.foldl_cons, ih, Nat.dvd_gcd_iff, List.forall_mem_cons, and_assoc]
  unfold weightDivisor
  rw [hfold]
  simp

/-- The slots that `compileWRR` schedules, with their assignments. -/
def scheduledSlots (endpoints : List WeightedEndpoint) : List Slot :=
  let normalized := normalizeWeights (activeSlots 0 endpoints)
  if weightSum normalized ≤ maxWRRSchedule then
    normalized.map fun slot => { slot with assigned := slot.weight }
  else assignCappedWRRSlots normalized

/-- `selectIndex`: the sequence counter after it, and the ordinal. -/
def WRRSelector.selectIndex (selector : WRRSelector) (sequence : UInt64) : UInt64 × Nat :=
  if selector.schedule = [] then (sequence, selector.direct)
  else
    let next := sequence + 1 - 1
    (sequence + 1, selector.schedule.getD (next.toNat % selector.schedule.length) 0)

section Compiled

variable {endpoints : List WeightedEndpoint} (hseveral : 2 ≤ (activeSlots 0 endpoints).length)
  (hlimit : (activeSlots 0 endpoints).length ≤ maxWRRSchedule)

include hseveral hlimit

theorem compileWRR_eq :
    compileWRR endpoints =
      .ok ⟨emitSchedule ((scheduledSlots endpoints).map Slot.assigned).sum
        (scheduledSlots endpoints), 0⟩ := by
  unfold compileWRR scheduledSlots
  cases hactive : activeSlots 0 endpoints with
  | nil => simp [hactive] at hseveral
  | cons first rest =>
    cases hrest : rest with
    | nil => simp [hactive, hrest] at hseveral
    | cons second others =>
      rw [hactive, hrest] at hlimit
      dsimp only
      rw [if_neg (Nat.not_lt.mpr hlimit)]

theorem scheduledSlots_apportioned :
    Apportioned maxWRRSchedule ((activeSlots 0 endpoints).map Slot.index)
        (scheduledSlots endpoints) ∧
      ((scheduledSlots endpoints).map Slot.assigned).sum =
        min (weightSum (normalizeWeights (activeSlots 0 endpoints))) maxWRRSchedule := by
  unfold scheduledSlots
  dsimp only
  split_ifs with hfits
  · constructor
    · rw [← Nat.mul_one (weightSum _)] at hfits
      have hweights := weights_apportioned endpoints (le_refl 1) hfits
      simpa only [Nat.mul_one] using hweights
    · rw [min_eq_left hfits, List.map_map]
      rfl
  · constructor
    · exact capped_apportioned hlimit
    · have hindexes := indexes_normalizeWeights (activeSlots 0 endpoints)
      have hlength : (normalizeWeights (activeSlots 0 endpoints)).length =
          (activeSlots 0 endpoints).length := by
        rw [normalizeWeights_eq, List.length_map]
      rw [min_eq_right (Nat.not_le.mp hfits).le]
      apply sum_assignCapped
      · rw [hindexes]
        exact nodup_activeSlots 0 endpoints
      · exact fun slot hslot => (mem_normalizeWeights hslot).1
      · omega
      · omega

end Compiled

/-- With every scheduled endpoint selectable, the counter alone decides. -/
theorem WRRSelector.selectNext_all {selector : WRRSelector} (hschedule : selector.schedule ≠ [])
    {selectable : Nat → Bool} (hall : ∀ index ∈ selector.schedule, selectable index = true)
    (sequence : UInt64) :
    selector.selectNext sequence selectable =
      ((selector.selectIndex sequence).1, some (selector.selectIndex sequence).2) := by
  obtain ⟨count, hcount⟩ : ∃ count, selector.schedule.length = count + 1 :=
    Nat.exists_eq_succ_of_ne_zero (by simpa using hschedule)
  have hlt : sequence.toNat % selector.schedule.length < selector.schedule.length :=
    Nat.mod_lt _ (by omega)
  have hstart : sequence + 1 - 1 = sequence := by simp
  unfold WRRSelector.selectNext WRRSelector.selectIndex
  rw [if_neg hschedule, if_neg hschedule]
  dsimp only
  rw [hstart]
  congr 1
  have hfirst : selectable (selector.schedule.getD
      (sequence.toNat % selector.schedule.length) 0) = true := by
    apply hall
    rw [List.getD_eq_getElem _ _ hlt]
    exact List.getElem_mem hlt
  have hzero : (sequence + UInt64.ofNat 0) = sequence := by simp
  rw [show List.range selector.schedule.length = 0 :: (List.range count).map Nat.succ by
    rw [hcount, List.range_succ_eq_map], List.map_cons, hzero, List.find?_cons_of_pos hfirst]

/-- As many consecutive values of the counter as the schedule is long read all of it. -/
theorem WRRSelector.picks_perm {selector : WRRSelector} (hschedule : selector.schedule ≠ [])
    {start : UInt64} (hstart : start.toNat + selector.schedule.length ≤ 2 ^ 64) :
    ((List.range selector.schedule.length).map fun offset =>
      (selector.selectIndex (start + UInt64.ofNat offset)).2).Perm selector.schedule := by
  have hread : ((List.range selector.schedule.length).map fun offset =>
      (selector.selectIndex (start + UInt64.ofNat offset)).2) =
      selector.schedule.rotate start.toNat := by
    rw [← Ring.map_range_getD selector.schedule start.toNat 0]
    apply List.map_congr_left
    intro offset hoffset
    rw [List.mem_range] at hoffset
    have hsum : (start + UInt64.ofNat offset).toNat = start.toNat + offset := by
      rw [UInt64.toNat_add, UInt64.toNat_ofNat']
      omega
    have hback : start + UInt64.ofNat offset + 1 - 1 = start + UInt64.ofNat offset := by simp
    unfold WRRSelector.selectIndex
    rw [if_neg hschedule]
    dsimp only
    rw [hback, hsum]
  rw [hread]
  exact List.rotate_perm _ _

/-- A compiled selector of two or more endpoints: its length, the assignments, the order of its
schedule, what every prefix holds, and what a window of the counter picks. -/
theorem smooth_round_robin {endpoints : List WeightedEndpoint}
    (hseveral : 2 ≤ (activeSlots 0 endpoints).length)
    (hlimit : (activeSlots 0 endpoints).length ≤ maxWRRSchedule) :
    let active := activeSlots 0 endpoints
    let slots := scheduledSlots endpoints
    let normalizedSum := (active.map fun slot => slot.weight / weightDivisor active).sum
    let total := min normalizedSum maxWRRSchedule
    (∀ divisor, divisor ∣ weightDivisor active ↔ ∀ slot ∈ active, divisor ∣ slot.weight) ∧
    (normalizedSum ≤ maxWRRSchedule →
      slots.map (fun slot => (slot.index, slot.identity, slot.assigned)) =
        active.map fun slot => (slot.index, slot.identity, slot.weight / weightDivisor active)) ∧
    (maxWRRSchedule < normalizedSum → slots = assignCappedWRRSlots (normalizeWeights active)) ∧
    ∃ selector, compileWRR endpoints = .ok selector ∧
      selector.schedule.length = total ∧
      (∀ slot ∈ slots, selector.schedule.count slot.index = slot.assigned) ∧
      selector.schedule = ((schedulePairs slots).mergeSort fun left right =>
        decide (pairKey left ≤ pairKey right)).map (fun pair => pair.1.index) ∧
      (∀ slot ∈ slots, ∀ prefixLength ≤ total,
        prefixLength * slot.assigned / total ≤
          (selector.schedule.take prefixLength).count slot.index) ∧
      ∀ (start : UInt64) (selectable : Nat → Bool), start.toNat + total ≤ 2 ^ 64 →
        (∀ slot ∈ active, selectable slot.index = true) → ∀ slot ∈ slots,
          ((List.range total).map fun offset =>
            (selector.selectNext (start + UInt64.ofNat offset) selectable).2).count
              (some slot.index) = slot.assigned := by
  intro active slots normalizedSum total
  have hsum : normalizedSum = weightSum (normalizeWeights active) := by
    rw [normalizeWeights_eq, weightSum, List.map_map]
    rfl
  obtain ⟨happortioned, htotal⟩ := scheduledSlots_apportioned hseveral hlimit
  have htotal : (slots.map Slot.assigned).sum = total := by
    rw [htotal, ← hsum]
  have hlength : (emitSchedule (slots.map Slot.assigned).sum slots).length = total := by
    obtain ⟨hready, hdue⟩ := happortioned.ready
    rw [length_emitSchedule hready hdue.symm, htotal]
  refine ⟨fun divisor => dvd_weightDivisor_iff, ?_, ?_, _, compileWRR_eq hseveral hlimit, hlength,
    fun slot hslot => count_schedule happortioned hslot, schedule_eq_sorted happortioned, ?_, ?_⟩
  · intro hfits
    rw [hsum] at hfits
    show (scheduledSlots endpoints).map _ = _
    rw [scheduledSlots, if_pos hfits, normalizeWeights_eq, List.map_map, List.map_map]
    rfl
  · intro hover
    rw [hsum] at hover
    exact if_neg (Nat.not_le.mpr hover)
  · intro slot hslot prefixLength hwithin
    rw [← htotal] at hwithin ⊢
    exact quota_le_count_take happortioned hslot hwithin
  · intro start selectable hstart hselectable slot hslot
    have hscheduled := (mem_emitSchedule happortioned.ready.1 happortioned.ready.2.symm)
    have hschedule : emitSchedule (slots.map Slot.assigned).sum slots ≠ [] := by
      intro hempty
      have hmem := (hscheduled slot.index).mpr (List.mem_map_of_mem hslot)
      rw [hempty] at hmem
      contradiction
    have hall : ∀ index ∈ emitSchedule (slots.map Slot.assigned).sum slots,
        selectable index = true := by
      intro index hindex
      have hactive := (hscheduled index).mp hindex
      rw [happortioned.same] at hactive
      obtain ⟨other, hother, rfl⟩ := List.mem_map.mp hactive
      exact hselectable other hother
    let selector : WRRSelector := ⟨emitSchedule (slots.map Slot.assigned).sum slots, 0⟩
    have hpicks : ((List.range total).map fun offset =>
        (selector.selectNext (start + UInt64.ofNat offset) selectable).2) =
        ((List.range total).map fun offset =>
          (selector.selectIndex (start + UInt64.ofNat offset)).2).map some := by
      rw [List.map_map]
      apply List.map_congr_left
      intro offset _
      exact congrArg Prod.snd (WRRSelector.selectNext_all hschedule hall _)
    have hperm : ((List.range total).map fun offset =>
        (selector.selectIndex (start + UInt64.ofNat offset)).2).Perm selector.schedule := by
      rw [← hlength] at hstart ⊢
      exact WRRSelector.picks_perm hschedule hstart
    rw [hpicks, List.count_map_of_injective _ _ (Option.some_injective Nat), hperm.count_eq]
    exact count_schedule happortioned hslot

theorem smooth_round_robin_three :
    ∃ selector, compileWRR [⟨ascii "a", 5⟩, ⟨ascii "b", 1⟩, ⟨ascii "c", 1⟩] = .ok selector ∧
      selector.schedule.length = 7 := by
  obtain ⟨_, _, _, selector, hcompiled, hlength, _⟩ :=
    smooth_round_robin (by decide :
      2 ≤ (activeSlots 0 [⟨ascii "a", 5⟩, ⟨ascii "b", 1⟩, ⟨ascii "c", 1⟩]).length) (by decide)
  exact ⟨selector, hcompiled, hlength.trans (by decide)⟩

end GGateway.Upstream
