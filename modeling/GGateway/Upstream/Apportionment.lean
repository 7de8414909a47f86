import GGateway.Upstream.Selection

/-!
# What the compiled balancers contain

Every positive-weight endpoint is in the compiled schedule, and in the compiled
ring: dividing by the greatest common divisor leaves every weight positive, the
capped assignment gives every slot at least one place, and the loop over the heap
writes as many entries for a slot as it was assigned.
-/

namespace GGateway.Upstream

open Text Model Library

/-! ## Active slots -/

variable {endpoints : List WeightedEndpoint} {slot : Slot} {slots : List Slot} {cap : Nat}

theorem mem_activeSlots {start : Nat} :
    slot ∈ activeSlots start endpoints ↔
      ∃ position endpoint, endpoints[position]? = some endpoint ∧ endpoint.weight ≠ 0 ∧
        slot = ⟨start + position, endpoint.identity, endpoint.weight, 0, 0, 0⟩ := by
  induction endpoints generalizing start with
  | nil => simp [activeSlots]
  | cons endpoint rest ih =>
    have htail : (∃ position other, (endpoint :: rest)[position + 1]? = some other ∧
          other.weight ≠ 0 ∧
          slot = ⟨start + (position + 1), other.identity, other.weight, 0, 0, 0⟩) ↔
        slot ∈ activeSlots (start + 1) rest := by
      rw [ih]
      simp only [List.getElem?_cons_succ, Nat.add_assoc, Nat.add_comm 1]
    rw [← Nat.or_exists_add_one, htail]
    simp only [activeSlots]
    split_ifs with hweight
    · simp [hweight]
    · rw [List.mem_cons]
      simp [hweight]

theorem lt_of_mem_activeSlots {start : Nat} (h : slot ∈ activeSlots start endpoints) :
    start ≤ slot.index := by
  obtain ⟨position, endpoint, _, _, rfl⟩ := mem_activeSlots.mp h
  exact Nat.le_add_right start position

theorem nodup_activeSlots (start : Nat) (endpoints : List WeightedEndpoint) :
    ((activeSlots start endpoints).map Slot.index).Nodup := by
  induction endpoints generalizing start with
  | nil => exact List.nodup_nil
  | cons endpoint rest ih =>
    unfold activeSlots
    split_ifs
    · exact ih (start + 1)
    rw [List.map_cons, List.nodup_cons]
    refine ⟨?_, ih (start + 1)⟩
    intro hmem
    obtain ⟨slot, hslot, hindex⟩ := List.mem_map.mp hmem
    have hlt := lt_of_mem_activeSlots hslot
    dsimp only at hindex
    omega

/-! ## Common divisors -/

/-- The divisor of `normalizeWeights`. -/
def weightDivisor (slots : List Slot) : Nat :=
  slots.foldl (fun divisor slot => Nat.gcd divisor slot.weight) 0

theorem normalizeWeights_eq (slots : List Slot) :
    normalizeWeights slots =
      slots.map fun slot => { slot with weight := slot.weight / weightDivisor slots } :=
  rfl

theorem foldl_gcd_dvd (slots : List Slot) (start : Nat) :
    slots.foldl (fun divisor slot => Nat.gcd divisor slot.weight) start ∣ start ∧
      ∀ slot ∈ slots,
        slots.foldl (fun divisor slot => Nat.gcd divisor slot.weight) start ∣ slot.weight := by
  induction slots generalizing start with
  | nil => exact ⟨dvd_refl start, by simp⟩
  | cons first rest ih =>
    obtain ⟨hstart, hrest⟩ := ih (Nat.gcd start first.weight)
    rw [List.foldl_cons]
    refine ⟨hstart.trans (Nat.gcd_dvd_left _ _), ?_⟩
    intro slot hslot
    rcases List.mem_cons.mp hslot with rfl | hslot
    · exact hstart.trans (Nat.gcd_dvd_right _ _)
    · exact hrest slot hslot

/-- Dividing by the common divisor leaves a positive weight positive. -/
theorem one_le_div_weightDivisor (h : slot ∈ slots) (hweight : slot.weight ≠ 0) :
    1 ≤ slot.weight / weightDivisor slots := by
  have hdvd := (foldl_gcd_dvd slots 0).2 slot h
  exact Nat.div_pos (Nat.le_of_dvd (by omega) hdvd) (Nat.pos_of_dvd_of_pos hdvd (by omega))

/-! ## Capped assignments -/

theorem sum_shares_le (weights : List Nat) (shared total : Nat) :
    (weights.map fun weight => weight * shared / total).sum ≤ weights.sum * shared / total := by
  induction weights with
  | nil => simp
  | cons weight rest ih =>
    rw [List.map_cons, List.sum_cons, List.sum_cons, Nat.add_mul]
    calc weight * shared / total + (rest.map fun weight => weight * shared / total).sum
        ≤ weight * shared / total + rest.sum * shared / total := by omega
      _ ≤ (weight * shared + rest.sum * shared) / total := Nat.div_add_div_le_add_div

/-- Giving one more to some of the slots. -/
theorem sum_assigned_bump (favours : Slot → Bool) (slots : List Slot) :
    ((slots.map fun slot =>
      if favours slot then { slot with assigned := slot.assigned + 1 } else slot).map
        Slot.assigned).sum =
      (slots.map Slot.assigned).sum + slots.countP favours := by
  induction slots with
  | nil => rfl
  | cons slot rest ih =>
    rw [List.map_cons, List.map_cons, List.sum_cons, ih, List.map_cons, List.sum_cons,
      List.countP_cons]
    split_ifs
    · dsimp only
      omega
    · omega

/-- At most as many slots are favoured as there are favours. -/
theorem countP_favoured_le (hnodup : (slots.map Slot.index).Nodup) (favoured : List Slot) :
    (slots.countP fun slot => favoured.any (·.index == slot.index)) ≤ favoured.length := by
  have hsub : ((slots.filter fun slot => favoured.any (·.index == slot.index)).map Slot.index) ⊆
      favoured.map Slot.index := by
    intro index hindex
    obtain ⟨slot, hslot, rfl⟩ := List.mem_map.mp hindex
    obtain ⟨other, hother, heq⟩ := List.any_eq_true.mp (List.mem_filter.mp hslot).2
    exact List.mem_map.mpr ⟨other, hother, by simpa using heq⟩
  have hpart : ((slots.filter fun slot => favoured.any (·.index == slot.index)).map
      Slot.index).Nodup :=
    hnodup.sublist (List.filter_sublist.map Slot.index)
  have hle := (List.subperm_of_subset hpart hsub).length_le
  rwa [List.length_map, List.length_map, ← List.countP_eq_length_filter] at hle

/-- What an assignment leaves of the slots: their indexes, with at least one place
for each and none used, and no more places than allowed. -/
structure Apportioned (cap : Nat) (indexes : List Nat) (slots : List Slot) : Prop where
  same : slots.map Slot.index = indexes
  nodup : indexes.Nodup
  assigned : ∀ slot ∈ slots, 1 ≤ slot.assigned
  emitted : ∀ slot ∈ slots, slot.emitted = 0
  total : (slots.map Slot.assigned).sum ≤ cap

theorem assignCapped_apportioned (hnodup : (slots.map Slot.index).Nodup)
    (hcap : slots.length ≤ cap) (hemitted : ∀ slot ∈ slots, slot.emitted = 0) :
    Apportioned cap (slots.map Slot.index) (assignCapped cap slots) := by
  let shared := slots.map fun slot =>
    { slot with
      assigned := 1 + slot.weight * (cap - slots.length) / weightSum slots
      remainder := slot.weight * (cap - slots.length) % weightSum slots }
  let favoured := (shared.mergeSort remainderBefore).take (cap - (shared.map Slot.assigned).sum)
  let favours : Slot → Bool := fun slot => favoured.any (·.index == slot.index)
  have heq : assignCapped cap slots = shared.map fun slot =>
      if favours slot then { slot with assigned := slot.assigned + 1 } else slot := rfl
  have hindexes : shared.map Slot.index = slots.map Slot.index := by
    rw [List.map_map]
    rfl
  have hshared : (shared.map Slot.assigned).sum ≤ cap := by
    have hsum : (shared.map Slot.assigned).sum = slots.length +
        ((slots.map Slot.weight).map fun weight =>
          weight * (cap - slots.length) / weightSum slots).sum := by
      simp [shared, Function.comp_def, List.sum_map_add]
    have hle := sum_shares_le (slots.map Slot.weight) (cap - slots.length) (weightSum slots)
    have htotal : (slots.map Slot.weight).sum * (cap - slots.length) / weightSum slots ≤
        cap - slots.length :=
      Nat.div_le_of_le_mul le_rfl
    omega
  refine ⟨?_, hnodup, ?_, ?_, ?_⟩
  · rw [heq, List.map_map, ← hindexes]
    apply List.map_congr_left
    intro slot _
    show (if favours slot then _ else _ : Slot).index = slot.index
    split_ifs <;> rfl
  · intro slot hslot
    rw [heq] at hslot
    obtain ⟨other, hother, rfl⟩ := List.mem_map.mp hslot
    obtain ⟨_, _, rfl⟩ := List.mem_map.mp hother
    split_ifs
    · exact Nat.le_add_left _ _
    · exact Nat.le_add_right _ _
  · intro slot hslot
    rw [heq] at hslot
    obtain ⟨other, hother, rfl⟩ := List.mem_map.mp hslot
    obtain ⟨origin, horigin, rfl⟩ := List.mem_map.mp hother
    split_ifs <;> exact hemitted origin horigin
  · rw [heq, sum_assigned_bump]
    have hfew : shared.countP (fun slot => favoured.any (·.index == slot.index)) ≤ _ :=
      countP_favoured_le (by rw [hindexes]; exact hnodup) favoured
    have hlength : favoured.length ≤ cap - (shared.map Slot.assigned).sum :=
      List.length_take_le _ _
    show _ + shared.countP (fun slot => favoured.any (·.index == slot.index)) ≤ cap
    omega

/-! ## The schedule -/

/-- The places of a slot that are not used yet. -/
def Slot.due (slot : Slot) : Nat :=
  slot.assigned - slot.emitted

/-- Distinct slots, each with a place left. -/
structure Ready (slots : List Slot) : Prop where
  nodup : (slots.map Slot.index).Nodup
  due : ∀ slot ∈ slots, slot.emitted < slot.assigned

theorem mem_of_earliest (h : earliest slots = some slot) : slot ∈ slots := by
  induction slots generalizing slot with
  | nil => contradiction
  | cons first rest ih =>
    unfold earliest at h
    split at h
    · cases h
      exact List.mem_cons_self
    rename_i other hother
    split_ifs at h
    · cases h
      exact List.mem_cons_of_mem _ (ih hother)
    · cases h
      exact List.mem_cons_self

theorem earliest_eq_none (h : earliest slots = none) : slots = [] := by
  cases slots with
  | nil => rfl
  | cons first rest =>
    unfold earliest at h
    split at h <;> contradiction

/-- Taking one of distinct slots out. -/
theorem perm_cons_filter (hnodup : (slots.map Slot.index).Nodup) (h : slot ∈ slots) :
    slots.Perm (slot :: slots.filter (·.index != slot.index)) := by
  induction slots with
  | nil => contradiction
  | cons first rest ih =>
    rw [List.map_cons, List.nodup_cons] at hnodup
    rcases List.mem_cons.mp h with rfl | hrest
    · have hkept : rest.filter (·.index != slot.index) = rest := by
        rw [List.filter_eq_self]
        intro other hother
        rw [bne_iff_ne]
        intro heq
        exact hnodup.1 (List.mem_map.mpr ⟨other, hother, heq⟩)
      rw [List.filter_cons_of_neg (by simp), hkept]
    · have hne : first.index ≠ slot.index := by
        intro heq
        exact hnodup.1 (List.mem_map.mpr ⟨slot, hrest, heq.symm⟩)
      rw [List.filter_cons_of_pos (by simpa using hne)]
      exact ((ih hnodup.2 hrest).cons first).trans (List.Perm.swap _ _ _)

/-- One entry of the schedule is one place of one slot. -/
theorem Ready.advance (h : Ready slots) (hslot : slot ∈ slots) :
    let others := slots.filter (·.index != slot.index)
    let next := { slot with emitted := slot.emitted + 1 }
    let rest := if next.emitted < next.assigned then next :: others else others
    Ready rest ∧ (slots.map Slot.due).sum = (rest.map Slot.due).sum + 1 := by
  intro others next rest
  have hperm := perm_cons_filter h.nodup hslot
  have hsum : (slots.map Slot.due).sum = slot.due + (others.map Slot.due).sum :=
    (hperm.map Slot.due).sum_eq
  have hnodup : (slot.index :: others.map Slot.index).Nodup :=
    (hperm.map Slot.index).nodup_iff.mp h.nodup
  have hothers : ∀ other ∈ others, other.emitted < other.assigned := fun other hother =>
    h.due other (List.mem_of_mem_filter hother)
  have hdue := h.due slot hslot
  by_cases hmore : next.emitted < next.assigned
  · have hrest : rest = next :: others := if_pos hmore
    rw [hrest, hsum]
    refine ⟨⟨hnodup, ?_⟩, ?_⟩
    · intro other hother
      rcases List.mem_cons.mp hother with rfl | hother
      · exact hmore
      · exact hothers other hother
    · have hnext : next.due = slot.due - 1 := Nat.sub_add_eq _ _ _
      have hpos : 1 ≤ slot.due := Nat.sub_pos_of_lt hdue
      rw [List.map_cons, List.sum_cons, hnext]
      omega
  · have hrest : rest = others := if_neg hmore
    have hlast : slot.due = 1 := by
      have hle : slot.assigned ≤ slot.emitted + 1 := Nat.not_lt.mp hmore
      unfold Slot.due
      omega
    rw [hrest, hsum, hlast]
    exact ⟨⟨(List.nodup_cons.mp hnodup).2, hothers⟩, by omega⟩

theorem length_emitSchedule (h : Ready slots) {pending : Nat}
    (hpending : pending = (slots.map Slot.due).sum) :
    (emitSchedule pending slots).length = pending := by
  induction pending generalizing slots with
  | zero => rfl
  | succ pending ih =>
    unfold emitSchedule
    split
    · rename_i hnone
      rw [earliest_eq_none hnone] at hpending
      contradiction
    · rename_i slot hslot
      obtain ⟨hready, hsum⟩ := h.advance (mem_of_earliest hslot)
      rw [List.length_cons, ih hready (by omega)]

/-- The loop writes exactly the slots it was given. -/
theorem mem_emitSchedule (h : Ready slots) {pending : Nat}
    (hpending : pending = (slots.map Slot.due).sum) (index : Nat) :
    index ∈ emitSchedule pending slots ↔ index ∈ slots.map Slot.index := by
  induction pending generalizing slots with
  | zero =>
    have hnil : slots = [] := by
      cases slots with
      | nil => rfl
      | cons slot rest =>
        have hdue := h.due slot List.mem_cons_self
        rw [List.map_cons, List.sum_cons, Slot.due] at hpending
        omega
    rw [hnil]
    rfl
  | succ pending ih =>
    unfold emitSchedule
    split
    · rename_i hnone
      rw [earliest_eq_none hnone] at hpending
      contradiction
    rename_i slot hslot
    have hmem := mem_of_earliest hslot
    obtain ⟨hready, hsum⟩ := h.advance hmem
    have hindexes := ((perm_cons_filter h.nodup hmem).map Slot.index).mem_iff (a := index)
    rw [List.mem_cons, ih hready (by omega), hindexes, List.map_cons, List.mem_cons]
    split_ifs
    · rw [List.map_cons, List.mem_cons]
      tauto
    · rfl

theorem Apportioned.ready {indexes : List Nat} (h : Apportioned cap indexes slots) :
    Ready slots ∧ (slots.map Slot.due).sum = (slots.map Slot.assigned).sum := by
  refine ⟨⟨h.same ▸ h.nodup, ?_⟩, ?_⟩
  · intro slot hslot
    have hassigned := h.assigned slot hslot
    have hemitted := h.emitted slot hslot
    omega
  · congr 1
    apply List.map_congr_left
    intro slot hslot
    rw [Slot.due, h.emitted slot hslot, Nat.sub_zero]

/-! ## Compiled balancers -/

/-- Dividing the weights of the active endpoints of a list. -/
theorem mem_normalizeWeights (h : slot ∈ normalizeWeights (activeSlots 0 endpoints)) :
    1 ≤ slot.weight ∧ slot.emitted = 0 := by
  rw [normalizeWeights_eq] at h
  obtain ⟨origin, horigin, rfl⟩ := List.mem_map.mp h
  obtain ⟨_, _, _, hweight, hslot⟩ := mem_activeSlots.mp horigin
  refine ⟨one_le_div_weightDivisor horigin ?_, ?_⟩
  · rw [hslot]
    exact hweight
  · show origin.emitted = 0
    rw [hslot]

theorem indexes_normalizeWeights (slots : List Slot) :
    (normalizeWeights slots).map Slot.index = slots.map Slot.index := by
  rw [normalizeWeights_eq, List.map_map]
  rfl

/-- Giving every slot a multiple of its weight. -/
theorem weights_apportioned (endpoints : List WeightedEndpoint) {factor : Nat}
    (hfactor : 1 ≤ factor)
    (hcap : weightSum (normalizeWeights (activeSlots 0 endpoints)) * factor ≤ cap) :
    Apportioned cap ((activeSlots 0 endpoints).map Slot.index)
      ((normalizeWeights (activeSlots 0 endpoints)).map fun slot =>
        { slot with assigned := slot.weight * factor }) := by
  refine ⟨?_, nodup_activeSlots 0 endpoints, ?_, ?_, ?_⟩
  · rw [← indexes_normalizeWeights (activeSlots 0 endpoints), List.map_map]
    rfl
  · intro slot hslot
    obtain ⟨origin, horigin, rfl⟩ := List.mem_map.mp hslot
    exact Nat.mul_pos (mem_normalizeWeights horigin).1 hfactor
  · intro slot hslot
    obtain ⟨origin, horigin, rfl⟩ := List.mem_map.mp hslot
    exact (mem_normalizeWeights horigin).2
  · rw [weightSum, ← List.sum_map_mul_right] at hcap
    rw [List.map_map]
    exact hcap

theorem capped_apportioned (hcap : (activeSlots 0 endpoints).length ≤ cap) :
    Apportioned cap ((activeSlots 0 endpoints).map Slot.index)
      (assignCapped cap (normalizeWeights (activeSlots 0 endpoints))) := by
  have hindexes := indexes_normalizeWeights (activeSlots 0 endpoints)
  rw [← hindexes]
  apply assignCapped_apportioned
  · rw [hindexes]
    exact nodup_activeSlots 0 endpoints
  · rw [normalizeWeights_eq, List.length_map]
    exact hcap
  · intro slot hslot
    exact (mem_normalizeWeights hslot).2

/-- A compiled schedule stands for one endpoint, or holds exactly the active ones. -/
theorem compileWRR_spec {selector : WRRSelector} (h : compileWRR endpoints = .ok selector) :
    (selector.schedule = [] ∧ (activeSlots 0 endpoints).map Slot.index = [selector.direct]) ∨
      (selector.schedule ≠ [] ∧ selector.schedule.length ≤ maxWRRSchedule ∧
        ∀ index, index ∈ selector.schedule ↔
          index ∈ (activeSlots 0 endpoints).map Slot.index) := by
  unfold compileWRR at h
  split at h
  · contradiction
  · rename_i slot hslot
    rw [← Except.ok.inj h, hslot]
    exact Or.inl ⟨rfl, rfl⟩
  · rename_i hnonempty hseveral
    split_ifs at h with hlimit
    have hslots : ∃ slots, selector = ⟨emitSchedule (slots.map Slot.assigned).sum slots, 0⟩ ∧
        Apportioned maxWRRSchedule ((activeSlots 0 endpoints).map Slot.index) slots := by
      refine ⟨_, (Except.ok.inj h).symm, ?_⟩
      split_ifs with hfits
      · rw [← Nat.mul_one (weightSum _)] at hfits
        have hweights := weights_apportioned endpoints (le_refl 1) hfits
        simpa only [Nat.mul_one] using hweights
      · exact capped_apportioned (Nat.not_lt.mp hlimit)
    obtain ⟨slots, rfl, happortioned⟩ := hslots
    obtain ⟨hready, hsum⟩ := happortioned.ready
    have hmem := mem_emitSchedule hready hsum.symm
    have hlength := length_emitSchedule hready hsum.symm
    dsimp only
    right
    refine ⟨?_, ?_, ?_⟩
    · intro hempty
      cases hactive : activeSlots 0 endpoints with
      | nil => exact hnonempty hactive
      | cons first rest =>
        have hfirst := (hmem first.index).mpr (by rw [happortioned.same, hactive]; simp)
        rw [hempty] at hfirst
        contradiction
    · rw [hlength]
      exact happortioned.total
    · intro index
      rw [hmem, happortioned.same]

/-- The points of assigned slots, before they are sorted. -/
def continuumPoints (platform : Platform) (slots : List Slot) : List ContinuumPoint :=
  slots.flatMap fun slot =>
    (List.range slot.assigned).map fun virtualIndex =>
      ⟨continuumPointHash platform slot.identity virtualIndex, slot.identity, virtualIndex,
        slot.index⟩

/-- The key that `sortContinuumPoints` compares. -/
def ContinuumPoint.key (point : ContinuumPoint) : Nat ×ₗ Bytes ×ₗ Nat :=
  toLex (point.hash.toNat, toLex (point.identity, point.virtualIndex))

theorem pointBefore_eq (left right : ContinuumPoint) :
    pointBefore left right = decide (left.key ≤ right.key) := by
  rw [Bool.eq_iff_iff, decide_eq_true_eq]
  unfold pointBefore ContinuumPoint.key
  rw [Prod.Lex.toLex_le_toLex, Prod.Lex.toLex_le_toLex]
  by_cases hhash : left.hash = right.hash
  · by_cases hidentity : left.identity = right.identity
    · simp [hhash, hidentity]
    · simp [hhash, hidentity]
  · have hne : left.hash.toNat ≠ right.hash.toNat := fun heq => hhash (UInt64.toNat_inj.mp heq)
    simp [hhash, hne]

theorem pointBefore_trans (a b c : ContinuumPoint) (hab : pointBefore a b = true)
    (hbc : pointBefore b c = true) : pointBefore a c = true := by
  rw [pointBefore_eq, decide_eq_true_eq] at *
  exact hab.trans hbc

theorem pointBefore_total (a b : ContinuumPoint) :
    (pointBefore a b || pointBefore b a) = true := by
  rw [pointBefore_eq, pointBefore_eq, Bool.or_eq_true, decide_eq_true_eq, decide_eq_true_eq]
  exact le_total a.key b.key

def ringOf (points : List ContinuumPoint) : Continuum :=
  let sorted := points.mergeSort pointBefore
  ⟨sorted.map ContinuumPoint.hash, sorted.map ContinuumPoint.endpointIndex, 0⟩

theorem ringOf_holds (points : List ContinuumPoint) :
    (ringOf points).Holds (points.mergeSort pointBefore) := by
  refine ⟨rfl, rfl, ?_⟩
  apply (List.pairwise_mergeSort pointBefore_trans pointBefore_total points).imp
  intro left right hle
  rw [pointBefore_eq, decide_eq_true_eq] at hle
  rcases Prod.Lex.toLex_le_toLex.mp hle with hlt | ⟨heq, _⟩
  · exact UInt64.le_iff_toNat_le.mpr hlt.le
  · exact UInt64.le_iff_toNat_le.mpr heq.le

theorem mem_continuumPoints (platform : Platform) {indexes : List Nat}
    (h : Apportioned cap indexes slots) (index : Nat) :
    index ∈ (continuumPoints platform slots).map ContinuumPoint.endpointIndex ↔
      index ∈ indexes := by
  rw [← h.same]
  simp only [continuumPoints, List.mem_map, List.mem_flatMap, List.mem_range]
  constructor
  · rintro ⟨_, ⟨slot, hslot, _, _, rfl⟩, rfl⟩
    exact ⟨slot, hslot, rfl⟩
  · rintro ⟨slot, hslot, rfl⟩
    exact ⟨_, ⟨slot, hslot, 0, h.assigned slot hslot, rfl⟩, rfl⟩

/-- A compiled ring stands for one endpoint, or holds points of exactly the active
ones. -/
theorem compileContinuum_spec {platform : Platform} {ring : Continuum}
    (h : compileContinuum platform endpoints = .ok ring) :
    (ring.hashes = [] ∧ (activeSlots 0 endpoints).map Slot.index = [ring.direct]) ∨
      ∃ points, points ≠ [] ∧ ring.Holds points ∧
        ∀ index, index ∈ points.map ContinuumPoint.endpointIndex ↔
          index ∈ (activeSlots 0 endpoints).map Slot.index := by
  unfold compileContinuum at h
  split at h
  · contradiction
  · rename_i slot hslot
    rw [← Except.ok.inj h, hslot]
    exact Or.inl ⟨rfl, rfl⟩
  · rename_i hnonempty hseveral
    split_ifs at h with hlimit
    have hslots : ∃ slots, ring = ringOf (continuumPoints platform slots) ∧
        Apportioned maxContinuumPoints ((activeSlots 0 endpoints).map Slot.index) slots := by
      refine ⟨_, (Except.ok.inj h).symm, ?_⟩
      split_ifs with hfits
      · exact weights_apportioned endpoints (by decide) hfits
      · exact capped_apportioned (Nat.not_lt.mp hlimit)
    obtain ⟨slots, rfl, happortioned⟩ := hslots
    have hmem := mem_continuumPoints platform happortioned
    have hperm := List.mergeSort_perm (continuumPoints platform slots) pointBefore
    right
    refine ⟨_, ?_, ringOf_holds _, ?_⟩
    · intro hempty
      cases hactive : activeSlots 0 endpoints with
      | nil => exact hnonempty hactive
      | cons first rest =>
        have hfirst := (hmem first.index).mpr (by rw [hactive]; simp)
        rw [hempty] at hperm
        rw [hperm.symm.eq_nil] at hfirst
        contradiction
    · intro index
      rw [(hperm.map ContinuumPoint.endpointIndex).mem_iff, hmem]

end GGateway.Upstream
