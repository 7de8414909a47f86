import GGateway.Library.LargestRemainder
import GGateway.Upstream.Apportionment

/-!
# Capped assignments

`assignCappedWRRSlots` and `assignCappedContinuumPoints` give every slot one place and share
the other places by largest remainders.

* `FairlyApportioned` says what such an assignment is to be: exact, within one of the ideal
  share, and in the order of the weights.
* `assignCappedWords` is the same loop in the widths of the source, where products, sums and
  conversions wrap and a slice may be out of range; `InRange` says that nothing wraps.
-/

namespace GGateway.Upstream

open Library

/-! ## The two passes -/

variable {slot : Slot}

section Passes

variable (cap : Nat) (slots : List Slot)

def sharedSlot (slot : Slot) : Slot :=
  { slot with
    assigned := 1 + LargestRemainder.share Slot.weight (cap - slots.length) (weightSum slots) slot
    remainder := LargestRemainder.rest Slot.weight (cap - slots.length) (weightSum slots) slot }

/-- What a slot gets of the places beyond the first of each slot. -/
abbrev poolShare : Slot → Nat :=
  LargestRemainder.share Slot.weight (cap - slots.length) (weightSum slots)

abbrev poolRest : Slot → Nat :=
  LargestRemainder.rest Slot.weight (cap - slots.length) (weightSum slots)

/-- The places that the first pass hands out. -/
def allocated : Nat :=
  ((slots.map (sharedSlot cap slots)).map Slot.assigned).sum

/-- The slots in the order in which the second pass serves them. -/
def servingOrder : List Slot :=
  (slots.map (sharedSlot cap slots)).mergeSort remainderBefore

/-- The slots that the second pass serves. -/
def favoured : List Slot :=
  (servingOrder cap slots).take (cap - allocated cap slots)

theorem assignCapped_eq :
    assignCapped cap slots = (slots.map (sharedSlot cap slots)).map fun slot =>
      if (favoured cap slots).any (·.index == slot.index) then
        { slot with assigned := slot.assigned + 1 }
      else slot :=
  rfl

theorem allocated_eq :
    allocated cap slots = slots.length +
      (slots.map (poolShare cap slots)).sum := by
  simp [allocated, sharedSlot, Function.comp_def, List.sum_map_add]

/-- The key that the second pass compares. -/
def remainderKey (slot : Slot) : Natᵒᵈ ×ₗ Text.Bytes ×ₗ Nat :=
  toLex (OrderDual.toDual slot.remainder, toLex (slot.identity, slot.index))

theorem remainderBefore_eq (left right : Slot) :
    remainderBefore left right = decide (remainderKey left ≤ remainderKey right) := by
  rw [Bool.eq_iff_iff, decide_eq_true_eq]
  unfold remainderBefore remainderKey
  rw [Prod.Lex.toLex_le_toLex, Prod.Lex.toLex_le_toLex]
  by_cases hremainder : left.remainder = right.remainder
  · by_cases hidentity : left.identity = right.identity
    · simp [hremainder, hidentity]
    · simp [hremainder, hidentity]
  · simp [hremainder, OrderDual.toDual_lt_toDual]

theorem servingOrder_perm :
    (servingOrder cap slots).Perm (slots.map (sharedSlot cap slots)) :=
  List.mergeSort_perm _ _

theorem remainder_of_mem (h : slot ∈ slots.map (sharedSlot cap slots)) :
    slot.remainder =
      poolRest cap slots slot := by
  obtain ⟨origin, _, rfl⟩ := List.mem_map.mp h
  rfl

theorem servingOrder_sorted :
    (servingOrder cap slots).Pairwise fun left right =>
      poolRest cap slots right ≤
        poolRest cap slots left := by
  have hsorted : (servingOrder cap slots).Pairwise fun left right =>
      remainderKey left ≤ remainderKey right := by
    have hbefore : remainderBefore = fun left right =>
        decide (remainderKey left ≤ remainderKey right) := by
      funext left right
      exact remainderBefore_eq left right
    unfold servingOrder
    rw [hbefore]
    exact Text.pairwise_mergeSort_of_total
      (fun left right : Slot => remainderKey left ≤ remainderKey right)
      (fun _ _ _ => le_trans) (fun _ _ => le_total _ _) _
  refine hsorted.imp_of_mem fun {left right} hleft hright hle => ?_
  rw [← remainder_of_mem cap slots ((servingOrder_perm cap slots).mem_iff.mp hleft),
    ← remainder_of_mem cap slots ((servingOrder_perm cap slots).mem_iff.mp hright)]
  rcases Prod.Lex.toLex_le_toLex.mp hle with hlt | ⟨heq, _⟩
  · exact (OrderDual.toDual_lt_toDual.mp hlt).le
  · exact (OrderDual.toDual_inj.mp heq).ge

end Passes

/-! ## Exact and fair -/

/-- What an assignment of exactly `cap` places by weight is to be. -/
structure FairlyApportioned (cap : Nat) (slots result : List Slot) : Prop where
  same : result.map (fun slot => (slot.index, slot.identity, slot.weight)) =
    slots.map fun slot => (slot.index, slot.identity, slot.weight)
  total : (result.map Slot.assigned).sum = cap
  positive : ∀ slot ∈ result, 1 ≤ slot.assigned
  quota : ∀ slot ∈ result,
    |(slot.assigned : ℚ) - (1 + slot.weight * ((cap : ℚ) - slots.length) / weightSum slots)| < 1
  monotone : ∀ left ∈ result, ∀ right ∈ result, left.weight < right.weight →
    left.assigned ≤ right.assigned
  balanced : ∀ left ∈ result, ∀ right ∈ result, left.weight = right.weight →
    left.assigned ≤ right.assigned + 1

section Fairness

variable {cap : Nat} {slots : List Slot} (hnodup : (slots.map Slot.index).Nodup)
  (hweights : ∀ slot ∈ slots, 1 ≤ slot.weight) (hseveral : 2 ≤ slots.length)
  (hcap : slots.length ≤ cap)

include hweights hseveral in
theorem weightSum_pos : 0 < weightSum slots := by
  obtain ⟨slot, hslot⟩ := List.exists_mem_of_length_pos (by omega : 0 < slots.length)
  have hle : slot.weight ≤ weightSum slots := List.single_le_sum (by simp) _
    (List.mem_map_of_mem hslot)
  have hone := hweights slot hslot
  omega

theorem sum_weight_shared (cap : Nat) (slots : List Slot) :
    ((slots.map (sharedSlot cap slots)).map Slot.weight).sum = weightSum slots := by
  rw [List.map_map]
  rfl

include hweights hseveral hcap in
/-- `order[:cap-allocated]` is in bounds, and never all of the slots. -/
theorem leftover_spec : allocated cap slots ≤ cap ∧ cap - allocated cap slots < slots.length := by
  have hpos := weightSum_pos hweights hseveral
  have hle : (slots.map (poolShare cap slots)).sum ≤ cap - slots.length :=
    LargestRemainder.sum_share_le rfl hpos
  have hlt : cap - slots.length - (slots.map (poolShare cap slots)).sum < slots.length :=
    LargestRemainder.leftover_lt rfl hpos
  rw [allocated_eq]
  omega

include hnodup in
theorem nodup_shared : ((slots.map (sharedSlot cap slots)).map Slot.index).Nodup := by
  rw [List.map_map]
  exact hnodup

include hnodup in
/-- A slot is favoured when it is among those that are served. -/
theorem favours_iff (h : slot ∈ slots.map (sharedSlot cap slots)) :
    ((favoured cap slots).any (·.index == slot.index)) = true ↔ slot ∈ favoured cap slots := by
  rw [List.any_eq_true]
  constructor
  · rintro ⟨other, hother, hsame⟩
    have hmem : other ∈ slots.map (sharedSlot cap slots) :=
      (servingOrder_perm cap slots).mem_iff.mp (List.mem_of_mem_take hother)
    have heq := List.inj_on_of_nodup_map (nodup_shared hnodup) hmem h (by simpa using hsame)
    exact heq ▸ hother
  · intro hmem
    exact ⟨slot, hmem, by simp⟩

include hnodup in
theorem countP_favoured :
    (slots.map (sharedSlot cap slots)).countP
        (fun slot => (favoured cap slots).any (·.index == slot.index)) =
      (favoured cap slots).length := by
  have hitems : (slots.map (sharedSlot cap slots)).Nodup := List.Nodup.of_map _ (nodup_shared hnodup)
  have horder : (favoured cap slots).Nodup :=
    ((servingOrder_perm cap slots).nodup_iff.mpr hitems).sublist (List.take_sublist _ _)
  rw [List.countP_eq_length_filter]
  apply List.Perm.length_eq
  rw [List.perm_ext_iff_of_nodup (hitems.filter _) horder]
  intro slot
  rw [List.mem_filter]
  constructor
  · rintro ⟨hmem, hany⟩
    exact (favours_iff hnodup hmem).mp hany
  · intro hmem
    have hslot : slot ∈ slots.map (sharedSlot cap slots) :=
      (servingOrder_perm cap slots).mem_iff.mp (List.mem_of_mem_take hmem)
    exact ⟨hslot, (favours_iff hnodup hslot).mpr hmem⟩

include hnodup in
/-- What becomes of a slot: its share, and one more if it is favoured. -/
theorem mem_assignCapped (h : slot ∈ assignCapped cap slots) :
    ∃ origin ∈ slots.map (sharedSlot cap slots), slot.weight = origin.weight ∧
      (origin ∈ favoured cap slots ∧ slot.assigned = origin.assigned + 1 ∨
        origin ∉ favoured cap slots ∧ slot.assigned = origin.assigned) := by
  rw [assignCapped_eq] at h
  obtain ⟨origin, horigin, rfl⟩ := List.mem_map.mp h
  have hiff := favours_iff hnodup horigin
  refine ⟨origin, horigin, ?_⟩
  by_cases hmem : origin ∈ favoured cap slots
  · rw [if_pos (hiff.mpr hmem)]
    exact ⟨rfl, Or.inl ⟨hmem, rfl⟩⟩
  · rw [if_neg fun hany => hmem (hiff.mp hany)]
    exact ⟨rfl, Or.inr ⟨hmem, rfl⟩⟩

include hnodup hweights hseveral hcap in
theorem sum_assignCapped : ((assignCapped cap slots).map Slot.assigned).sum = cap := by
  obtain ⟨hle, hlt⟩ := leftover_spec hweights hseveral hcap
  have hlength : (favoured cap slots).length = cap - allocated cap slots := by
    have horder : (servingOrder cap slots).length = slots.length := by
      rw [(servingOrder_perm cap slots).length_eq, List.length_map]
    rw [favoured, List.length_take, horder]
    omega
  rw [assignCapped_eq, sum_assigned_bump, countP_favoured hnodup, hlength]
  show allocated cap slots + _ = cap
  omega

theorem assigned_of_mem_shared (h : slot ∈ slots.map (sharedSlot cap slots)) :
    slot.assigned =
      1 + poolShare cap slots slot := by
  obtain ⟨origin, _, rfl⟩ := List.mem_map.mp h
  rfl

include hweights hseveral in
theorem rest_pos_of_favoured (h : slot ∈ favoured cap slots) :
    0 < poolRest cap slots slot := by
  have hshares : cap - slots.length - ((slots.map (sharedSlot cap slots)).map
      (poolShare cap slots)).sum =
        cap - allocated cap slots := by
    rw [allocated_eq, List.map_map, Nat.sub_sub]
    rfl
  apply LargestRemainder.rest_pos_of_mem_take (servingOrder_sorted cap slots)
    (sum_weight_shared cap slots) (weightSum_pos hweights hseveral) (servingOrder_perm cap slots)
  rw [hshares]
  exact h

/-- A slot of larger weight, with the same share, is served first. -/
theorem favoured_of_weight_lt {left right : Slot}
    (hright : right ∈ slots.map (sharedSlot cap slots)) (hlt : left.weight < right.weight)
    (hshare : poolShare cap slots left =
      poolShare cap slots right)
    (hpool : 0 < cap - slots.length) (hleft : left ∈ favoured cap slots) :
    right ∈ favoured cap slots := by
  refine LargestRemainder.mem_take_of_rest_lt (servingOrder_sorted cap slots) hleft
    ((servingOrder_perm cap slots).mem_iff.mpr hright) ?_
  have hdivLeft := Nat.div_add_mod (left.weight * (cap - slots.length)) (weightSum slots)
  have hdivRight := Nat.div_add_mod (right.weight * (cap - slots.length)) (weightSum slots)
  have hproduct : left.weight * (cap - slots.length) < right.weight * (cap - slots.length) :=
    Nat.mul_lt_mul_of_pos_right hlt hpool
  unfold poolShare LargestRemainder.share at hshare
  unfold LargestRemainder.rest
  rw [hshare] at hdivLeft
  omega

include hnodup in
theorem assigned_le_of_weight_le (hcap : slots.length ≤ cap) {left right : Slot}
    (hleft : left ∈ assignCapped cap slots) (hright : right ∈ assignCapped cap slots)
    (hle : left.weight ≤ right.weight) :
    left.assigned ≤ right.assigned + 1 ∧
      (left.weight < right.weight → left.assigned ≤ right.assigned) := by
  obtain ⟨first, hfirst, hfirstWeight, hfirstCases⟩ := mem_assignCapped hnodup hleft
  obtain ⟨second, hsecond, hsecondWeight, hsecondCases⟩ := mem_assignCapped hnodup hright
  rw [hfirstWeight, hsecondWeight] at hle ⊢
  have hfirstShare := assigned_of_mem_shared hfirst
  have hsecondShare := assigned_of_mem_shared hsecond
  have hshares : poolShare cap slots first ≤ poolShare cap slots second :=
    Nat.div_le_div_right (Nat.mul_le_mul_right _ hle)
  refine ⟨?_, fun hlt => ?_⟩
  · rcases hfirstCases with ⟨_, hassigned⟩ | ⟨_, hassigned⟩ <;>
      rcases hsecondCases with ⟨_, hother⟩ | ⟨_, hother⟩ <;> omega
  by_cases hsame : poolShare cap slots first = poolShare cap slots second
  · by_cases hpool : 0 < cap - slots.length
    · have hserved := favoured_of_weight_lt hsecond hlt hsame hpool
      rcases hfirstCases with ⟨hmem, hassigned⟩ | ⟨_, hassigned⟩
      · have hboth := hserved hmem
        rcases hsecondCases with ⟨_, hother⟩ | ⟨hnot, _⟩
        · omega
        · exact absurd hboth hnot
      · rcases hsecondCases with ⟨_, hother⟩ | ⟨_, hother⟩ <;> omega
    · -- Without a pool nothing is left over.
      have hnone : favoured cap slots = [] := by
        have hall : cap - allocated cap slots = 0 := by
          rw [allocated_eq]
          omega
        rw [favoured, hall, List.take_zero]
      rcases hfirstCases with ⟨hmem, _⟩ | ⟨_, hassigned⟩
      · rw [hnone] at hmem
        contradiction
      · rcases hsecondCases with ⟨_, hother⟩ | ⟨_, hother⟩ <;> omega
  · rcases hfirstCases with ⟨_, hassigned⟩ | ⟨_, hassigned⟩ <;>
      rcases hsecondCases with ⟨_, hother⟩ | ⟨_, hother⟩ <;> omega

include hnodup hweights hseveral hcap in
theorem abs_assigned_sub_lt (hslot : slot ∈ assignCapped cap slots) :
    |(slot.assigned : ℚ) - (1 + slot.weight * ((cap : ℚ) - slots.length) / weightSum slots)| <
      1 := by
  obtain ⟨origin, horigin, hweight, hcases⟩ := mem_assignCapped hnodup hslot
  have hpos := weightSum_pos hweights hseveral
  have hshare := assigned_of_mem_shared horigin
  let share := poolShare cap slots origin
  let rest := poolRest cap slots origin
  have hrest : rest < weightSum slots := LargestRemainder.rest_lt hpos origin
  have htotal : (weightSum slots : ℚ) ≠ 0 := by exact_mod_cast hpos.ne'
  -- The ideal share is the rounded one and the remainder over the total weight.
  have hideal : (slot.weight : ℚ) * ((cap : ℚ) - slots.length) / weightSum slots =
      share + rest / weightSum slots := by
    have hdiv : weightSum slots * share + rest = slot.weight * (cap - slots.length) := by
      rw [hweight]
      exact Nat.div_add_mod _ _
    have hcast : (weightSum slots : ℚ) * share + rest =
        slot.weight * ((cap : ℚ) - slots.length) := by
      rw [← Nat.cast_sub hcap]
      exact_mod_cast hdiv
    rw [← hcast, add_div, mul_div_cancel_left₀ _ htotal]
  have hfraction : (rest : ℚ) / weightSum slots < 1 := by
    rw [div_lt_one (by exact_mod_cast hpos)]
    exact_mod_cast hrest
  rw [hideal, abs_lt]
  rcases hcases with ⟨hmem, hassigned⟩ | ⟨_, hassigned⟩
  · have hone : 0 < (rest : ℚ) / weightSum slots := by
      have hrestPos : 0 < rest := rest_pos_of_favoured hweights hseveral hmem
      positivity
    have hcast : (slot.assigned : ℚ) = 1 + share + 1 := by
      rw [hassigned, hshare]
      push_cast
      rfl
    rw [hcast]
    constructor <;> linarith
  · have hnonneg : 0 ≤ (rest : ℚ) / weightSum slots := by positivity
    have hcast : (slot.assigned : ℚ) = 1 + share := by
      rw [hassigned, hshare]
      push_cast
      rfl
    rw [hcast]
    constructor <;> linarith

include hnodup hweights hseveral hcap in
theorem assignCapped_fair : FairlyApportioned cap slots (assignCapped cap slots) where
  same := by
    rw [assignCapped_eq, List.map_map, List.map_map]
    apply List.map_congr_left
    intro slot _
    show (fun result : Slot => (result.index, result.identity, result.weight))
      (if (favoured cap slots).any (·.index == (sharedSlot cap slots slot).index) then _ else _) = _
    split_ifs <;> rfl
  total := sum_assignCapped hnodup hweights hseveral hcap
  positive := by
    intro slot hslot
    obtain ⟨origin, horigin, _, hcases⟩ := mem_assignCapped hnodup hslot
    have hshare := assigned_of_mem_shared horigin
    rcases hcases with ⟨_, hassigned⟩ | ⟨_, hassigned⟩ <;> omega
  quota _ hslot := abs_assigned_sub_lt hnodup hweights hseveral hcap hslot
  monotone _ hleft _ hright hlt :=
    (assigned_le_of_weight_le hnodup hcap hleft hright hlt.le).2 hlt
  balanced _ hleft _ hright heq :=
    (assigned_le_of_weight_le hnodup hcap hleft hright heq.le).1

end Fairness

/-! ## The widths of the source -/

def uint32 (value : Nat) : Nat :=
  value % 2 ^ 32

def uint64 (value : Nat) : Nat :=
  value % 2 ^ 64

def int64 (value : Int) : Int :=
  value.bmod (2 ^ 64)

/-- `normalizedSum`. -/
def sumWords (slots : List Slot) : Nat :=
  slots.foldl (fun sum slot => uint64 (sum + slot.weight)) 0

/-- `assignCappedWRRSlots` and `assignCappedContinuumPoints` in the widths of the source; `none`
is a slice that is out of range. -/
def assignCappedWords (limit : Int) (normalizedSum : Nat) (slots : List Slot) :
    Option (List Slot) :=
  let remaining := (int64 (limit - slots.length) % 2 ^ 64).toNat
  let numerator := fun slot : Slot => uint64 (slot.weight * remaining)
  let shared := slots.map fun slot =>
    { slot with
      assigned := uint32 (1 + uint32 (numerator slot / normalizedSum))
      remainder := numerator slot % normalizedSum }
  let allocated := slots.foldl
    (fun allocated slot => int64 (allocated + int64 (numerator slot / normalizedSum : Nat)))
    (slots.length : Int)
  let count := int64 (limit - allocated)
  if 0 ≤ count ∧ count ≤ slots.length then
    let favoured := (shared.mergeSort remainderBefore).take count.toNat
    some (shared.map fun slot =>
      if favoured.any (·.index == slot.index) then
        { slot with assigned := uint32 (slot.assigned + 1) }
      else slot)
  else none

/-- No value of the loop leaves its width. -/
structure InRange (cap : Nat) (slots result : List Slot) : Prop where
  sum : weightSum slots * continuumPointsPerWeight < 2 ^ 63
  product : ∀ slot ∈ slots, slot.weight * (cap - slots.length) < 2 ^ 64
  allocation : ∀ count, slots.length + ((slots.take count).map
    (LargestRemainder.share Slot.weight (cap - slots.length) (weightSum slots))).sum < 2 ^ 63
  assigned : ∀ slot ∈ result, slot.assigned < 2 ^ 32

theorem uint32_of_lt {value : Nat} (h : value < 2 ^ 32) : uint32 value = value :=
  Nat.mod_eq_of_lt h

theorem uint64_of_lt {value : Nat} (h : value < 2 ^ 64) : uint64 value = value :=
  Nat.mod_eq_of_lt h

theorem int64_of_lt {value : Int} (hnonneg : 0 ≤ value) (h : value < 2 ^ 63) :
    int64 value = value := by
  unfold int64 Int.bmod
  norm_num at h ⊢
  omega

theorem foldl_uint64 (slots : List Slot) (start : Nat) (h : start + weightSum slots < 2 ^ 64) :
    slots.foldl (fun sum slot => uint64 (sum + slot.weight)) start = start + weightSum slots := by
  induction slots generalizing start with
  | nil => rfl
  | cons slot rest ih =>
    have hsum : weightSum (slot :: rest) = slot.weight + weightSum rest := List.sum_cons
    rw [hsum] at h ⊢
    have hword : uint64 (start + slot.weight) = start + slot.weight := uint64_of_lt (by omega)
    rw [List.foldl_cons, hword, ih _ (by omega), Nat.add_assoc]

/-- Adding numbers up in 64 bits, as long as the total fits. -/
theorem foldl_int64 (extra : Slot → Nat) {slots : List Slot} {start : Nat}
    (h : start + (slots.map extra).sum < 2 ^ 63) :
    slots.foldl (fun allocated slot => int64 (allocated + int64 (extra slot : Nat))) (start : Int) =
      ((start + (slots.map extra).sum : Nat) : Int) := by
  induction slots generalizing start with
  | nil => rfl
  | cons slot rest ih =>
    rw [List.map_cons, List.sum_cons] at h ⊢
    have hextra : int64 (extra slot : Nat) = extra slot := int64_of_lt (by omega) (by omega)
    have hnext : int64 ((start : Int) + extra slot) = ((start + extra slot : Nat) : Int) := by
      rw [int64_of_lt (by omega) (by omega), Nat.cast_add]
    rw [List.foldl_cons, hextra, hnext, ih (by omega), Nat.add_assoc]

section Words

variable {cap : Nat} {slots : List Slot} (hcap : slots.length ≤ cap)
  (hlimit : cap ≤ maxContinuumPoints) (hword : ∀ slot ∈ slots, slot.weight < 2 ^ 32)

include hcap hlimit hword in
theorem weightSum_lt : weightSum slots * continuumPointsPerWeight < 2 ^ 63 := by
  have hsum : weightSum slots ≤ slots.length * 2 ^ 32 := by
    rw [← smul_eq_mul, ← List.length_map Slot.weight]
    apply List.sum_le_card_nsmul
    intro weight hweight
    obtain ⟨slot, hslot, rfl⟩ := List.mem_map.mp hweight
    exact (hword slot hslot).le
  have hfew : slots.length ≤ 65536 := hcap.trans hlimit
  show weightSum slots * 64 < 2 ^ 63
  omega

include hlimit hword in
theorem product_lt (h : slot ∈ slots) : slot.weight * (cap - slots.length) < 2 ^ 64 := by
  have hweight := hword slot h
  have hpool : cap - slots.length ≤ 65536 := (Nat.sub_le _ _).trans hlimit
  calc slot.weight * (cap - slots.length)
      ≤ 2 ^ 32 * 65536 := Nat.mul_le_mul hweight.le hpool
    _ < 2 ^ 64 := by norm_num

theorem share_le (cap : Nat) (h : slot ∈ slots) :
    poolShare cap slots slot ≤
      cap - slots.length := by
  have hle : slot.weight ≤ weightSum slots :=
    List.single_le_sum (by simp) _ (List.mem_map_of_mem h)
  exact Nat.div_le_of_le_mul (Nat.mul_le_mul_right _ hle)

include hlimit hword in
theorem sharedWords (h : slot ∈ slots) :
    ({ slot with
      assigned := uint32 (1 + uint32 (uint64 (slot.weight * (cap - slots.length)) /
        weightSum slots))
      remainder := uint64 (slot.weight * (cap - slots.length)) % weightSum slots } : Slot) =
      sharedSlot cap slots slot := by
  have hshare := share_le cap h
  have hpool : cap - slots.length ≤ 65536 := (Nat.sub_le _ _).trans hlimit
  unfold poolShare LargestRemainder.share at hshare
  have hextra : uint32 (slot.weight * (cap - slots.length) / weightSum slots) =
      slot.weight * (cap - slots.length) / weightSum slots :=
    uint32_of_lt (by omega)
  rw [uint64_of_lt (product_lt hlimit hword h), hextra, uint32_of_lt (by omega)]
  rfl

end Words

section Exactness

variable {cap : Nat} {slots : List Slot} (hnodup : (slots.map Slot.index).Nodup)
  (hseveral : 2 ≤ slots.length) (hcap : slots.length ≤ cap) (hlimit : cap ≤ maxContinuumPoints)
  (hweights : ∀ slot ∈ slots, 1 ≤ slot.weight ∧ slot.weight < 2 ^ 32)

include hnodup hseveral hcap hlimit hweights

theorem assignCapped_inRange : InRange cap slots (assignCapped cap slots) where
  sum := weightSum_lt hcap hlimit fun slot hslot => (hweights slot hslot).2
  product _ hslot := product_lt hlimit (fun slot hslot => (hweights slot hslot).2) hslot
  allocation count := by
    have hle := (leftover_spec (fun slot hslot => (hweights slot hslot).1) hseveral hcap).1
    have hpart : ((slots.take count).map (poolShare cap slots)).sum ≤
        (slots.map (poolShare cap slots)).sum :=
      ((List.take_sublist count slots).map _).sum_le_sum (by simp)
    have hfew : cap ≤ 65536 := hlimit
    rw [allocated_eq] at hle
    show slots.length + ((slots.take count).map (poolShare cap slots)).sum < 2 ^ 63
    omega
  assigned slot hslot := by
    have htotal := sum_assignCapped hnodup (fun slot hslot => (hweights slot hslot).1) hseveral hcap
    have hle : slot.assigned ≤ ((assignCapped cap slots).map Slot.assigned).sum :=
      List.single_le_sum (by simp) _ (List.mem_map_of_mem hslot)
    have hfew : cap ≤ 65536 := hlimit
    omega

omit hnodup in
/-- The loop of the source computes the assignment. -/
theorem assignCappedWords_eq :
    sumWords slots = weightSum slots ∧
      assignCappedWords cap (sumWords slots) slots = some (assignCapped cap slots) := by
  have hword : ∀ slot ∈ slots, slot.weight < 2 ^ 32 := fun slot hslot => (hweights slot hslot).2
  have hone : ∀ slot ∈ slots, 1 ≤ slot.weight := fun slot hslot => (hweights slot hslot).1
  have hfew : cap ≤ 65536 := hlimit
  have hsumLt : weightSum slots * 64 < 2 ^ 63 := weightSum_lt hcap hlimit hword
  have hsum : sumWords slots = weightSum slots := by
    have hfold := foldl_uint64 slots 0 (by omega)
    rw [Nat.zero_add] at hfold
    exact hfold
  refine ⟨hsum, ?_⟩
  obtain ⟨hle, hlt⟩ := leftover_spec hone hseveral hcap
  have hremaining : (int64 ((cap : Int) - slots.length) % 2 ^ 64).toNat = cap - slots.length := by
    rw [int64_of_lt (by omega) (by omega)]
    omega
  have hshared : (slots.map fun slot =>
      ({ slot with
        assigned := uint32 (1 + uint32 (uint64 (slot.weight * (cap - slots.length)) /
          weightSum slots))
        remainder := uint64 (slot.weight * (cap - slots.length)) % weightSum slots } : Slot)) =
      slots.map (sharedSlot cap slots) :=
    List.map_congr_left fun slot hslot => sharedWords hlimit hword hslot
  have hextra : slots.map (fun slot : Slot =>
      uint64 (slot.weight * (cap - slots.length)) / weightSum slots) =
      slots.map (poolShare cap slots) := by
    apply List.map_congr_left
    intro slot hslot
    rw [uint64_of_lt (product_lt hlimit hword hslot)]
    rfl
  have hallocated : slots.foldl (fun allocated slot => int64 (allocated +
      int64 ((uint64 (slot.weight * (cap - slots.length)) / weightSum slots : Nat) : Int)))
        (slots.length : Int) = (allocated cap slots : Int) := by
    have hfits : slots.length + (slots.map fun slot : Slot =>
        uint64 (slot.weight * (cap - slots.length)) / weightSum slots).sum < 2 ^ 63 := by
      rw [hextra, ← allocated_eq]
      omega
    rw [foldl_int64 _ hfits, hextra, ← allocated_eq]
  have hcount : int64 ((cap : Int) - (allocated cap slots : Int)) =
      ((cap - allocated cap slots : Nat) : Int) := by
    rw [int64_of_lt (by omega) (by omega)]
    omega
  have hbound : (0 : Int) ≤ ((cap - allocated cap slots : Nat) : Int) ∧
      ((cap - allocated cap slots : Nat) : Int) ≤ slots.length := by
    omega
  unfold assignCappedWords
  simp only [hsum, hremaining, hshared, hallocated, hcount]
  rw [if_pos hbound, assignCapped_eq]
  congr 1
  apply List.map_congr_left
  intro slot hslot
  have hassigned : slot.assigned < 2 ^ 32 - 1 := by
    obtain ⟨origin, horigin, rfl⟩ := List.mem_map.mp hslot
    have hshare := share_le cap horigin
    show 1 + poolShare cap slots origin < _
    omega
  rw [uint32_of_lt (by omega)]
  rfl

end Exactness

/-- An assignment that is exact, fair and computed without overflow. -/
structure ExactlyAssigned (cap : Nat) (slots result : List Slot) : Prop where
  fair : FairlyApportioned cap slots result
  leftover : allocated cap slots ≤ cap ∧ cap - allocated cap slots < slots.length
  inRange : InRange cap slots result
  words : sumWords slots = weightSum slots ∧
    assignCappedWords cap (sumWords slots) slots = some result

theorem capped_assignments_exact {slots : List Slot} (hnodup : (slots.map Slot.index).Nodup)
    (hseveral : 2 ≤ slots.length)
    (hweights : ∀ slot ∈ slots, 1 ≤ slot.weight ∧ slot.weight < 2 ^ 32) :
    (slots.length ≤ maxWRRSchedule →
      ExactlyAssigned maxWRRSchedule slots (assignCappedWRRSlots slots)) ∧
    (slots.length ≤ maxContinuumPoints →
      ExactlyAssigned maxContinuumPoints slots (assignCappedContinuumPoints slots)) := by
  have hone : ∀ slot ∈ slots, 1 ≤ slot.weight := fun slot hslot => (hweights slot hslot).1
  have hexact : ∀ cap, cap ≤ maxContinuumPoints → slots.length ≤ cap →
      ExactlyAssigned cap slots (assignCapped cap slots) := by
    intro cap hlimit hcap
    exact ⟨assignCapped_fair hnodup hone hseveral hcap, leftover_spec hone hseveral hcap,
      assignCapped_inRange hnodup hseveral hcap hlimit hweights,
      assignCappedWords_eq hseveral hcap hlimit hweights⟩
  constructor
  · exact hexact maxWRRSchedule (by decide)
  · exact hexact maxContinuumPoints le_rfl

theorem capped_assignments_exact_two :
    ExactlyAssigned maxWRRSchedule
      [⟨0, Text.ascii "a", 8191, 0, 0, 0⟩, ⟨1, Text.ascii "b", 2 ^ 32 - 1, 0, 0, 0⟩]
      (assignCappedWRRSlots
        [⟨0, Text.ascii "a", 8191, 0, 0, 0⟩, ⟨1, Text.ascii "b", 2 ^ 32 - 1, 0, 0, 0⟩]) :=
  (capped_assignments_exact (by decide) (by decide) (by decide)).1 (by decide)

end GGateway.Upstream
