import GGateway.Upstream.Apportionment
import GGateway.Upstream.Conservation

/-!
# What changes when an endpoint leaves the ring

The ring of a list of endpoints and the ring of the list without one of them have
the same points for the endpoints they share, as long as neither is capped and the
weights are divided by the same number.  The smaller ring is then the larger one
without some of its points, and so is every reading of it.
-/

namespace GGateway.Upstream

open Text Model Library

/-- The number that the weights of a list are divided by. -/
def weightGcd (endpoints : List WeightedEndpoint) : Nat :=
  (endpoints.map WeightedEndpoint.weight).foldl Nat.gcd 0

/-- The points of the list do not exceed the limit. -/
def Uncapped (endpoints : List WeightedEndpoint) : Prop :=
  weightSum (normalizeWeights (activeSlots 0 endpoints)) * continuumPointsPerWeight ≤
    maxContinuumPoints

instance (endpoints : List WeightedEndpoint) : Decidable (Uncapped endpoints) :=
  inferInstanceAs (Decidable (_ ≤ _))

/-- The ordinal that an endpoint of the list without `removed` has in the whole list. -/
def restored (removed ordinal : Nat) : Nat :=
  if ordinal < removed then ordinal else ordinal + 1

/-! ## Slots without one endpoint -/

def Slot.restore (removed : Nat) (slot : Slot) : Slot :=
  { slot with index := restored removed slot.index }

theorem activeSlots_succ (start : Nat) (endpoints : List WeightedEndpoint) :
    activeSlots (start + 1) endpoints =
      (activeSlots start endpoints).map fun slot => { slot with index := slot.index + 1 } := by
  induction endpoints generalizing start with
  | nil => rfl
  | cons endpoint rest ih =>
    simp only [activeSlots]
    split_ifs
    · exact ih (start + 1)
    · rw [List.map_cons, ih (start + 1)]

theorem activeSlots_eraseIdx (start removed : Nat) (endpoints : List WeightedEndpoint)
    (h : removed < endpoints.length) :
    (activeSlots start (endpoints.eraseIdx removed)).map (Slot.restore (start + removed)) =
      (activeSlots start endpoints).filter (·.index ≠ start + removed) := by
  induction endpoints generalizing start removed with
  | nil => simp at h
  | cons endpoint rest ih =>
    cases removed with
    | zero =>
      -- Everything behind the first endpoint moves by one.
      have hshift : (activeSlots start rest).map (Slot.restore start) =
          activeSlots (start + 1) rest := by
        rw [activeSlots_succ]
        apply List.map_congr_left
        intro slot hslot
        have hle := lt_of_mem_activeSlots hslot
        rw [Slot.restore, restored, if_neg (by omega)]
      have hkept : (activeSlots (start + 1) rest).filter (·.index ≠ start) =
          activeSlots (start + 1) rest := by
        rw [List.filter_eq_self]
        intro slot hslot
        have hle := lt_of_mem_activeSlots hslot
        simp only [ne_eq, decide_not, Bool.not_eq_eq_eq_not, Bool.not_true,
          decide_eq_false_iff_not]
        omega
      rw [Nat.add_zero, List.eraseIdx_cons_zero, hshift]
      simp only [activeSlots]
      split_ifs
      · exact hkept.symm
      · rw [List.filter_cons_of_neg (by simp), hkept]
    | succ removed =>
      have hrest := ih (start + 1) removed (by simpa using h)
      have hsum : start + 1 + removed = start + (removed + 1) := by omega
      rw [hsum] at hrest
      rw [List.eraseIdx_cons_succ]
      simp only [activeSlots]
      split_ifs
      · exact hrest
      have hsame : ∀ slot : Slot, slot.index = start →
          slot.restore (start + (removed + 1)) = slot := by
        intro slot hindex
        rw [Slot.restore, restored, if_pos (by omega)]
      rw [List.map_cons, List.filter_cons_of_pos (by simp), hrest, hsame _ rfl]

theorem weightDivisor_activeSlots (start divisor : Nat) (endpoints : List WeightedEndpoint) :
    (activeSlots start endpoints).foldl (fun divisor slot => Nat.gcd divisor slot.weight) divisor =
      (endpoints.map WeightedEndpoint.weight).foldl Nat.gcd divisor := by
  induction endpoints generalizing start divisor with
  | nil => rfl
  | cons endpoint rest ih =>
    simp only [activeSlots, List.map_cons, List.foldl_cons]
    split_ifs with hzero
    · rw [hzero, Nat.gcd_zero_right]
      exact ih (start + 1) divisor
    · exact ih (start + 1) _

def ringSlots (endpoints : List WeightedEndpoint) : List Slot :=
  (activeSlots 0 endpoints).map fun slot =>
    { slot with
      weight := slot.weight / weightGcd endpoints
      assigned := slot.weight / weightGcd endpoints * continuumPointsPerWeight }

variable {endpoints : List WeightedEndpoint} {removed : Nat}

theorem ringSlots_eraseIdx (h : removed < endpoints.length)
    (hgcd : weightGcd (endpoints.eraseIdx removed) = weightGcd endpoints) :
    (ringSlots (endpoints.eraseIdx removed)).map (Slot.restore removed) =
      (ringSlots endpoints).filter (·.index ≠ removed) := by
  have hslots := activeSlots_eraseIdx 0 removed endpoints h
  rw [Nat.zero_add] at hslots
  rw [ringSlots, ringSlots, hgcd, List.filter_map, List.map_map]
  show (activeSlots 0 (endpoints.eraseIdx removed)).map _ =
    ((activeSlots 0 endpoints).filter (·.index ≠ removed)).map _
  rw [← hslots, List.map_map]
  rfl

/-! ## Points without one endpoint -/

def ContinuumPoint.restore (removed : Nat) (point : ContinuumPoint) : ContinuumPoint :=
  { point with endpointIndex := restored removed point.endpointIndex }

variable (platform : Platform)

theorem continuumPoints_restore (removed : Nat) (slots : List Slot) :
    continuumPoints platform (slots.map (Slot.restore removed)) =
      (continuumPoints platform slots).map (ContinuumPoint.restore removed) := by
  simp only [continuumPoints, List.flatMap_map, List.map_flatMap, List.map_map]
  rfl

theorem continuumPoints_filter (removed : Nat) (slots : List Slot) :
    continuumPoints platform (slots.filter (·.index ≠ removed)) =
      (continuumPoints platform slots).filter (·.endpointIndex ≠ removed) := by
  induction slots with
  | nil => rfl
  | cons slot rest ih =>
    have hcons : ∀ others, continuumPoints platform (slot :: others) =
        continuumPoints platform [slot] ++ continuumPoints platform others := by
      intro others
      simp [continuumPoints]
    have hindex : ∀ point ∈ continuumPoints platform [slot],
        point.endpointIndex = slot.index := by
      intro point hpoint
      simp only [continuumPoints, List.flatMap_cons, List.flatMap_nil, List.append_nil,
        List.mem_map] at hpoint
      obtain ⟨_, _, rfl⟩ := hpoint
      rfl
    rw [hcons, List.filter_append, ← ih]
    by_cases hremoved : slot.index = removed
    · have hnone : (continuumPoints platform [slot]).filter (·.endpointIndex ≠ removed) = [] := by
        rw [List.filter_eq_nil_iff]
        intro point hpoint
        simp [hindex point hpoint, hremoved]
      rw [List.filter_cons_of_neg (by simpa using hremoved), hnone, List.nil_append]
    · have hall : (continuumPoints platform [slot]).filter (·.endpointIndex ≠ removed) =
          continuumPoints platform [slot] := by
        rw [List.filter_eq_self]
        intro point hpoint
        simp [hindex point hpoint, hremoved]
      rw [List.filter_cons_of_pos (by simpa using hremoved), hcons, hall]

/-- The sorted points of the ring of a list. -/
def ringPoints (endpoints : List WeightedEndpoint) : List ContinuumPoint :=
  (continuumPoints platform (ringSlots endpoints)).mergeSort pointBefore

theorem ringPoints_eraseIdx (h : removed < endpoints.length)
    (hgcd : weightGcd (endpoints.eraseIdx removed) = weightGcd endpoints) :
    (ringPoints platform (endpoints.eraseIdx removed)).map (ContinuumPoint.restore removed) =
      (ringPoints platform endpoints).filter (·.endpointIndex ≠ removed) := by
  unfold ringPoints
  -- The order does not look at the ordinals.
  have hsort : ∀ points : List ContinuumPoint,
      (points.mergeSort pointBefore).map (ContinuumPoint.restore removed) =
        (points.map (ContinuumPoint.restore removed)).mergeSort pointBefore := by
    intro points
    exact List.map_mergeSort fun _ _ _ _ => rfl
  rw [hsort, ← continuumPoints_restore,
    ringSlots_eraseIdx h hgcd, continuumPoints_filter,
    Ring.mergeSort_filter pointBefore_trans pointBefore_total]

/-- Every key reads the smaller ring as it reads the larger one, without `removed`. -/
theorem reading_eraseIdx (h : removed < endpoints.length)
    (hgcd : weightGcd (endpoints.eraseIdx removed) = weightGcd endpoints) (sum : UInt64) :
    (reading sum (ringPoints platform (endpoints.eraseIdx removed))).map (restored removed) =
      (reading sum (ringPoints platform endpoints)).filter (· ≠ removed) := by
  have hpoints := ringPoints_eraseIdx platform h hgcd
  have hclockwise : ∀ points : List ContinuumPoint,
      (Ring.clockwise (fun point => decide (sum ≤ point.hash)) points).map
          (ContinuumPoint.restore removed) =
        Ring.clockwise (fun point => decide (sum ≤ point.hash))
          (points.map (ContinuumPoint.restore removed)) := by
    intro points
    simp only [Ring.clockwise, List.map_append, List.filter_map]
    rfl
  unfold reading
  rw [List.filter_map, List.map_map]
  show (Ring.clockwise _ _).map (ContinuumPoint.endpointIndex ∘ ContinuumPoint.restore removed) =
    ((Ring.clockwise _ _).filter (·.endpointIndex ≠ removed)).map ContinuumPoint.endpointIndex
  rw [← List.map_map, hclockwise, hpoints, Ring.clockwise_filter]

/-! ## Compiling without a cap -/

theorem ringSlots_eq (endpoints : List WeightedEndpoint) :
    ((normalizeWeights (activeSlots 0 endpoints)).map fun slot =>
      { slot with assigned := slot.weight * continuumPointsPerWeight }) = ringSlots endpoints := by
  have hdivisor : weightDivisor (activeSlots 0 endpoints) = weightGcd endpoints :=
    weightDivisor_activeSlots 0 0 endpoints
  rw [normalizeWeights_eq, hdivisor, List.map_map]
  rfl

theorem Uncapped.length_le (h : Uncapped endpoints) :
    (activeSlots 0 endpoints).length ≤ maxContinuumPoints := by
  have hcount : (normalizeWeights (activeSlots 0 endpoints)).length ≤
      weightSum (normalizeWeights (activeSlots 0 endpoints)) := by
    have hle := List.card_nsmul_le_sum
      ((normalizeWeights (activeSlots 0 endpoints)).map Slot.weight) 1 (by
        intro weight hweight
        obtain ⟨slot, hslot, rfl⟩ := List.mem_map.mp hweight
        exact (mem_normalizeWeights hslot).1)
    rwa [List.length_map, smul_eq_mul, Nat.mul_one] at hle
  rw [normalizeWeights_eq, List.length_map, ← normalizeWeights_eq] at hcount
  unfold Uncapped continuumPointsPerWeight at h
  omega

theorem compileContinuum_uncapped (h : Uncapped endpoints)
    (hseveral : 2 ≤ (activeSlots 0 endpoints).length) :
    compileContinuum platform endpoints =
      .ok (ringOf (continuumPoints platform (ringSlots endpoints))) := by
  have hlimit := h.length_le
  unfold compileContinuum
  split
  · rename_i hnone
    rw [hnone] at hseveral
    simp at hseveral
  · rename_i hone
    rw [hone] at hseveral
    simp at hseveral
  · unfold Uncapped at h
    rw [if_neg (Nat.not_lt.mpr hlimit)]
    dsimp only
    rw [if_pos h, ringSlots_eq]
    rfl

/-- Every active endpoint has points on an uncapped ring. -/
theorem mem_ringPoints (h : Uncapped endpoints) (index : Nat) :
    index ∈ (ringPoints platform endpoints).map ContinuumPoint.endpointIndex ↔
      index ∈ (activeSlots 0 endpoints).map Slot.index := by
  have happortioned := weights_apportioned endpoints (by decide : 1 ≤ continuumPointsPerWeight) h
  rw [ringSlots_eq] at happortioned
  rw [ringPoints, ((List.mergeSort_perm _ _).map ContinuumPoint.endpointIndex).mem_iff,
    mem_continuumPoints platform happortioned]

/-- The compiled ring, whatever its representation, sends a key to the first
endpoint that the key reads. -/
theorem selectIndex_uncapped (h : Uncapped endpoints)
    (hactive : activeSlots 0 endpoints ≠ []) :
    ∃ ring, compileContinuum platform endpoints = .ok ring ∧
      ∀ sum, (reading sum (ringPoints platform endpoints)).head? = some (ring.selectIndex sum) := by
  have hmem := mem_ringPoints platform h
  match hslots : activeSlots 0 endpoints with
  | [] => contradiction
  | [slot] =>
    refine ⟨⟨[], [], slot.index⟩, by rw [compileContinuum, hslots], ?_⟩
    intro sum
    rw [hslots] at hmem
    -- Every point belongs to the one endpoint.
    have hreading : ∀ ordinal, ordinal ∈ reading sum (ringPoints platform endpoints) ↔
        ordinal = slot.index := by
      intro ordinal
      have hone := hmem ordinal
      rw [List.map_singleton, List.mem_singleton] at hone
      rw [← hone, reading, List.mem_map, List.mem_map]
      simp only [Ring.mem_clockwise]
    cases hread : reading sum (ringPoints platform endpoints) with
    | nil =>
      rw [hread] at hreading
      have hnone := (hreading slot.index).mpr rfl
      contradiction
    | cons first rest =>
      rw [hread] at hreading
      rw [List.head?_cons, (hreading first).mp List.mem_cons_self]
      rfl
  | first :: second :: rest =>
    have hseveral : 2 ≤ (activeSlots 0 endpoints).length := by
      rw [hslots]
      simp
    refine ⟨_, compileContinuum_uncapped platform h hseveral, ?_⟩
    intro sum
    apply (ringOf_holds _).selectIndex_eq
    intro hempty
    have hfirst := (hmem first.index).mpr (by rw [hslots]; simp)
    rw [ringPoints, hempty] at hfirst
    contradiction

/-! ## Disruption -/

theorem activeSlots_eraseIdx_ne_nil (h : removed < endpoints.length)
    (hseveral : 2 ≤ (activeSlots 0 endpoints).length) :
    activeSlots 0 (endpoints.eraseIdx removed) ≠ [] := by
  intro hnone
  have hslots := activeSlots_eraseIdx 0 removed endpoints h
  have hnodup := nodup_activeSlots 0 endpoints
  rw [hnone, Nat.zero_add] at hslots
  have hall := List.filter_eq_nil_iff.mp hslots.symm
  match hactive : activeSlots 0 endpoints with
  | [] | [_] =>
    rw [hactive] at hseveral
    simp at hseveral
  | first :: second :: rest =>
    rw [hactive] at hall hnodup
    have hfirst := hall first (by simp)
    have hsecond := hall second (by simp)
    simp only [ne_eq, decide_not, Bool.not_eq_eq_eq_not, Bool.not_true, Bool.not_eq_false,
      decide_eq_true_eq] at hfirst hsecond
    rw [List.map_cons, List.map_cons, List.nodup_cons] at hnodup
    exact hnodup.1 (by rw [hfirst, hsecond]; exact List.mem_cons_self)

/-- Take any endpoint, of positive weight or not, out of a list with at least two
positive weights, where neither ring is capped and both lists have the same common
divisor.  Both rings compile.  A key that the whole ring does not send to the removed
endpoint keeps its endpoint; with the removed endpoint marked unselectable, the whole
ring sends every key where the smaller ring sends it; so adding the endpoint moves
keys only to it. -/
theorem continuum_disruption (endpoints : List WeightedEndpoint)
    (removed : Nat) (hremoved : removed < endpoints.length)
    (hseveral : 2 ≤ (activeSlots 0 endpoints).length) (hwhole : Uncapped endpoints)
    (hwithout : Uncapped (endpoints.eraseIdx removed))
    (hgcd : weightGcd (endpoints.eraseIdx removed) = weightGcd endpoints) :
    ∃ whole without, compileContinuum platform endpoints = .ok whole ∧
      compileContinuum platform (endpoints.eraseIdx removed) = .ok without ∧
      ∀ sum,
        (whole.selectIndex sum ≠ removed →
          whole.selectIndex sum = restored removed (without.selectIndex sum)) ∧
        whole.selectNext sum endpoints.length (fun ordinal => ordinal ≠ removed) =
          some (restored removed (without.selectIndex sum)) ∧
        (restored removed (without.selectIndex sum) ≠ whole.selectIndex sum →
          whole.selectIndex sum = removed) := by
  have hnonempty : activeSlots 0 endpoints ≠ [] := by
    intro hnone
    rw [hnone] at hseveral
    simp at hseveral
  obtain ⟨whole, hcompiled, hindex⟩ := selectIndex_uncapped platform hwhole hnonempty
  obtain ⟨without, hcompiled', hindex'⟩ := selectIndex_uncapped platform hwithout
    (activeSlots_eraseIdx_ne_nil hremoved hseveral)
  refine ⟨whole, without, hcompiled, hcompiled', ?_⟩
  intro sum
  -- What the key reads of the whole ring, without the removed endpoint.
  have hothers : ((reading sum (ringPoints platform endpoints)).filter (· ≠ removed)).head? =
      some (restored removed (without.selectIndex sum)) := by
    rw [← reading_eraseIdx platform hremoved hgcd sum, List.head?_map, hindex' sum]
    rfl
  have hkeep : whole.selectIndex sum ≠ removed →
      whole.selectIndex sum = restored removed (without.selectIndex sum) := by
    intro hne
    have hfirst := hindex sum
    cases hread : reading sum (ringPoints platform endpoints) with
    | nil =>
      rw [hread] at hfirst
      contradiction
    | cons first rest =>
      rw [hread, List.head?_cons] at hfirst
      cases hfirst
      rw [hread, List.filter_cons_of_pos (by simpa using hne), List.head?_cons] at hothers
      exact Option.some.inj hothers
  refine ⟨hkeep, ?_, ?_⟩
  · obtain rfl : ringOf (continuumPoints platform (ringSlots endpoints)) = whole := by
      rw [compileContinuum_uncapped platform hwhole hseveral] at hcompiled
      exact Except.ok.inj hcompiled
    have hpoints : ringPoints platform endpoints ≠ [] := by
      intro hnone
      rw [hnone] at hothers
      contradiction
    have hbound : ∀ point ∈ ringPoints platform endpoints,
        point.endpointIndex < endpoints.length := by
      intro point hpoint
      have hmem := (mem_ringPoints platform hwhole point.endpointIndex).mp
        (List.mem_map_of_mem hpoint)
      obtain ⟨slot, hslot, hslotIndex⟩ := List.mem_map.mp hmem
      obtain ⟨position, _, hget, _, rfl⟩ := mem_activeSlots.mp hslot
      have hposition := (List.getElem?_eq_some_iff.mp hget).1
      dsimp only at hslotIndex
      omega
    have hnext := (ringOf_holds (continuumPoints platform (ringSlots endpoints))).selectNext_eq
      hpoints hbound sum (fun ordinal => ordinal ≠ removed)
    rw [hnext, ← List.head?_filter]
    exact hothers
  · intro hmoved
    by_contra hne
    exact hmoved (hkeep hne).symm

/-- Three endpoints of equal weight, the second of which leaves. -/
theorem continuum_disruption_three :
    ∃ whole without,
      compileContinuum samplePlatform [⟨ascii "a", 1⟩, ⟨ascii "b", 1⟩, ⟨ascii "c", 1⟩] =
        .ok whole ∧
      compileContinuum samplePlatform [⟨ascii "a", 1⟩, ⟨ascii "c", 1⟩] = .ok without ∧
      ∀ sum, whole.selectNext sum 3 (fun ordinal => ordinal ≠ 1) =
        some (restored 1 (without.selectIndex sum)) := by
  obtain ⟨whole, without, hwhole, hwithout, hkeys⟩ := continuum_disruption samplePlatform
    [⟨ascii "a", 1⟩, ⟨ascii "b", 1⟩, ⟨ascii "c", 1⟩] 1 (by decide) (by decide)
    (by decide) (by decide) (by decide)
  exact ⟨whole, without, hwhole, hwithout, fun sum => (hkeys sum).2.1⟩

end GGateway.Upstream
