import GGateway.Library.Ring
import GGateway.Upstream.Health
import GGateway.Upstream.HashKey
import GGateway.Upstream.Registry

/-!
# Selecting an endpoint

`Plan.SelectNext` of `internal/upstream/plan.go` with the two balancers under it:
the scan of the weighted schedule from the shared sequence counter, and the walk
around the continuum from the hash of the request.
-/

namespace GGateway.Upstream

open Text Model Library

/-! ## Attempted endpoints -/

/-- `AttemptSet`: at most five distinct ordinals. -/
structure AttemptSet where
  ordinals : List Nat
  nodup : ordinals.Nodup
  bounded : ordinals.length ≤ 5

namespace AttemptSet

def empty : AttemptSet :=
  ⟨[], List.nodup_nil, by simp⟩

def contains (set : AttemptSet) (ordinal : Nat) : Bool :=
  decide (ordinal ∈ set.ordinals)

/-- `Add`, with `none` for a set that does not take the ordinal. -/
def add (set : AttemptSet) (ordinal : Nat) : Option AttemptSet :=
  if h : ordinal ∉ set.ordinals ∧ set.ordinals.length < 5 then
    some
      { ordinals := set.ordinals ++ [ordinal]
        nodup := by
          rw [List.nodup_append]
          refine ⟨set.nodup, List.nodup_singleton ordinal, ?_⟩
          intro other hother last hlast heq
          rw [List.mem_singleton] at hlast
          exact h.1 (hlast ▸ heq ▸ hother)
        bounded := by
          rw [List.length_append, List.length_singleton]
          omega }
  else none

end AttemptSet

/-! ## Weighted round robin -/

/-- `wrrSelector.selectNext`: the sequence counter after it, and the ordinal. -/
def WRRSelector.selectNext (selector : WRRSelector) (sequence : UInt64)
    (selectable : Nat → Bool) : UInt64 × Option Nat :=
  if selector.schedule = [] then
    (sequence, if selectable selector.direct then some selector.direct else none)
  else
    let start := sequence + 1 - 1
    let scan := (List.range selector.schedule.length).map fun offset =>
      selector.schedule.getD ((start + UInt64.ofNat offset).toNat % selector.schedule.length) 0
    (sequence + 1, scan.find? selectable)

/-! ## Consistent hashing -/

/-- Where the ring is entered: the first point at or after the key, or the first. -/
def Continuum.start (ring : Continuum) (sum : UInt64) : Nat :=
  let index := Ring.search ring.hashes.length fun i => decide (sum ≤ ring.hashes.getD i 0)
  if index = ring.hashes.length then 0 else index

def Continuum.selectIndex (ring : Continuum) (sum : UInt64) : Nat :=
  if ring.hashes = [] then ring.direct else ring.indexes.getD (ring.start sum) 0

/-- `continuum.selectNext`. -/
def Continuum.selectNext (ring : Continuum) (sum : UInt64) (endpointCount : Nat)
    (selectable : Nat → Bool) : Option Nat :=
  if ring.hashes = [] then if selectable ring.direct then some ring.direct else none
  else
    let start := ring.start sum
    let first := ring.indexes.getD start 0
    if selectable first then some first
    else
      let others := (List.range' 1 (ring.hashes.length - 1)).map fun offset =>
        ring.indexes.getD ((start + offset) % ring.hashes.length) 0
      Ring.walk endpointCount selectable others (if first < endpointCount then [first] else []) 1

/-! ## Plans -/

/-- The health trackers, by the runtime that a plan points to. -/
abbrev Trackers := HealthRuntime → EndpointHealth

inductive SelectError where
  | noEndpoint
  | noHealthyEndpoint
  deriving DecidableEq, Repr

structure Selection where
  endpoint : EndpointRuntime
  health : Option HealthRuntime
  transport : TransportRuntime
  transportKey : TransportKey
  ordinal : Nat
  balancer : BalancerType
  hashFallback : Bool
  deriving DecidableEq

def PlanEndpoint.selectable (endpoint : PlanEndpoint) (trackers : Trackers) : Bool :=
  match endpoint.health with
  | none => true
  | some health => (trackers health).selectable

/-- `Plan.selectable`; a nil attempt set excludes nothing. -/
def Plan.selectable (plan : Plan) (trackers : Trackers) (attempted : Option AttemptSet)
    (ordinal : Nat) : Bool :=
  match plan.endpoints[ordinal]? with
  | none => false
  | some endpoint =>
    !(attempted.any fun set => set.contains ordinal) && endpoint.selectable trackers

def Plan.selected (plan : Plan) (fallback : Bool) (ordinal : Nat) :
    Except SelectError Selection :=
  match plan.endpoints[ordinal]? with
  | none => .error .noEndpoint
  | some endpoint =>
    .ok ⟨endpoint.runtime, endpoint.health, plan.transport, plan.transportKey, ordinal,
      plan.algorithm, fallback⟩

/-- `SelectNext` at a value of the shared sequence counter; the first component is
the counter after it. -/
def Plan.selectNext (platform : Platform) (plan : Plan) (trackers : Trackers) (sequence : UInt64)
    (request : Option HashInput) (attempted : Option AttemptSet) :
    UInt64 × Except SelectError Selection :=
  if plan.endpoints = [] then (sequence, .error .noEndpoint)
  else
    match plan.algorithm with
    | .weightedRoundRobin =>
      match plan.wrr.selectNext sequence (plan.selectable trackers attempted) with
      | (next, none) => (next, .error .noHealthyEndpoint)
      | (next, some ordinal) => (next, plan.selected false ordinal)
    | .consistentHash =>
      let (sum, fallback) := sum64 platform plan.hashKey request
      match plan.continuum.selectNext sum plan.endpoints.length
          (plan.selectable trackers attempted) with
      | none => (sequence, .error .noHealthyEndpoint)
      | some ordinal => (sequence, plan.selected fallback ordinal)
    | .other _ => (sequence, .error .noEndpoint)

/-! ## What the balancers find -/

/-- Away from the end of the counter, the scan reads the schedule around. -/
theorem WRRSelector.selectNext_eq {selector : WRRSelector} (hschedule : selector.schedule ≠ [])
    {sequence : UInt64} (hsequence : sequence.toNat + selector.schedule.length ≤ 2 ^ 64)
    (selectable : Nat → Bool) :
    (selector.selectNext sequence selectable).2 =
      (selector.schedule.rotate sequence.toNat).find? selectable := by
  unfold WRRSelector.selectNext
  rw [if_neg hschedule, ← Ring.map_range_getD selector.schedule sequence.toNat 0]
  dsimp only
  congr 1
  apply List.map_congr_left
  intro offset hoffset
  rw [List.mem_range] at hoffset
  have hstart : sequence + 1 - 1 = sequence := by simp
  have hsum : (sequence + UInt64.ofNat offset).toNat = sequence.toNat + offset := by
    rw [UInt64.toNat_add, UInt64.toNat_ofNat']
    omega
  rw [hstart, hsum]

theorem WRRSelector.selectable_of_selectNext {selector : WRRSelector} {sequence : UInt64}
    {selectable : Nat → Bool} {ordinal : Nat}
    (h : (selector.selectNext sequence selectable).2 = some ordinal) :
    selectable ordinal = true := by
  unfold WRRSelector.selectNext at h
  split_ifs at h with hempty hdirect
  · cases h
    exact hdirect
  · exact List.find?_some h

theorem Continuum.selectable_of_selectNext {ring : Continuum} {sum : UInt64}
    {endpointCount : Nat} {selectable : Nat → Bool} {ordinal : Nat}
    (h : ring.selectNext sum endpointCount selectable = some ordinal) :
    selectable ordinal = true := by
  unfold Continuum.selectNext at h
  dsimp only at h
  split_ifs at h with hempty hdirect hfirst
  · cases h
    exact hdirect
  · cases h
    exact hfirst
  · exact Ring.acceptable_of_walk h
  · exact Ring.acceptable_of_walk h

/-- What any plan selects is one of its endpoints, untried and selectable. -/
theorem Plan.selectNext_sound {platform : Platform} {plan : Plan} {trackers : Trackers}
    {sequence : UInt64} {request : Option HashInput} {attempted : Option AttemptSet}
    {selection : Selection}
    (h : (plan.selectNext platform trackers sequence request attempted).2 = .ok selection) :
    ∃ endpoint, plan.endpoints[selection.ordinal]? = some endpoint ∧
      selection.endpoint = endpoint.runtime ∧ selection.health = endpoint.health ∧
      plan.selectable trackers attempted selection.ordinal = true := by
  have hselected : ∀ {fallback : Bool} {ordinal : Nat},
      plan.selected fallback ordinal = .ok selection →
      plan.selectable trackers attempted ordinal = true →
      ∃ endpoint, plan.endpoints[selection.ordinal]? = some endpoint ∧
        selection.endpoint = endpoint.runtime ∧ selection.health = endpoint.health ∧
        plan.selectable trackers attempted selection.ordinal = true := by
    intro fallback ordinal hok hselectable
    unfold Plan.selected at hok
    split at hok
    · contradiction
    rename_i endpoint hendpoint
    cases hok
    exact ⟨endpoint, hendpoint, rfl, rfl, hselectable⟩
  unfold Plan.selectNext at h
  split_ifs at h
  split at h
  · split at h
    · contradiction
    · rename_i next ordinal hfound
      exact hselected h (WRRSelector.selectable_of_selectNext (congrArg Prod.snd hfound))
  · dsimp only at h
    split at h
    · contradiction
    · rename_i ordinal hfound
      exact hselected h (Continuum.selectable_of_selectNext hfound)
  · contradiction

/-- The compiled ring holds the points, in the order of their hashes. -/
structure Continuum.Holds (ring : Continuum) (points : List ContinuumPoint) : Prop where
  hashes : ring.hashes = points.map ContinuumPoint.hash
  indexes : ring.indexes = points.map ContinuumPoint.endpointIndex
  sorted : points.Pairwise fun left right => left.hash ≤ right.hash

/-- The endpoints of a ring in the order in which a key meets them. -/
def reading (sum : UInt64) (points : List ContinuumPoint) : List Nat :=
  (Ring.clockwise (fun point => decide (sum ≤ point.hash)) points).map
    ContinuumPoint.endpointIndex

section Points

variable {ring : Continuum} {points : List ContinuumPoint}

/-- Entering the ring at `start` reads it clockwise from the key. -/
theorem Continuum.Holds.rotate_start (h : ring.Holds points) (hpoints : points ≠ [])
    (sum : UInt64) :
    ring.start sum < points.length ∧
      points.rotate (ring.start sum) =
        Ring.clockwise (fun point => decide (sum ≤ point.hash)) points := by
  let origin : ContinuumPoint := ⟨0, [], 0, 0⟩
  have hreached : (fun i => decide (sum ≤ ring.hashes.getD i 0)) =
      fun i => decide (sum ≤ (points.getD i origin).hash) := by
    funext i
    rw [h.hashes]
    have hget := List.getD_map points origin ContinuumPoint.hash (n := i)
    exact congrArg (fun hash => decide (sum ≤ hash)) hget
  have hsorted : points.Pairwise fun left right =>
      decide (sum ≤ left.hash) = true → decide (sum ≤ right.hash) = true := by
    apply h.sorted.imp
    intro left right hle hleft
    simp only [decide_eq_true_eq] at hleft ⊢
    exact UInt64.le_trans hleft hle
  have hlength : ring.hashes.length = points.length := by
    rw [h.hashes, List.length_map]
  have hpos := List.length_pos_iff.mpr hpoints
  have hle := (Ring.take_drop_search origin hsorted).1
  rw [← Ring.rotate_search origin hsorted]
  unfold Continuum.start
  dsimp only at hle ⊢
  rw [hreached, hlength]
  split_ifs with hend
  · exact ⟨hpos, by rw [hend, List.rotate_length, List.rotate_zero]⟩
  · exact ⟨by omega, rfl⟩

/-- The positions from the start on, in the order of the walk. -/
theorem Continuum.Holds.reading_eq (h : ring.Holds points) (hpoints : points ≠ [])
    (sum : UInt64) :
    reading sum points = ring.indexes.getD (ring.start sum) 0 ::
      (List.range' 1 (ring.hashes.length - 1)).map fun offset =>
        ring.indexes.getD ((ring.start sum + offset) % ring.hashes.length) 0 := by
  have hlength : ring.hashes.length = points.length := by
    rw [h.hashes, List.length_map]
  have hindexes : ring.indexes.length = points.length := by
    rw [h.indexes, List.length_map]
  have hpos := List.length_pos_iff.mpr hpoints
  obtain ⟨hlt, hrotate⟩ := h.rotate_start hpoints sum
  rw [reading, ← hrotate, List.map_rotate, ← h.indexes,
    ← Ring.map_range_getD ring.indexes (ring.start sum) 0, hindexes, hlength]
  obtain ⟨count, hcount⟩ : ∃ count, points.length = count + 1 := ⟨points.length - 1, by omega⟩
  rw [hcount, List.range_eq_range', List.range'_succ, List.map_cons, Nat.add_zero,
    Nat.mod_eq_of_lt (by omega), Nat.add_sub_cancel]

/-- `selectIndex` is the first endpoint that the key meets. -/
theorem Continuum.Holds.selectIndex_eq (h : ring.Holds points) (hpoints : points ≠ [])
    (sum : UInt64) : (reading sum points).head? = some (ring.selectIndex sum) := by
  have hhashes : ring.hashes ≠ [] := by
    rw [h.hashes]
    simpa using hpoints
  rw [h.reading_eq hpoints sum, List.head?_cons, Continuum.selectIndex, if_neg hhashes]

/-- `selectNext` is the first selectable one. -/
theorem Continuum.Holds.selectNext_eq (h : ring.Holds points) (hpoints : points ≠ [])
    {endpointCount : Nat} (hordinals : ∀ point ∈ points, point.endpointIndex < endpointCount)
    (sum : UInt64) (selectable : Nat → Bool) :
    ring.selectNext sum endpointCount selectable = (reading sum points).find? selectable := by
  have hhashes : ring.hashes ≠ [] := by
    rw [h.hashes]
    simpa using hpoints
  have hbound : ∀ ordinal ∈ reading sum points, ordinal < endpointCount := by
    intro ordinal hordinal
    obtain ⟨point, hpoint, rfl⟩ := List.mem_map.mp hordinal
    exact hordinals point (Ring.mem_clockwise.mp hpoint)
  unfold Continuum.selectNext
  rw [h.reading_eq hpoints sum] at hbound ⊢
  rw [if_neg hhashes]
  dsimp only
  have hfirst := hbound _ List.mem_cons_self
  split_ifs with hselectable
  · rw [List.find?_cons_of_pos hselectable]
  rw [List.find?_cons_of_neg hselectable]
  apply Ring.walk_eq_find (List.nodup_singleton _)
  · intro ordinal hordinal
    obtain rfl := List.mem_singleton.mp hordinal
    exact ⟨hfirst, by simpa using hselectable⟩
  · intro ordinal hordinal
    exact hbound ordinal (List.mem_cons_of_mem _ hordinal)

end Points

end GGateway.Upstream
