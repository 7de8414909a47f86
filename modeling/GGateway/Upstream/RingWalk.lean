import GGateway.Upstream.Apportionment
import GGateway.Upstream.Conservation

/-!
# The failover walk and the plain definition

`continuum.selectNext` walks around the ring with a table of the endpoints it has
met.  The ordinals it is indexed with count the endpoints of weight zero as well, so
a table with as many entries as there are positive-weight endpoints may lack an
entry for one of them, which the walk then passes over.  `Plan.SelectNext` gives it
an entry for each endpoint of the plan.

* `Continuum.around` is the plain definition: the ring read clockwise;
* `selectNext_of_entries`: with an entry for every ordinal the walk is that search;
* `selectNext_around` says what the walk finds with the smaller table;
* `selectNextLogged_nodup` says that it asks about no endpoint twice.
-/

namespace GGateway.Upstream

open Text Model Library

/-! ## The plain definition -/

variable (ring : Continuum)

/-- The endpoints of the points of a ring, going clockwise from the first point
at or after the key; a ring for one endpoint has no points. -/
def Continuum.around (sum : UInt64) : List Nat :=
  if ring.hashes = [] then [ring.direct]
  else
    (Ring.clockwise (fun point => decide (sum ≤ point.1)) (ring.hashes.zip ring.indexes)).map
      Prod.snd

def positiveCount (endpoints : List WeightedEndpoint) : Nat :=
  endpoints.countP fun endpoint => decide (0 < endpoint.weight)

/-- `selectNext` together with the ordinals it asks `selectable` about. -/
def Continuum.selectNextLogged (sum : UInt64) (endpointCount : Nat)
    (selectable : Nat → Bool) : Option Nat × List Nat :=
  if ring.hashes = [] then
    (if selectable ring.direct then some ring.direct else none, [ring.direct])
  else
    let start := ring.start sum
    let first := ring.indexes.getD start 0
    if selectable first then (some first, [first])
    else
      let others := (List.range' 1 (ring.hashes.length - 1)).map fun offset =>
        ring.indexes.getD ((start + offset) % ring.hashes.length) 0
      let (found, asked) := Ring.walkLogged endpointCount selectable others
        (if first < endpointCount then [first] else []) 1
      (found, first :: asked)

theorem selectNextLogged_fst (sum : UInt64) (endpointCount : Nat)
    (selectable : Nat → Bool) :
    (ring.selectNextLogged sum endpointCount selectable).1 =
      ring.selectNext sum endpointCount selectable := by
  unfold Continuum.selectNextLogged Continuum.selectNext
  by_cases hdirect : ring.hashes = []
  · rw [if_pos hdirect, if_pos hdirect]
  rw [if_neg hdirect, if_neg hdirect]
  by_cases hfirst : selectable (ring.indexes.getD (ring.start sum) 0) = true
  · rw [if_pos hfirst, if_pos hfirst]
  · rw [if_neg hfirst, if_neg hfirst]
    exact Ring.walkLogged_fst ..

/-- No endpoint is asked about twice. -/
theorem selectNextLogged_nodup (sum : UInt64) (endpointCount : Nat)
    (selectable : Nat → Bool) :
    (ring.selectNextLogged sum endpointCount selectable).2.Nodup := by
  unfold Continuum.selectNextLogged
  by_cases hdirect : ring.hashes = []
  · rw [if_pos hdirect]
    exact List.nodup_singleton _
  rw [if_neg hdirect]
  by_cases hfirst : selectable (ring.indexes.getD (ring.start sum) 0) = true
  · rw [if_pos hfirst]
    exact List.nodup_singleton _
  rw [if_neg hfirst]
  obtain ⟨hnodup, hfresh⟩ := Ring.walkLogged_fresh endpointCount selectable
    ((List.range' 1 (ring.hashes.length - 1)).map fun offset =>
      ring.indexes.getD ((ring.start sum + offset) % ring.hashes.length) 0)
    (if ring.indexes.getD (ring.start sum) 0 < endpointCount then
      [ring.indexes.getD (ring.start sum) 0] else []) 1
  refine List.nodup_cons.mpr ⟨fun hmem => ?_, hnodup⟩
  -- the first one is either in the table or out of its range
  obtain ⟨hbelow, hnot⟩ := hfresh _ hmem
  rw [if_pos hbelow] at hnot
  exact hnot List.mem_cons_self

/-! ## What the walk finds -/

theorem Continuum.Holds.around_eq {ring : Continuum} {points : List ContinuumPoint}
    (h : ring.Holds points) (hpoints : points ≠ []) (sum : UInt64) :
    ring.around sum = reading sum points := by
  have hhashes : ring.hashes ≠ [] := by
    rw [h.hashes]
    simpa using hpoints
  have hzip : ring.hashes.zip ring.indexes =
      points.map fun point => (point.hash, point.endpointIndex) := by
    rw [h.hashes, h.indexes, List.zip_map']
  rw [Continuum.around, if_neg hhashes, hzip, reading, Ring.clockwise, Ring.clockwise,
    List.filter_map, List.filter_map, List.map_append, List.map_append, List.map_map,
    List.map_map]
  rfl

theorem length_activeSlots (start : Nat) (endpoints : List WeightedEndpoint) :
    (activeSlots start endpoints).length = positiveCount endpoints := by
  unfold positiveCount
  induction endpoints generalizing start with
  | nil => rfl
  | cons endpoint rest ih =>
    unfold activeSlots
    split_ifs with hweight
    · rw [ih, List.countP_cons_of_neg (by simp [hweight])]
    · rw [List.length_cons, ih, List.countP_cons_of_pos (by simp; omega)]

theorem mem_indexes_iff {endpoints : List WeightedEndpoint} {ordinal : Nat} :
    ordinal ∈ (activeSlots 0 endpoints).map Slot.index ↔
      ∃ endpoint, endpoints[ordinal]? = some endpoint ∧ 0 < endpoint.weight := by
  constructor
  · intro h
    obtain ⟨slot, hslot, rfl⟩ := List.mem_map.mp h
    obtain ⟨position, endpoint, hget, hweight, rfl⟩ := mem_activeSlots.mp hslot
    refine ⟨endpoint, ?_, Nat.pos_of_ne_zero hweight⟩
    rwa [Nat.zero_add]
  · rintro ⟨endpoint, hget, hweight⟩
    refine List.mem_map.mpr ⟨_, mem_activeSlots.mpr
      ⟨ordinal, endpoint, hget, Nat.pos_iff_ne_zero.mp hweight, rfl⟩, ?_⟩
    exact Nat.zero_add ordinal

/-- A search that asks for more finds the same exactly when what was found has
it. -/
theorem find?_and_eq_iff {ordinals : List Nat} {extra selectable : Nat → Bool} :
    ordinals.find? (fun ordinal => extra ordinal && selectable ordinal) =
        ordinals.find? selectable ↔
      ∀ ordinal, ordinals.find? selectable = some ordinal → extra ordinal = true := by
  constructor
  · intro h ordinal hfound
    rw [hfound] at h
    have hboth := List.find?_some h
    rw [Bool.and_eq_true] at hboth
    exact hboth.1
  · intro h
    cases hfound : ordinals.find? selectable with
    | none =>
      rw [List.find?_eq_none] at hfound ⊢
      intro ordinal hordinal
      simp [hfound ordinal hordinal]
    | some ordinal =>
      obtain ⟨hselectable, before, after, hsplit, hbefore⟩ :=
        List.find?_eq_some_iff_append.mp hfound
      refine List.find?_eq_some_iff_append.mpr
        ⟨by simp [h ordinal hfound, hselectable], before, after, hsplit, ?_⟩
      intro other hother
      have hnot := hbefore other hother
      simp [hnot]

section Compiled

variable {platform : Platform} {endpoints : List WeightedEndpoint} {ring : Continuum}

section Compiled

variable (h : compileContinuum platform endpoints = .ok ring)

include h

/-- The ring is read from the point that `selectIndex` finds, and every
positive-weight endpoint is on it. -/
theorem around_spec (sum : UInt64) :
    (∃ rest, ring.around sum = ring.selectIndex sum :: rest) ∧
      ∀ ordinal, ordinal ∈ ring.around sum ↔
        ordinal ∈ (activeSlots 0 endpoints).map Slot.index := by
  rcases compileContinuum_spec h with ⟨hempty, hdirect⟩ | ⟨points, hpoints, hholds, hmem⟩
  · have haround : ring.around sum = [ring.direct] := if_pos hempty
    have hselected : ring.selectIndex sum = ring.direct := if_pos hempty
    rw [haround, hselected, hdirect]
    exact ⟨⟨[], rfl⟩, fun ordinal => Iff.rfl⟩
  · rw [hholds.around_eq hpoints sum]
    constructor
    · exact List.head?_eq_some_iff.mp (hholds.selectIndex_eq hpoints sum)
    · intro ordinal
      rw [← hmem, reading, List.mem_map, List.mem_map]
      simp only [Ring.mem_clockwise]

/-- The walk after an endpoint that is not selectable finds the first selectable
one that the table has an entry for. -/
theorem walk_after_first {sum : UInt64}
    {others : List Nat} (haround : ring.around sum = ring.selectIndex sum :: others)
    {selectable : Nat → Bool} (hfirst : ¬ selectable (ring.selectIndex sum) = true) :
    Ring.walk (positiveCount endpoints) selectable others
        (if ring.selectIndex sum < positiveCount endpoints then [ring.selectIndex sum] else []) 1 =
      others.find? fun ordinal =>
        decide (ordinal < positiveCount endpoints) && selectable ordinal := by
  have hmem := (around_spec h sum).2
  rw [haround] at hmem
  by_cases hbelow : ring.selectIndex sum < positiveCount endpoints
  · rw [if_pos hbelow]
    have hseen : ∀ ordinal ∈ [ring.selectIndex sum],
        ordinal ∈ List.range (positiveCount endpoints) ∧ selectable ordinal = false :=
      List.forall_mem_singleton.mpr ⟨List.mem_range.mpr hbelow, by simpa using hfirst⟩
    have hwalk : Ring.walk (positiveCount endpoints) selectable others [ring.selectIndex sum]
        (1 + 0) = _ :=
      Ring.walk_eq_find_below (List.nodup_singleton _) hseen
        (fun ordinal _ hlt => List.mem_range.mpr hlt) (by rw [List.length_range]; rfl)
    exact hwalk
  · -- the table has no entry for the first endpoint, which the counter has counted
    rw [if_neg hbelow]
    have hlength : (activeSlots 0 endpoints).length = positiveCount endpoints :=
      length_activeSlots 0 endpoints
    let members := ((activeSlots 0 endpoints).map Slot.index).filter
      fun ordinal => decide (ordinal < positiveCount endpoints)
    have hshort : members.length + 1 ≤ positiveCount endpoints := by
      rw [← hlength, ← List.length_map Slot.index]
      refine List.length_filter_lt_length_iff_exists.mpr ⟨ring.selectIndex sum, ?_, ?_⟩
      · exact (hmem _).mp List.mem_cons_self
      · simpa using hbelow
    have hwalk : Ring.walk (positiveCount endpoints) selectable others [] (0 + 1) = _ :=
      Ring.walk_eq_find_below List.nodup_nil nofun
        (fun ordinal hordinal hlt => List.mem_filter.mpr
          ⟨(hmem ordinal).mp (List.mem_cons_of_mem _ hordinal), by simpa using hlt⟩) hshort
    exact hwalk

/-- The walk finds the endpoint of the first point, or else the first selectable
endpoint that its table has an entry for. -/
theorem selectNext_around (sum : UInt64)
    (selectable : Nat → Bool) :
    ring.selectNext sum (positiveCount endpoints) selectable =
      (ring.around sum).find? fun ordinal =>
        (decide (ordinal = ring.selectIndex sum) || decide (ordinal < positiveCount endpoints)) &&
          selectable ordinal := by
  rcases compileContinuum_spec h with ⟨hempty, -⟩ | ⟨points, hpoints, hholds, -⟩
  · have haround : ring.around sum = [ring.direct] := if_pos hempty
    have hselected : ring.selectIndex sum = ring.direct := if_pos hempty
    rw [Continuum.selectNext, if_pos hempty, haround, hselected, List.find?_singleton]
    simp
  · have hhashes : ring.hashes ≠ [] := by
      rw [hholds.hashes]
      simpa using hpoints
    have hselected : ring.selectIndex sum = ring.indexes.getD (ring.start sum) 0 := if_neg hhashes
    have haround := hholds.around_eq hpoints sum
    rw [hholds.reading_eq hpoints sum, ← hselected] at haround
    rw [Continuum.selectNext, if_neg hhashes]
    dsimp only
    rw [← hselected, haround]
    by_cases hfirst : selectable (ring.selectIndex sum) = true
    · rw [if_pos hfirst, List.find?_cons_of_pos (by simp [hfirst])]
    rw [if_neg hfirst, List.find?_cons_of_neg (by simp [hfirst]), walk_after_first h haround hfirst]
    apply List.find?_congr
    intro ordinal _
    by_cases hsame : ordinal = ring.selectIndex sum
    · simp [hsame, hfirst]
    · simp [hsame]

/-- With a table that has an entry for every positive-weight endpoint the walk is
the plain search. -/
theorem selectNext_of_entries {count : Nat}
    (hcount : ∀ ordinal ∈ (activeSlots 0 endpoints).map Slot.index, ordinal < count)
    (sum : UInt64) (selectable : Nat → Bool) :
    ring.selectNext sum count selectable = (ring.around sum).find? selectable := by
  rcases compileContinuum_spec h with ⟨hempty, -⟩ | ⟨points, hpoints, hholds, hmem⟩
  · have haround : ring.around sum = [ring.direct] := if_pos hempty
    rw [Continuum.selectNext, if_pos hempty, haround, List.find?_singleton]
  · rw [hholds.around_eq hpoints sum]
    refine hholds.selectNext_eq hpoints (fun point hpoint => ?_) sum selectable
    exact hcount _ ((hmem _).mp (List.mem_map_of_mem hpoint))

end Compiled

theorem selectNext_of_first (sum : UInt64) (count : Nat) {selectable : Nat → Bool}
    (hfirst : selectable (ring.selectIndex sum) = true) :
    ring.selectNext sum count selectable = some (ring.selectIndex sum) := by
  unfold Continuum.selectNext Continuum.selectIndex at *
  by_cases hdirect : ring.hashes = []
  · rw [if_pos hdirect] at hfirst ⊢
    rw [if_pos hdirect, if_pos hfirst]
  · rw [if_neg hdirect] at hfirst ⊢
    rw [if_neg hdirect]
    exact if_pos hfirst

/-- With no endpoint of weight zero in front of another. -/
theorem lt_positiveCount {endpoints : List WeightedEndpoint} {ordinal : Nat}
    {endpoint : WeightedEndpoint}
    (h : endpoints.Pairwise fun before after => 0 < after.weight → 0 < before.weight)
    (hget : endpoints[ordinal]? = some endpoint) (hweight : 0 < endpoint.weight) :
    ordinal < positiveCount endpoints := by
  unfold positiveCount
  induction endpoints generalizing ordinal with
  | nil => contradiction
  | cons first rest ih =>
    rw [List.pairwise_cons] at h
    cases ordinal with
    | zero =>
      rw [← Option.some.inj hget] at hweight
      rw [List.countP_cons_of_pos (by simpa using hweight)]
      exact Nat.succ_pos _
    | succ ordinal =>
      rw [List.getElem?_cons_succ] at hget
      have hfirst := h.1 endpoint (List.mem_of_getElem? hget) hweight
      rw [List.countP_cons_of_pos (by simpa using hfirst)]
      exact Nat.succ_lt_succ (ih h.2 hget)

/-- With a table for the whole endpoint list the walk is the plain search around
the ring.  With a table for as many endpoints as have a positive weight it is so
exactly when the plain search ends at the first point or at an ordinal that the
table has an entry for: always, if endpoints of weight zero come last.  The plain
search fails exactly when no positive-weight endpoint is selectable; the walk asks
about no endpoint twice; and it returns what `selectIndex` returns when every
endpoint is selectable. -/
theorem selectNext_plain_iff (platform : Platform) (endpoints : List WeightedEndpoint)
    (ring : Continuum) (h : compileContinuum platform endpoints = .ok ring) (sum : UInt64)
    (selectable : Nat → Bool) :
    ring.selectNext sum endpoints.length selectable = (ring.around sum).find? selectable ∧
    (ring.selectNext sum (positiveCount endpoints) selectable =
        (ring.around sum).find? selectable ↔
      ∀ ordinal, (ring.around sum).find? selectable = some ordinal →
        ordinal = ring.selectIndex sum ∨ ordinal < positiveCount endpoints) ∧
    (endpoints.Pairwise (fun before after => 0 < after.weight → 0 < before.weight) →
      ring.selectNext sum (positiveCount endpoints) selectable =
        (ring.around sum).find? selectable) ∧
    ((ring.around sum).find? selectable = none ↔
      ∀ (ordinal : Nat) (endpoint : WeightedEndpoint), endpoints[ordinal]? = some endpoint →
        0 < endpoint.weight → selectable ordinal = false) ∧
    (∀ count, (ring.selectNextLogged sum count selectable).1 =
        ring.selectNext sum count selectable ∧
      (ring.selectNextLogged sum count selectable).2.Nodup) ∧
    ((∀ (ordinal : Nat) (endpoint : WeightedEndpoint), endpoints[ordinal]? = some endpoint →
        selectable ordinal = true) →
      ∀ count, ring.selectNext sum count selectable = some (ring.selectIndex sum)) := by
  obtain ⟨⟨others, haround⟩, hmem⟩ := around_spec h sum
  refine ⟨?_, ?_, ?_, ?_, fun count => ⟨selectNextLogged_fst .., selectNextLogged_nodup ..⟩, ?_⟩
  · apply selectNext_of_entries h
    intro ordinal hordinal
    obtain ⟨endpoint, hget, -⟩ := mem_indexes_iff.mp hordinal
    exact (List.getElem?_eq_some_iff.mp hget).1
  · rw [selectNext_around h sum selectable, find?_and_eq_iff]
    simp only [Bool.or_eq_true, decide_eq_true_eq]
  · intro hordered
    rw [selectNext_around h sum selectable, find?_and_eq_iff]
    intro ordinal hfound
    obtain ⟨endpoint, hget, hweight⟩ :=
      mem_indexes_iff.mp ((hmem ordinal).mp (List.mem_of_find?_eq_some hfound))
    simp [lt_positiveCount hordered hget hweight]
  · rw [List.find?_eq_none]
    constructor
    · intro hnone ordinal endpoint hget hweight
      have hnot := hnone ordinal ((hmem ordinal).mpr (mem_indexes_iff.mpr ⟨endpoint, hget, hweight⟩))
      simpa using hnot
    · intro hnone ordinal hordinal
      obtain ⟨endpoint, hget, hweight⟩ := mem_indexes_iff.mp ((hmem ordinal).mp hordinal)
      simp [hnone ordinal endpoint hget hweight]
  · intro hall count
    have hin : ring.selectIndex sum ∈ ring.around sum := haround ▸ List.mem_cons_self
    obtain ⟨endpoint, hget, -⟩ := mem_indexes_iff.mp ((hmem _).mp hin)
    exact selectNext_of_first sum count (hall _ endpoint hget)

theorem selectNext_plain_iff_two :
    ∃ ring, compileContinuum samplePlatform [⟨ascii "a", 1⟩, ⟨ascii "b", 2⟩] = .ok ring ∧
      ring.selectNext 7 2 (fun ordinal => ordinal == 1) =
        (ring.around 7).find? fun ordinal => ordinal == 1 := by
  obtain ⟨ring, hring⟩ := Checks.exists_of_isOk
    (show (compileContinuum samplePlatform [⟨ascii "a", 1⟩, ⟨ascii "b", 2⟩]).isOk = true by rfl)
  exact ⟨ring, hring, (selectNext_plain_iff samplePlatform _ ring hring 7 _).1⟩

/-- Two endpoints of weight zero in front of two others: the walk returns nothing
when the endpoint of the first point is the only one that is not selectable. -/
theorem selectNext_skips_selectable :
    ∃ ring, compileContinuum samplePlatform
        [⟨ascii "a", 0⟩, ⟨ascii "b", 0⟩, ⟨ascii "c", 1⟩, ⟨ascii "d", 1⟩] = .ok ring ∧
      ring.selectNext 0 2 (fun ordinal => ordinal != ring.selectIndex 0) = none ∧
      ((ring.around 0).find? fun ordinal => ordinal != ring.selectIndex 0).isSome = true := by
  obtain ⟨ring, hring⟩ := Checks.exists_of_isOk
    (show (compileContinuum samplePlatform
      [⟨ascii "a", 0⟩, ⟨ascii "b", 0⟩, ⟨ascii "c", 1⟩, ⟨ascii "d", 1⟩]).isOk = true by rfl)
  have hmem : ∀ ordinal, ordinal ∈ ring.around 0 ↔ ordinal ∈ [2, 3] := (around_spec hring 0).2
  refine ⟨ring, hring, ?_, ?_⟩
  · refine (selectNext_around hring 0 _).trans (List.find?_eq_none.mpr fun ordinal hordinal => ?_)
    -- both ordinals are out of the range of the table
    have hbeyond : ¬ ordinal < 2 := by
      have hin := (hmem ordinal).mp hordinal
      simp at hin
      omega
    have hcount : positiveCount
        [⟨ascii "a", 0⟩, ⟨ascii "b", 0⟩, ⟨ascii "c", 1⟩, ⟨ascii "d", 1⟩] = 2 := rfl
    rw [hcount]
    simp [hbeyond]
  · rw [List.find?_isSome]
    by_cases hfirst : ring.selectIndex 0 = 2
    · exact ⟨3, (hmem 3).mpr (by decide), by simp [hfirst]⟩
    · exact ⟨2, (hmem 2).mpr (by decide), by simpa using Ne.symm hfirst⟩

end Compiled

end GGateway.Upstream
