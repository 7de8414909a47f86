import GGateway.Upstream.Apportionment
import GGateway.Upstream.Conservation

/-!
# Selection is complete

A plan that `Prepare` has made selects an endpoint whenever one of its endpoints
may be selected, and then one that may.  The plan's endpoints are the
positive-weight endpoints of its upstream, in their order, and the compiled
balancer contains all of them.
-/

namespace GGateway.Upstream

open Text Model Library Library.RefTable

/-! ## What a plan is made of -/

/-- The endpoints as the balancers see them. -/
def Plan.weighted (plan : Plan) : List WeightedEndpoint :=
  plan.endpoints.map fun endpoint => ⟨endpoint.identity, endpoint.weight⟩

/-- The identity and the weight of the endpoints that take traffic. -/
def servedEndpoints (resource : Upstream) : List (Bytes × Nat) :=
  (resource.endpoints.filter (·.weight ≠ 0)).map fun endpoint =>
    (endpointIdentity resource.id endpoint.url, endpoint.weight)

/-- The plan is one for the upstream. -/
structure Plan.Serves (plan : Plan) (platform : Platform) (resource : Upstream)
    (registry : Registry) (owned : ResourceRefs) : Prop where
  id : plan.id = resource.id
  algorithm : plan.algorithm = resource.balancer.type
  endpoints : plan.endpoints.map (fun endpoint => (endpoint.identity, endpoint.weight)) =
    servedEndpoints resource
  health : ∀ endpoint ∈ plan.endpoints,
    TrackedBy platform resource plan.transportKey registry owned endpoint
  balancer : compileBalancer platform resource plan.weighted =
    .ok (plan.wrr, plan.continuum, plan.hashKey)

section Prepare

variable {platform : Platform} {resource : Upstream}

theorem Plan.Serves.mono {plan : Plan} {registry next : Registry} {owned more : ResourceRefs}
    (h : plan.Serves platform resource registry owned)
    (hmono : ∀ key value, Pinned registry owned .health key value →
      Pinned next more .health key value) : plan.Serves platform resource next more :=
  ⟨h.id, h.algorithm, h.endpoints, fun endpoint hendpoint =>
    (h.health endpoint hendpoint).mono hmono, h.balancer⟩

theorem preparePlanLocked_serves {profile : TransportProfile} {p q : Preparing} {plan : Plan}
    (h : preparePlanLocked platform resource profile p = (q, .ok plan)) :
    plan.Serves platform resource q.registry q.owned := by
  unfold preparePlanLocked at h
  dsimp only at h
  split at h
  · exact nomatch (Prod.mk.inj h).2
  rename_i r endpoints hr
  have hthird := prepareBudget_takes platform resource r
  split at h
  · exact nomatch (Prod.mk.inj h).2
  rename_i wrr continuum hashKey hbalancer
  obtain ⟨rfl, hplan⟩ := Prod.mk.inj h
  cases hplan
  refine ⟨rfl, rfl, (prepareEndpoints_each hr).1, ?_, hbalancer⟩
  intro endpoint hendpoint
  exact (prepareEndpoints_tracked hr endpoint hendpoint).mono fun _ _ => hthird.pinned

/-- Every plan of a candidate serves one of the upstreams. -/
theorem preparePlans_serves {materials : MaterialIndex} {index : Nat}
    {resources : List Upstream} {p q : Preparing} {plans : List (Bytes × Plan)}
    (h : preparePlans platform materials index resources p = (q, .ok plans)) :
    ∀ entry ∈ plans, ∃ resource ∈ resources, entry.1 = resource.id ∧
      entry.2.Serves platform resource q.registry q.owned := by
  intro entry hentry
  obtain ⟨resource, hresource, _, _, _, _, hplan, hid, hrest⟩ := preparePlans_each h entry hentry
  refine ⟨resource, hresource, hid, (preparePlanLocked_serves hplan).mono ?_⟩
  exact fun _ _ hpinned => hrest.pinned ⟨hpinned.1, hpinned.2⟩

end Prepare

/-! ## What a plan finds -/

/-- An endpoint of the plan that has not been tried and is not unhealthy. -/
structure Plan.Open (plan : Plan) (trackers : Trackers) (attempted : Option AttemptSet)
    (ordinal : Nat) (endpoint : PlanEndpoint) : Prop where
  member : plan.endpoints[ordinal]? = some endpoint
  untried : ∀ set, attempted = some set → ordinal ∉ set.ordinals
  healthy : ∀ tracker, endpoint.health = some tracker → (trackers tracker).state ≠ .unhealthy

theorem Plan.selectable_iff {plan : Plan} {trackers : Trackers} {attempted : Option AttemptSet}
    {ordinal : Nat} :
    plan.selectable trackers attempted ordinal = true ↔
      ∃ endpoint, plan.Open trackers attempted ordinal endpoint := by
  unfold Plan.selectable
  cases hendpoint : plan.endpoints[ordinal]? with
  | none =>
    constructor
    · simp
    · rintro ⟨endpoint, hopen⟩
      have hsome := hopen.member
      rw [hendpoint] at hsome
      contradiction
  | some endpoint =>
    have huntried : (!(attempted.any fun set => set.contains ordinal)) = true ↔
        ∀ set, attempted = some set → ordinal ∉ set.ordinals := by
      cases attempted with
      | none => simp
      | some set => simp [AttemptSet.contains]
    have hhealthy : endpoint.selectable trackers = true ↔
        ∀ tracker, endpoint.health = some tracker → (trackers tracker).state ≠ .unhealthy := by
      unfold PlanEndpoint.selectable
      cases endpoint.health with
      | none => simp
      | some tracker => simp [EndpointHealth.selectable]
    rw [Bool.and_eq_true, huntried, hhealthy]
    constructor
    · rintro ⟨hset, hstate⟩
      exact ⟨endpoint, hendpoint, hset, hstate⟩
    · rintro ⟨other, hopen⟩
      have hsome := hopen.member
      rw [hendpoint] at hsome
      cases hsome
      exact ⟨hopen.untried, hopen.healthy⟩

/-- What a balancer returns is acceptable, and it returns nothing only when none of
its `count` ordinals is. -/
structure Finds (count : Nat) (acceptable : Nat → Bool) (found : Option Nat) : Prop where
  sound : ∀ ordinal, found = some ordinal → ordinal < count ∧ acceptable ordinal = true
  complete : found = none → ∀ ordinal, ordinal < count → acceptable ordinal = false

/-- A search of a list with all the ordinals. -/
theorem finds_find {count : Nat} {ordinals : List Nat}
    (h : ∀ ordinal, ordinal ∈ ordinals ↔ ordinal < count) (acceptable : Nat → Bool) :
    Finds count acceptable (ordinals.find? acceptable) := by
  constructor
  · intro ordinal hfound
    exact ⟨(h ordinal).mp (List.mem_of_find?_eq_some hfound), List.find?_some hfound⟩
  · intro hnone ordinal hlt
    have hnot := List.find?_eq_none.mp hnone ordinal ((h ordinal).mpr hlt)
    simpa using hnot

theorem finds_direct {count direct : Nat} (h : ∀ ordinal, ordinal ∈ [direct] ↔ ordinal < count)
    (acceptable : Nat → Bool) :
    Finds count acceptable (if acceptable direct then some direct else none) := by
  have hfinds := finds_find h acceptable
  rw [List.find?_singleton] at hfinds
  exact hfinds

section Serves

variable {platform : Platform} {resource : Upstream} {plan : Plan} {registry : Registry}
  {owned : ResourceRefs}

section Serving

variable (h : plan.Serves platform resource registry owned)

include h

theorem Plan.Serves.mem_indexes
    (ordinal : Nat) :
    ordinal ∈ (activeSlots 0 plan.weighted).map Slot.index ↔
      ordinal < plan.endpoints.length := by
  have hpositive : ∀ endpoint ∈ plan.endpoints, endpoint.weight ≠ 0 := by
    intro endpoint hendpoint
    have hserved := List.mem_map_of_mem (f := fun endpoint : PlanEndpoint =>
      (endpoint.identity, endpoint.weight)) hendpoint
    rw [h.endpoints] at hserved
    obtain ⟨origin, horigin, heq⟩ := List.mem_map.mp hserved
    have hweight := (List.mem_filter.mp horigin).2
    rw [← (Prod.mk.inj heq).2]
    simpa using hweight
  constructor
  · intro hmem
    obtain ⟨slot, hslot, rfl⟩ := List.mem_map.mp hmem
    obtain ⟨position, endpoint, hget, _, rfl⟩ := mem_activeSlots.mp hslot
    have hlt := (List.getElem?_eq_some_iff.mp hget).1
    rw [Plan.weighted, List.length_map] at hlt
    show 0 + position < _
    omega
  · intro hlt
    refine List.mem_map.mpr ⟨_, mem_activeSlots.mpr ⟨ordinal,
      ⟨plan.endpoints[ordinal].identity, plan.endpoints[ordinal].weight⟩, ?_, ?_, rfl⟩, ?_⟩
    · rw [Plan.weighted, List.getElem?_map, List.getElem?_eq_getElem hlt]
      rfl
    · exact hpositive _ (List.getElem_mem hlt)
    · exact Nat.zero_add ordinal

theorem Plan.Serves.finds_wrr
    (halgorithm : plan.algorithm = .weightedRoundRobin) {sequence : UInt64}
    (hsequence : sequence.toNat + maxWRRSchedule ≤ 2 ^ 64) (acceptable : Nat → Bool) :
    Finds plan.endpoints.length acceptable (plan.wrr.selectNext sequence acceptable).2 := by
  have hcompiled : compileWRR plan.weighted = .ok plan.wrr := by
    have hbalancer := h.balancer
    rw [compileBalancer, ← h.algorithm, halgorithm] at hbalancer
    dsimp only at hbalancer
    split at hbalancer
    · contradiction
    · rename_i selector hselector
      rw [hselector, (Prod.mk.inj (Except.ok.inj hbalancer)).1]
  have hindexes := h.mem_indexes
  rcases compileWRR_spec hcompiled with ⟨hempty, hdirect⟩ | ⟨hschedule, hlength, hmem⟩
  · rw [hdirect] at hindexes
    rw [WRRSelector.selectNext, if_pos hempty]
    exact finds_direct hindexes acceptable
  · rw [WRRSelector.selectNext_eq hschedule (by omega)]
    apply finds_find
    intro ordinal
    rw [List.mem_rotate, hmem, hindexes]

theorem Plan.Serves.finds_continuum
    (halgorithm : plan.algorithm = .consistentHash) (sum : UInt64) (acceptable : Nat → Bool) :
    Finds plan.endpoints.length acceptable
      (plan.continuum.selectNext sum plan.endpoints.length acceptable) := by
  have hcompiled : compileContinuum platform plan.weighted = .ok plan.continuum := by
    have hbalancer := h.balancer
    rw [compileBalancer, ← h.algorithm, halgorithm] at hbalancer
    dsimp only at hbalancer
    split at hbalancer
    · contradiction
    split at hbalancer
    · contradiction
    · rename_i compiled hring
      rw [hring, (Prod.mk.inj (Prod.mk.inj (Except.ok.inj hbalancer)).2).1]
  have hindexes := h.mem_indexes
  rcases compileContinuum_spec hcompiled with ⟨hempty, hdirect⟩ | ⟨points, hpoints, hholds, hmem⟩
  · rw [hdirect] at hindexes
    rw [Continuum.selectNext, if_pos hempty]
    exact finds_direct hindexes acceptable
  have hbound : ∀ point ∈ points, point.endpointIndex < plan.endpoints.length := by
    intro point hpoint
    rw [← hindexes, ← hmem]
    exact List.mem_map_of_mem hpoint
  rw [hholds.selectNext_eq hpoints hbound]
  apply finds_find
  intro ordinal
  rw [← hindexes, ← hmem, reading, List.mem_map, List.mem_map]
  simp only [Ring.mem_clockwise]

/-- A plan has an endpoint, and one of the two balancers. -/
theorem Plan.Serves.algorithm_cases :
    plan.endpoints ≠ [] ∧
      (plan.algorithm = .weightedRoundRobin ∨ plan.algorithm = .consistentHash) := by
  have hbalancer := h.balancer
  rw [compileBalancer, ← h.algorithm] at hbalancer
  constructor
  · intro hempty
    have hslots : activeSlots 0 plan.weighted = [] := by
      rw [Plan.weighted, hempty]
      rfl
    have hwrr : ∀ selector, compileWRR plan.weighted ≠ .ok selector := by
      intro selector hselector
      rw [compileWRR, hslots] at hselector
      contradiction
    have hring : ∀ ring, compileContinuum platform plan.weighted ≠ .ok ring := by
      intro ring hring
      rw [compileContinuum, hslots] at hring
      contradiction
    split at hbalancer
    · split at hbalancer
      · contradiction
      · rename_i hselector
        exact hwrr _ hselector
    · split at hbalancer
      · contradiction
      split at hbalancer
      · contradiction
      · rename_i hcompiled
        exact hring _ hcompiled
    · contradiction
  · cases halgorithm : plan.algorithm with
    | weightedRoundRobin => exact Or.inl rfl
    | consistentHash => exact Or.inr rfl
    | other text =>
      rw [halgorithm] at hbalancer
      contradiction

/-- Both balancers search the endpoints of the plan. -/
theorem Plan.Serves.selectNext_eq
    (trackers : Trackers) {sequence : UInt64}
    (hsequence : sequence.toNat + maxWRRSchedule ≤ 2 ^ 64) (request : Option HashInput)
    (attempted : Option AttemptSet) :
    ∃ found fallback, Finds plan.endpoints.length (plan.selectable trackers attempted) found ∧
      (plan.selectNext platform trackers sequence request attempted).2 =
        match found with
        | none => .error .noHealthyEndpoint
        | some ordinal => plan.selected fallback ordinal := by
  obtain ⟨hendpoints, halgorithm⟩ := h.algorithm_cases
  unfold Plan.selectNext
  rw [if_neg hendpoints]
  rcases halgorithm with hwrr | hhash
  · rw [hwrr]
    have hfinds := h.finds_wrr hwrr hsequence (plan.selectable trackers attempted)
    generalize plan.wrr.selectNext sequence (plan.selectable trackers attempted) = result at *
    obtain ⟨next, found⟩ := result
    refine ⟨found, false, hfinds, ?_⟩
    cases found <;> rfl
  · rw [hhash]
    have hfinds := h.finds_continuum hhash (sum64 platform plan.hashKey request).1
      (plan.selectable trackers attempted)
    refine ⟨_, (sum64 platform plan.hashKey request).2, hfinds, ?_⟩
    dsimp only
    generalize plan.continuum.selectNext (sum64 platform plan.hashKey request).1
      plan.endpoints.length (plan.selectable trackers attempted) = found
    cases found <;> rfl

/-- Something is selected exactly when an endpoint is untried and not unhealthy. -/
theorem Plan.Serves.selects_iff
    (trackers : Trackers) {sequence : UInt64}
    (hsequence : sequence.toNat + maxWRRSchedule ≤ 2 ^ 64) (request : Option HashInput)
    (attempted : Option AttemptSet) :
    (∃ selection, (plan.selectNext platform trackers sequence request attempted).2 =
        .ok selection) ↔ ∃ ordinal endpoint, plan.Open trackers attempted ordinal endpoint := by
  obtain ⟨found, fallback, hfinds, hresult⟩ := h.selectNext_eq trackers hsequence request attempted
  rw [hresult]
  cases found with
  | none =>
    have hnone : ∀ ordinal endpoint, ¬ plan.Open trackers attempted ordinal endpoint := by
      intro ordinal endpoint hopen
      have hlt := (List.getElem?_eq_some_iff.mp hopen.member).1
      have hfalse := hfinds.complete rfl ordinal hlt
      rw [Plan.selectable_iff.mpr ⟨endpoint, hopen⟩] at hfalse
      contradiction
    simp [hnone]
  | some ordinal =>
    obtain ⟨endpoint, hopen⟩ := Plan.selectable_iff.mp (hfinds.sound ordinal rfl).2
    simp only [Plan.selected, hopen.member]
    exact ⟨fun _ => ⟨ordinal, endpoint, hopen⟩, fun _ => ⟨_, rfl⟩⟩

end Serving

end Serves

/-- For every plan that `Prepare` makes, every request, attempt set and assignment of
health states, and every value of the sequence counter at least `MaxWRRSchedule`
below its end: the plan's endpoints are the positive-weight endpoints of its
upstream; `SelectNext` succeeds exactly when one of them is untried and not
unhealthy; it then returns such an endpoint, with the runtime and the tracker that
are registered for it; and otherwise it returns `ErrNoHealthyEndpoint`. -/
theorem selectNext_complete {platform : Platform} {registry next : Registry}
    {materials : MaterialIndex} {normalized : List Upstream} {plans : List (Bytes × Plan)}
    {owned : ResourceRefs} {stats : PrepareStats}
    (hprepared : registry.prepareLocked platform materials normalized =
      some (next, .candidate plans owned stats))
    {id : Bytes} {plan : Plan} (hplan : (id, plan) ∈ plans) (trackers : Trackers)
    (sequence : UInt64) (hsequence : sequence.toNat + maxWRRSchedule ≤ 2 ^ 64)
    (request : Option HashInput) (attempted : Option AttemptSet) :
    ∃ resource ∈ normalized, id = resource.id ∧
      plan.endpoints.map (fun endpoint => (endpoint.identity, endpoint.weight)) =
        servedEndpoints resource ∧
      let result := (plan.selectNext platform trackers sequence request attempted).2
      ((∃ selection, result = .ok selection) ↔
        ∃ ordinal endpoint, plan.Open trackers attempted ordinal endpoint) ∧
      (∀ selection, result = .ok selection →
        ∃ endpoint, plan.Open trackers attempted selection.ordinal endpoint ∧
          selection.endpoint = endpoint.runtime ∧ selection.health = endpoint.health ∧
          Pinned next owned .endpoint endpoint.identity selection.endpoint ∧
          TrackedBy platform resource plan.transportKey next owned endpoint) ∧
      ∀ cause, result = .error cause → cause = .noHealthyEndpoint := by
  have hplans : preparePlans platform materials 0 normalized ⟨registry, .empty, .zero⟩ =
      (⟨next, owned, (preparePlans platform materials 0 normalized
        ⟨registry, .empty, .zero⟩).1.stats⟩, .ok plans) := by
    unfold Registry.prepareLocked at hprepared
    dsimp only at hprepared
    split at hprepared
    · split at hprepared <;> simp at hprepared
    · rename_i p found hfound
      obtain ⟨rfl, rfl, rfl, _⟩ := hprepared
      rw [hfound]
  obtain ⟨resource, hresource, hid, hserves⟩ := preparePlans_serves hplans (id, plan) hplan
  have hpinned := preparePlans_pinned hplans (id, plan) hplan
  refine ⟨resource, hresource, hid, hserves.endpoints,
    hserves.selects_iff trackers hsequence request attempted, ?_⟩
  obtain ⟨found, fallback, hfinds, hresult⟩ :=
    hserves.selectNext_eq trackers hsequence request attempted
  rw [hresult]
  cases found with
  | none =>
    refine ⟨fun selection hselection => ?_, fun cause hcause => ?_⟩
    · contradiction
    · exact (Except.error.inj hcause).symm
  | some ordinal =>
    obtain ⟨endpoint, hopen⟩ := Plan.selectable_iff.mp (hfinds.sound ordinal rfl).2
    have hmem := List.mem_of_getElem? hopen.member
    simp only [Plan.selected, hopen.member]
    refine ⟨fun selection hselection => ?_, fun cause hcause => ?_⟩
    · cases hselection
      exact ⟨endpoint, hopen, rfl, rfl, (hpinned.endpoints endpoint hmem).runtime,
        hserves.health endpoint hmem⟩
    · contradiction

def tripleUpstream : Upstream :=
  { sampleUpstream with
    endpoints := [⟨ascii "http://a:80", 3⟩, ⟨ascii "http://b:80", 1⟩, ⟨ascii "http://c:80", 2⟩] }

/-- Its second endpoint is down. -/
def secondDown : Trackers := fun tracker =>
  { newEndpointHealth tracker.policy with
    state := if (ascii "http://b:80").isSuffixOf tracker.identity then .unhealthy else .healthy }

def firstTried : AttemptSet :=
  ⟨[0], by decide, by decide⟩

/-- With the first endpoint tried and the second down, the scan of the schedule finds the
third. -/
theorem selectNext_complete_triple :
    ∃ next plans owned stats id plan selection,
      (Registry.initial 4).prepareLocked samplePlatform ⟨[], []⟩ [tripleUpstream] =
        some (next, .candidate plans owned stats) ∧
      (id, plan) ∈ plans ∧ plan.wrr.schedule.length = 6 ∧
      (plan.selectNext samplePlatform secondDown 7 none (some firstTried)).2 = .ok selection ∧
      selection.ordinal = 2 := by
  have hshape : ((Registry.initial 4).prepareLocked samplePlatform ⟨[], []⟩
      [tripleUpstream]).map (fun result =>
        match result.2 with
        | .candidate plans _ _ => plans.map fun entry => (entry.2.wrr.schedule.length,
            (List.range entry.2.endpoints.length).filter
              (entry.2.selectable secondDown (some firstTried)))
        | .failed _ _ _ => []) = some [(6, [2])] := by
    decide +kernel
  obtain ⟨⟨next, prepared⟩, hprepared, hplans⟩ := Option.map_eq_some_iff.mp hshape
  cases prepared with
  | failed cause stats cleanup => simp at hplans
  | candidate plans owned stats =>
    obtain ⟨⟨id, plan⟩, rfl, hplan⟩ := List.map_eq_singleton_iff.mp hplans
    obtain ⟨hschedule, honly⟩ := Prod.mk.inj hplan
    obtain ⟨_, _, _, _, hiff, hsound, _⟩ := selectNext_complete hprepared List.mem_cons_self
      secondDown 7 (by decide) none (some firstTried)
    have hthird := List.mem_filter.mp (honly ▸ List.mem_singleton_self 2)
    obtain ⟨endpoint, hopen⟩ := Plan.selectable_iff.mp hthird.2
    obtain ⟨selection, hselection⟩ := hiff.mpr ⟨2, endpoint, hopen⟩
    obtain ⟨other, hother, _⟩ := hsound selection hselection
    have hfound := List.mem_filter.mpr ⟨List.mem_range.mpr
      (List.getElem?_eq_some_iff.mp hother.member).1, Plan.selectable_iff.mpr ⟨other, hother⟩⟩
    rw [honly] at hfound
    exact ⟨next, _, owned, stats, id, plan, selection, hprepared, List.mem_cons_self, hschedule,
      hselection, List.mem_singleton.mp hfound⟩

end GGateway.Upstream
