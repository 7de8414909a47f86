import GGateway.Proxy.Transaction
import GGateway.Upstream.HealthJournal

/-!
# Failures that the client causes

A round trip also fails when the client goes away or sends more than the body limit.
`classifyAttempt` asks neither of the two, so such an attempt is observed as a
failure of its endpoint.  This module says when a history of such requests leaves
the trackers as they were.
-/

namespace GGateway.Proxy

open Text Model Upstream Library.Transition

/-! ## The requests -/

/-- The error is that of a canceled request context or of the body limit. -/
def TransportError.FromClient (err : TransportError) : Prop :=
  err.canceled = true ∨ err.bodyLimit = true

/-- The classifier takes errors as `classifyAttempt` does. -/
def ClassifiesErrors (classify : AttemptClassifier) : Prop :=
  ∀ policy result, result.err ≠ none →
    (classify policy result).decision = classifyAttempt policy result

/-- The classifier of the WebSocket path differs on responses only. -/
theorem classifiesErrors_webSocket (tables : UnicodeTables) (sha1 : Bytes → Bytes)
    (handshake : WebSocket.RequestHandshake) :
    ClassifiesErrors (classifyWebSocketAttempt tables sha1 handshake) := by
  intro policy result herr
  unfold classifyWebSocketAttempt
  split
  · contradiction
  · rfl

/-- A round trip that ended with an error of the client. -/
structure ClientFailure where
  call : Call
  trip : Nat × Selection
  err : TransportError
  classify : ClassifiesErrors call.classify
  sent : trip ∈ sent call.executeAttempts.1
  failed : (call.world trip.1).result.err = some err
  fromClient : err.FromClient

def ClientFailure.entry (failure : ClientFailure) : Selection × Observation :=
  (failure.trip.2, (failure.call.decision failure.trip.1).observation)

theorem ClientFailure.entry_mem (failure : ClientFailure) :
    failure.entry ∈ observed failure.call.executeAttempts.1 := by
  rw [failure.call.observed_executeAttempts]
  exact List.mem_map_of_mem failure.sent

variable (trackers : Trackers)

/-- `Selection.Observe`. -/
def observeAt (entry : Selection × Observation) : Trackers :=
  match entry.1.health with
  | none => trackers
  | some tracker => Function.update trackers tracker ((trackers tracker).observe entry.2)

/-- The trackers after a history of observations. -/
def observeAll (journal : List (Selection × Observation)) : Trackers :=
  journal.foldl observeAt trackers

/-! ## What they observe -/

/-- The failure that an error is taken for. -/
def TransportError.category (err : TransportError) : Category :=
  if err.timeout then .timeout else .transport

theorem classifyAttempt_observation (policy : RetryPolicy) {result : RoundTripResult}
    {err : TransportError} (h : result.err = some err) :
    (classifyAttempt policy result).observation = ⟨.passive, err.category.kind, 0⟩ := by
  unfold classifyAttempt TransportError.category
  rw [h]
  dsimp only
  split_ifs <;> rfl

/-- The client's error is observed as a failure of the endpoint. -/
theorem ClientFailure.observation (failure : ClientFailure) :
    failure.entry.2 = ⟨.passive, failure.err.category.kind, 0⟩ := by
  have herr : (failure.call.world failure.trip.1).result.err ≠ none := by simp [failure.failed]
  rw [← classifyAttempt_observation failure.call.policy failure.failed, ← failure.classify _ _ herr]
  rfl

/-! ## What a failure does to a tracker -/

/-- A failed request of the category changes nothing: the tracker does not follow
requests, or is retired, or is unhealthy with nothing left to count. -/
def Settled (health : EndpointHealth) (category : Category) : Prop :=
  health.policy.passive = none ∨ health.retired = true ∨
    (health.state = .unhealthy ∧ health.successes = 0 ∧ health.counter category = 255)

/-- Failures raise the counters and end the run of successes, until the endpoint is
unhealthy; from there the same begins again. -/
def rank (health : EndpointHealth) : Nat :=
  (if health.state = .unhealthy then 2000 else 0) + (health.counter .http).toNat +
    (health.counter .transport).toNat + (health.counter .timeout).toNat +
    (255 - health.successes.toNat)

theorem rank_le (health : EndpointHealth) :
    rank health ≤ (if health.state = .unhealthy then 2000 else 0) + 1020 := by
  have hhttp := (health.counter .http).toNat_lt
  have htransport := (health.counter .transport).toNat_lt
  have htimeouts := (health.counter .timeout).toNat_lt
  unfold rank
  omega

theorem event_failure {health : EndpointHealth} {category : Category}
    (hpassive : health.policy.passive ≠ none) (hlive : health.retired ≠ true) :
    health.event ⟨.passive, category.kind, 0⟩ = some (.failure category .passive) := by
  unfold EndpointHealth.event
  rw [if_neg (by simp [hpassive, hlive])]
  cases category <;> rfl

theorem saturatingIncrement_eq_self_iff (value : UInt8) :
    saturatingIncrement value = value ↔ value = 255 := by
  have hlt := value.toNat_lt
  have htop : (255 : UInt8).toNat = 255 := rfl
  rw [← UInt8.toNat_inj, ← UInt8.toNat_inj, toNat_saturatingIncrement, htop]
  omega

theorem successes_count_failure (health : EndpointHealth) (category : Category) :
    (health.count (.failure category .passive)).successes = 0 := by
  cases category <;> rfl

theorem state_count_failure (health : EndpointHealth) (category : Category) :
    (health.count (.failure category .passive)).state = health.state := by
  cases category <;> rfl

/-- Counting a failure changes nothing only when the run of successes is empty and the
counter is full. -/
theorem count_failure_eq_self_iff (health : EndpointHealth) (category : Category) :
    health.count (.failure category .passive) = health ↔
      health.successes = 0 ∧ health.counter category = 255 := by
  constructor
  · intro hsame
    have hsuccesses := congrArg EndpointHealth.successes hsame
    have hcounter : (health.count (.failure category .passive)).counter category =
        health.counter category := by rw [hsame]
    rw [counter_count] at hcounter
    dsimp only at hcounter
    rw [if_pos rfl, saturatingIncrement_eq_self_iff] at hcounter
    rw [successes_count_failure] at hsuccesses
    exact ⟨hsuccesses.symm, hcounter⟩
  · rintro ⟨hsuccesses, hfull⟩
    have hcounter := (saturatingIncrement_eq_self_iff _).mpr hfull
    obtain ⟨policy, state, successes, http, transport, timeouts, retired⟩ := health
    subst hsuccesses
    cases category <;> simp only [EndpointHealth.counter] at hcounter <;>
      simp only [EndpointHealth.count, hcounter]

theorem rank_lt_count_failure {health : EndpointHealth} {category : Category}
    (h : health.count (.failure category .passive) ≠ health) :
    rank health < rank (health.count (.failure category .passive)) := by
  have hroom : health.successes.toNat ≠ 0 ∨ (health.counter category).toNat ≠ 255 := by
    by_contra hnone
    rw [not_or, not_not, not_not] at hnone
    apply h
    rw [count_failure_eq_self_iff, ← UInt8.toNat_inj, ← UInt8.toNat_inj]
    exact hnone
  have hsuccesses := health.successes.toNat_lt
  have hcounter := (health.counter category).toNat_lt
  have hraised := toNat_saturatingIncrement (health.counter category)
  have hzero : (0 : UInt8).toNat = 0 := rfl
  unfold rank
  rw [state_count_failure, successes_count_failure, hzero]
  -- One counter is raised, the other two stand.
  cases category <;>
    simp only [counter_count, reduceCtorEq, if_true, if_false] <;> omega

/-- A request that fails for its client changes a tracker exactly if it is not
settled, and then raises its rank. -/
theorem observe_failure (health : EndpointHealth) (category : Category) :
    (health.observe ⟨.passive, category.kind, 0⟩ = health ↔ Settled health category) ∧
      (health.observe ⟨.passive, category.kind, 0⟩ ≠ health →
        rank health < rank (health.observe ⟨.passive, category.kind, 0⟩)) := by
  by_cases hignored : health.retired = true ∨ health.policy.passive = none
  · have hnone : health.event ⟨.passive, category.kind, 0⟩ = none := by
      unfold EndpointHealth.event
      rw [if_pos (hignored.imp_right fun hpassive => ⟨rfl, hpassive⟩)]
    rw [observe_of_event_eq_none hnone]
    refine ⟨iff_of_true rfl ?_, fun hne => absurd rfl hne⟩
    rcases hignored with hretired | hpassive
    · exact Or.inr (Or.inl hretired)
    · exact Or.inl hpassive
  · rw [not_or] at hignored
    have hsettled : Settled health category ↔
        health.state = .unhealthy ∧ health.successes = 0 ∧ health.counter category = 255 := by
      unfold Settled
      simp [hignored.1, hignored.2]
    rw [observe_of_event_eq_some (event_failure hignored.2 hignored.1), hsettled]
    have hverdict : health.verdict (.failure category .passive) =
        if failureThreshold health.policy .passive category.kind ≤
          saturatingIncrement (health.counter category) then .unhealthy else health.state := rfl
    split_ifs with hsame
    · refine ⟨?_, rank_lt_count_failure⟩
      rw [count_failure_eq_self_iff]
      constructor
      · rintro ⟨hsuccesses, hfull⟩
        -- A full counter has reached every threshold.
        have hreached : failureThreshold health.policy .passive category.kind ≤
            saturatingIncrement (health.counter category) := by
          rw [(saturatingIncrement_eq_self_iff _).mpr hfull, hfull, UInt8.le_iff_toNat_le]
          have hlt := (failureThreshold health.policy .passive category.kind).toNat_lt
          have htop : (255 : UInt8).toNat = 255 := rfl
          omega
        rw [hverdict, if_pos hreached] at hsame
        exact ⟨hsame.symm, hsuccesses, hfull⟩
      · exact And.right
    · have hturned : health.verdict (.failure category .passive) = .unhealthy ∧
          health.state ≠ .unhealthy := by
        rw [hverdict] at hsame ⊢
        split_ifs at hsame ⊢ with hreached
        · exact ⟨rfl, fun hstate => hsame hstate.symm⟩
        · exact absurd rfl hsame
      rw [hturned.1]
      refine ⟨iff_of_false ?_ fun h => hturned.2 h.1, fun _ => ?_⟩
      · intro heq
        exact hturned.2 (congrArg EndpointHealth.state heq).symm
      · have hbelow := rank_le health
        rw [if_neg hturned.2] at hbelow
        have hafter : rank { health.resetCounters with state := .unhealthy } = 2255 := rfl
        omega

/-! ## Histories -/

/-- The ranks of all trackers. -/
def ranks : HealthRuntime → Nat :=
  fun tracker => rank (trackers tracker)

/-- Observing through a selection, at every tracker. -/
theorem observeAt_apply (entry : Selection × Observation)
    (tracker : HealthRuntime) :
    observeAt trackers entry tracker =
      if entry.1.health = some tracker then (trackers tracker).observe entry.2
      else trackers tracker := by
  unfold observeAt
  cases hhealth : entry.1.health with
  | none => rfl
  | some hit =>
    by_cases htracker : tracker = hit
    · subst htracker
      simp
    dsimp only
    rw [Function.update_of_ne htracker, if_neg]
    intro heq
    exact htracker (Option.some.inj heq).symm

/-- Observing such a failure through a selection does nothing exactly if the endpoint
is settled. -/
theorem observeAt_eq_self_iff {entry : Selection × Observation}
    {category : Category} (h : entry.2 = ⟨.passive, category.kind, 0⟩) :
    observeAt trackers entry = trackers ↔
      ∀ tracker, entry.1.health = some tracker → Settled (trackers tracker) category := by
  rw [funext_iff]
  refine forall_congr' fun tracker => ?_
  rw [observeAt_apply, h, ← (observe_failure (trackers tracker) category).1]
  split_ifs with hhit
  · exact ⟨fun hsame _ => hsame, fun hsame => hsame hhit⟩
  · exact iff_of_true rfl fun hother => absurd hother hhit

theorem rank_observeAt {entry : Selection × Observation}
    {category : Category} (h : entry.2 = ⟨.passive, category.kind, 0⟩) (tracker : HealthRuntime) :
    rank (trackers tracker) ≤ rank (observeAt trackers entry tracker) ∧
      (rank (observeAt trackers entry tracker) = rank (trackers tracker) →
        observeAt trackers entry tracker = trackers tracker) := by
  rw [observeAt_apply, h]
  split_ifs with hhit
  · by_cases hsame : (trackers tracker).observe ⟨.passive, category.kind, 0⟩ = trackers tracker
    · rw [hsame]
      exact ⟨le_refl _, fun _ => rfl⟩
    · have hraised := (observe_failure (trackers tracker) category).2 hsame
      exact ⟨hraised.le, fun heq => absurd heq hraised.ne'⟩
  · exact ⟨le_refl _, fun _ => rfl⟩

/-- A history of requests that failed for their clients leaves every tracker unchanged
exactly if each endpoint it reached was settled from the start, for the category of the
error; what is observed is what the loop observes of them. -/
theorem client_failures_unchanged_iff (failures : List ClientFailure) :
    (∀ failure ∈ failures, failure.entry ∈ observed failure.call.executeAttempts.1) ∧
    (observeAll trackers (failures.map ClientFailure.entry) = trackers ↔
      ∀ failure ∈ failures, ∀ tracker, failure.trip.2.health = some tracker →
        Settled (trackers tracker) failure.err.category) := by
  refine ⟨fun failure _ => failure.entry_mem, ?_⟩
  have hraise : ∀ state : Trackers, ∀ failure ∈ failures,
      ranks state ≤ ranks (observeAt state failure.entry) :=
    fun state failure _ tracker => (rank_observeAt state failure.observation tracker).1
  have hidle : ∀ state : Trackers, ∀ failure ∈ failures,
      ranks (observeAt state failure.entry) = ranks state →
        observeAt state failure.entry = state := by
    intro state failure _ hranks
    funext tracker
    exact (rank_observeAt state failure.observation tracker).2 (congrFun hranks tracker)
  rw [observeAll, List.foldl_map, foldl_eq_self_iff hraise hidle trackers]
  exact forall₂_congr fun failure _ => observeAt_eq_self_iff trackers failure.observation

/-- A request that its client cancels during the round trip. -/
def canceledCall (plan : Plan) : Call where
  platform := samplePlatform
  plan := plan
  classify := plainClassifier
  policy := ⟨1, [], ⟨false, false, false, []⟩, ⟨0, 0, 0⟩, 0⟩
  request := ⟨ascii "GET", false, false, ⟨⟨[], List.nodup_nil⟩, ascii "10.0.0.1:5000"⟩⟩
  live := true
  world := fun _ =>
    ⟨fun tracker => newEndpointHealth tracker.policy, 0, .ok (),
      ⟨none, some ⟨false, false, false, false, true, false⟩⟩, false, soloAcquisition⟩

/-- An upstream whose endpoint is probed and follows its requests. -/
def watchedUpstream : Upstream :=
  { sampleUpstream with health := probedPolicy }

/-- Three requests that their clients have canceled take the only endpoint out. -/
theorem client_failures_unchanged_fails :
    normalizeHealth [] [] watchedUpstream.health = .ok watchedUpstream.health ∧
    (preparedPlan samplePlatform watchedUpstream).map (fun plan =>
      let trackers : Trackers := fun tracker => newEndpointHealth tracker.policy
      let journal := observed (canceledCall plan).executeAttempts.1
      let canceled := observeAll trackers (journal ++ journal ++ journal)
      (journal.length, plan.selectable trackers none 0, plan.selectable canceled none 0)) =
        some (1, true, false) := by
  decide +kernel

/-- Every attempt of such a request is a failure of its client. -/
def canceledFailure (plan : Plan) (trip : Nat × Selection)
    (h : trip ∈ sent (canceledCall plan).executeAttempts.1) : ClientFailure :=
  ⟨canceledCall plan, trip, _, fun _ _ _ => rfl, h, rfl, Or.inl rfl⟩

end GGateway.Proxy
