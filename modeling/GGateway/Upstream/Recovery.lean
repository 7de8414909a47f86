import GGateway.Upstream.HealthJournal

/-!
# How an unhealthy endpoint recovers

An unhealthy endpoint is to become healthy with the `HealthySuccesses`-th active
success after it became unhealthy or after the latest counted failure.  A passive
success clears the streak of an unhealthy endpoint, so the probes before it no
longer count.  The last theorem says for which histories, for which policies and
for which states this makes a difference.
-/

namespace GGateway.Upstream

open Text Model

/-- The active successes since the latest failure, whatever stands between them. -/
def activeSuccesses (events : List Event) : Nat :=
  (events.takeWhile Event.isSuccess).count (.success .active)

/-- A passive success has been counted after an active one, with no failure since. -/
def Interrupted (events : List Event) : Prop :=
  ∃ newer older, events.takeWhile Event.isSuccess = newer ++ .success .passive :: older ∧
    .success .active ∈ older

/-- Along the history the endpoint is never still unhealthy after
`HealthySuccesses` active successes. -/
def RecoversInTime (policy : HealthPolicy) (inputs : List HealthInput) : Prop :=
  ∀ before, before <+: inputs → (Journal.run policy before).health.state = .unhealthy →
    ∀ active, policy.active = some active →
      activeSuccesses (Journal.run policy before).recent < active.healthySuccesses.toNat

/-- The tracker is healthy at some time while it makes the observations. -/
def Recovers (health : EndpointHealth) (observations : List Observation) : Prop :=
  ∃ before, before <+: observations ∧
    (before.foldl EndpointHealth.observe health).state = .healthy

/-- Making the observation first costs no recovery. -/
def NeverDelays (health : EndpointHealth) (observation : Observation) : Prop :=
  ∀ rest, Recovers health rest → Recovers (health.observe observation) rest

def probeSuccess : Observation := ⟨.active, .success, 0⟩

def requestSuccess : Observation := ⟨.passive, .success, 0⟩

def probeFailure : Observation := ⟨.active, .transportFailure, 0⟩

/-! ## Active successes of a stretch -/

section Lists

variable (category : Category) (source : ObservationSource) (events : List Event)

@[simp] theorem activeSuccesses_nil : activeSuccesses [] = 0 := rfl

@[simp] theorem activeSuccesses_active :
    activeSuccesses (.success .active :: events) = activeSuccesses events + 1 := by
  rw [activeSuccesses, List.takeWhile_cons_of_pos rfl, List.count_cons_self]
  rfl

@[simp] theorem activeSuccesses_failure :
    activeSuccesses (.failure category source :: events) = 0 := rfl

@[simp] theorem activeSuccesses_passive :
    activeSuccesses (.success .passive :: events) = activeSuccesses events := by
  rw [activeSuccesses, List.takeWhile_cons_of_pos rfl, List.count_cons_of_ne (by decide)]
  rfl

/-- Only a passive success makes the run shorter than the stretch. -/
theorem interrupted_of_activeRun_lt {events : List Event}
    (h : activeRun events < activeSuccesses events) : Interrupted events := by
  induction events with
  | nil => simp at h
  | cons event events ih =>
    match event with
    | .failure category source => simp at h
    | .success .passive =>
      rw [activeRun_passive, activeSuccesses_passive] at h
      exact ⟨[], events.takeWhile Event.isSuccess, rfl, List.count_pos_iff.mp h⟩
    | .success .active =>
      rw [activeRun_active, activeSuccesses_active] at h
      obtain ⟨newer, older, hsplit, hmem⟩ := ih (by omega)
      refine ⟨.success .active :: newer, older, ?_, hmem⟩
      rw [List.takeWhile_cons_of_pos rfl, hsplit]
      rfl

end Lists

/-! ## Single observations of an unhealthy endpoint -/

variable {health left right : EndpointHealth} {observation : Observation}

theorem event_probe (hlive : health.retired = false) (kind : OutcomeKind) :
    health.event ⟨.active, kind, 0⟩ = Event.ofOutcome .active kind := by
  simp [EndpointHealth.event, hlive, classifyHTTP]

theorem event_request (hlive : health.retired = false) (hpassive : health.policy.passive ≠ none) :
    health.event requestSuccess = some (.success .passive) := by
  simp [EndpointHealth.event, hlive, hpassive, classifyHTTP, requestSuccess, Event.ofOutcome]

theorem retired_eq_false {event : Event} (h : health.event observation = some event) :
    health.retired = false := by
  unfold EndpointHealth.event at h
  split_ifs at h with hignored
  rw [not_or] at hignored
  simpa using hignored.1

/-- Requests count under a passive policy only. -/
theorem passive_ne_none (h : health.event observation = some (.success .passive)) :
    health.policy.passive ≠ none := by
  intro hnone
  unfold EndpointHealth.event at h
  split_ifs at h with hignored
  rw [not_or] at hignored
  have hsource : observation.source = .passive := by
    cases hkind : (classifyHTTP health.policy observation).kind <;>
      simp [hkind, Event.ofOutcome] at h
    exact h
  exact hignored.2 ⟨hsource, hnone⟩

theorem retired_observe (health : EndpointHealth) (observation : Observation) :
    (health.observe observation).retired = health.retired := by
  cases hevent : health.event observation with
  | none => rw [observe_of_event_eq_none hevent]
  | some event =>
    rw [observe_of_event_eq_some hevent]
    split_ifs
    · exact (frame_count health event).2.2
    · rfl

theorem verdict_passive (hunhealthy : health.state = .unhealthy) :
    health.verdict (.success .passive) = health.state := by
  simp [EndpointHealth.verdict, hunhealthy]

/-- An unhealthy tracker in service, with the length of its run of probes and the
number of active successes of the stretch. -/
structure Recovering (policy : HealthPolicy) (journal : Journal) (run total : Nat) : Prop where
  sound : journal.Sound policy
  unhealthy : journal.health.state = .unhealthy
  live : journal.health.retired = false
  run_eq : activeRun journal.recent = run
  total_eq : activeSuccesses journal.recent = total

section Steps

variable {policy : HealthPolicy} {journal : Journal} {run total : Nat}
  {active : ActiveHealthPolicy}
  (hpos : ∀ active, policy.active = some active → 1 ≤ active.healthySuccesses.toNat)

theorem Recovering.verdict_probe (h : Recovering policy journal run total)
    (hactive : policy.active = some active) :
    journal.health.verdict (.success .active) =
      if active.healthySuccesses.toNat ≤ run + 1 then .healthy else .unhealthy := by
  have hstreak : streak .unhealthy (.success .active :: journal.recent) = run + 1 := by
    simp [streak, h.run_eq]
  rw [h.sound.verdict_success, hactive]
  simp only [implies_true, true_and, h.unhealthy, hstreak]

include hpos in
theorem Recovering.probe (h : Recovering policy journal run total)
    (hactive : policy.active = some active) (hlt : run + 1 < active.healthySuccesses.toNat) :
    Recovering policy (journal.advance (.observe probeSuccess)) (run + 1) (total + 1) := by
  have hevent : journal.health.event probeSuccess = some (.success .active) :=
    event_probe h.live .success
  have hverdict : journal.health.verdict (.success .active) = .unhealthy := by
    rw [h.verdict_probe hactive, if_neg (by omega)]
  have hstate : (journal.health.observe probeSuccess).state = .unhealthy :=
    (state_observe hevent).trans hverdict
  have hrecent : (journal.advance (.observe probeSuccess)).recent =
      .success .active :: journal.recent := by
    show (if (journal.health.observe probeSuccess).state = journal.health.state then _ else _) = _
    rw [hstate, h.unhealthy, if_pos rfl, Journal.events_of_event_eq_some hevent]
  refine ⟨h.sound.observe hpos probeSuccess, hstate, ?_, ?_, ?_⟩
  · exact (retired_observe journal.health probeSuccess).trans h.live
  · rw [hrecent, activeRun_active, h.run_eq]
  · rw [hrecent, activeSuccesses_active, h.total_eq]

include hpos in
theorem Recovering.probes (h : Recovering policy journal run total)
    (hactive : policy.active = some active) (count : Nat)
    (hlt : run + count < active.healthySuccesses.toNat) :
    Recovering policy
      ((List.replicate count (.observe probeSuccess)).foldl Journal.advance journal)
      (run + count) (total + count) := by
  induction count with
  | zero => exact h
  | succ count ih =>
    rw [List.replicate_succ', List.foldl_append]
    exact (ih (by omega)).probe hpos hactive (by omega)

include hpos in
/-- A passive success clears the run and leaves the stretch. -/
theorem Recovering.request (h : Recovering policy journal run total)
    (hevent : journal.health.event observation = some (.success .passive)) :
    Recovering policy (journal.advance (.observe observation)) 0 total := by
  have hstate : (journal.health.observe observation).state = .unhealthy := by
    rw [state_observe hevent, verdict_passive h.unhealthy, h.unhealthy]
  have hrecent : (journal.advance (.observe observation)).recent =
      .success .passive :: journal.recent := by
    show (if (journal.health.observe observation).state = journal.health.state then _ else _) = _
    rw [hstate, h.unhealthy, if_pos rfl, Journal.events_of_event_eq_some hevent]
  refine ⟨h.sound.observe hpos observation, hstate, ?_, ?_, ?_⟩
  · exact (retired_observe journal.health observation).trans h.live
  · rw [hrecent, activeRun_passive]
  · rw [hrecent, activeSuccesses_passive, h.total_eq]

end Steps

/-! ## Becoming unhealthy -/

theorem failureThreshold_probe_pos (policy : HealthPolicy) :
    1 ≤ (failureThreshold policy .active .transportFailure).toNat := by
  have henabled : ∀ value : UInt8, 1 ≤ (enabledThreshold value).toNat := by
    intro value
    unfold enabledThreshold
    split_ifs with hzero
    · decide
    · have hne : value.toNat ≠ 0 := fun heq => hzero (UInt8.toNat_inj.mp heq)
      omega
  unfold failureThreshold
  cases policy.active with
  | none => exact (by decide : 1 ≤ (255 : UInt8).toNat)
  | some active => exact henabled active.transportFailures

/-- Failing probes take any endpoint out: after each one it has been taken out, or
all of them are counted and they are still too few. -/
theorem run_probeFailures (policy : HealthPolicy)
    (hpos : ∀ active, policy.active = some active → 1 ≤ active.healthySuccesses.toNat)
    (count : Nat) :
    (∃ fewer, Recovering policy
      (Journal.run policy (List.replicate fewer (.observe probeFailure))) 0 0) ∨
    ((Journal.run policy (List.replicate count (.observe probeFailure))).health.state = .unknown ∧
      (Journal.run policy (List.replicate count (.observe probeFailure))).health.retired = false ∧
      failures .transport
        (Journal.run policy (List.replicate count (.observe probeFailure))).recent = count ∧
      count < (failureThreshold policy .active .transportFailure).toNat) := by
  induction count with
  | zero => exact Or.inr ⟨rfl, rfl, rfl, failureThreshold_probe_pos policy⟩
  | succ count ih =>
    rcases ih with hout | ⟨hstate, hlive, hfailures, _⟩
    · exact Or.inl hout
    have hsound := Journal.sound_run hpos (List.replicate count (.observe probeFailure))
    have hstep : Journal.run policy (List.replicate (count + 1) (.observe probeFailure)) =
        (Journal.run policy (List.replicate count (.observe probeFailure))).advance
          (.observe probeFailure) := by
      rw [Journal.run, List.replicate_succ', List.foldl_append]
      rfl
    generalize hjournal :
      Journal.run policy (List.replicate count (.observe probeFailure)) = journal at *
    have hevent : journal.health.event probeFailure = some (.failure .transport .active) :=
      event_probe hlive .transportFailure
    have hverdict := hsound.verdict_failure .transport .active
    rw [failures_failure, if_pos rfl, hfailures, hstate] at hverdict
    have hretired := (retired_observe journal.health probeFailure).trans hlive
    have hnext := state_observe hevent
    by_cases hreached : (failureThreshold policy .active .transportFailure).toNat ≤ count + 1
    · rw [show Category.transport.kind = .transportFailure from rfl, if_pos hreached]
        at hverdict
      have hrecent : (journal.advance (.observe probeFailure)).recent = [] := by
        show (if (journal.health.observe probeFailure).state = journal.health.state
          then _ else _) = _
        rw [hnext, hverdict, hstate, if_neg (by decide)]
      refine Or.inl ⟨count + 1, ?_⟩
      rw [hstep]
      refine ⟨hsound.observe hpos probeFailure, hnext.trans hverdict, hretired, ?_, ?_⟩
      · rw [hrecent, activeRun_nil]
      · rw [hrecent, activeSuccesses_nil]
    · rw [show Category.transport.kind = .transportFailure from rfl, if_neg hreached]
        at hverdict
      have hrecent : (journal.advance (.observe probeFailure)).recent =
          .failure .transport .active :: journal.recent := by
        show (if (journal.health.observe probeFailure).state = journal.health.state
          then _ else _) = _
        rw [hnext, hverdict, hstate, if_pos rfl, Journal.events_of_event_eq_some hevent]
      right
      rw [hstep]
      refine ⟨hnext.trans hverdict, hretired, ?_, by omega⟩
      rw [hrecent, failures_failure, if_pos rfl, hfailures]

/-- Every policy can have its endpoint unhealthy. -/
theorem exists_unhealthy (policy : HealthPolicy)
    (hpos : ∀ active, policy.active = some active → 1 ≤ active.healthySuccesses.toNat) :
    ∃ count, Recovering policy
      (Journal.run policy (List.replicate count (.observe probeFailure))) 0 0 := by
  rcases run_probeFailures policy hpos 255 with hout | ⟨_, _, _, hbelow⟩
  · exact hout
  · have hbyte := (failureThreshold policy .active .transportFailure).toNat_lt
    omega

/-! ## Trackers that recover alike -/

/-- Two unhealthy trackers that differ at most in their failure counters. -/
structure Alike (left right : EndpointHealth) : Prop where
  policy : left.policy = right.policy
  retired : left.retired = right.retired
  left_unhealthy : left.state = .unhealthy
  right_unhealthy : right.state = .unhealthy
  successes : left.successes = right.successes

theorem Alike.event (h : Alike left right) (observation : Observation) :
    left.event observation = right.event observation := by
  unfold EndpointHealth.event
  rw [h.policy, h.retired]

/-- What an event makes of an unhealthy tracker depends on the streak only. -/
theorem Alike.verdict (h : Alike left right) (event : Event) :
    left.verdict event = right.verdict event := by
  cases event with
  | success source =>
    unfold EndpointHealth.verdict
    rw [h.policy, h.left_unhealthy, h.right_unhealthy, h.successes]
  | failure category source =>
    simp only [EndpointHealth.verdict, h.left_unhealthy, h.right_unhealthy, ite_self]

theorem verdict_of_unhealthy (h : health.state = .unhealthy) (event : Event) :
    health.verdict event = .unhealthy ∨ health.verdict event = .healthy := by
  cases event with
  | failure category source => simp only [EndpointHealth.verdict, h, ite_self, true_or]
  | success source =>
    simp only [EndpointHealth.verdict, h]
    split_ifs
    · exact Or.inl rfl
    cases health.policy.active with
    | none => exact Or.inl rfl
    | some active =>
      dsimp only
      split_ifs
      · exact Or.inr rfl
      · exact Or.inl rfl

/-- Together they stay alike until both are healthy. -/
theorem Alike.observe (h : Alike left right) (observation : Observation) :
    Alike (left.observe observation) (right.observe observation) ∨
      (right.observe observation).state = .healthy := by
  have hevents := h.event observation
  cases hleft : left.event observation with
  | none =>
    rw [observe_of_event_eq_none hleft, observe_of_event_eq_none (hevents ▸ hleft)]
    exact Or.inl h
  | some event =>
    rw [observe_of_event_eq_some hleft, observe_of_event_eq_some (hevents ▸ hleft)]
    rw [h.verdict event, h.left_unhealthy, h.right_unhealthy]
    rcases verdict_of_unhealthy h.right_unhealthy event with hsame | hhealthy
    · rw [if_pos hsame, if_pos hsame]
      obtain ⟨hpolicy, hstate, hretired⟩ := frame_count left event
      obtain ⟨hpolicy', hstate', hretired'⟩ := frame_count right event
      refine Or.inl ⟨?_, ?_, ?_, ?_, ?_⟩
      · rw [hpolicy, hpolicy', h.policy]
      · rw [hretired, hretired', h.retired]
      · rw [hstate, h.left_unhealthy]
      · rw [hstate', h.right_unhealthy]
      · rw [successes_count, successes_count, h.left_unhealthy, h.right_unhealthy, h.successes]
    · right
      rw [if_neg (by simp [hhealthy])]
      exact hhealthy

theorem recovers_cons {rest : List Observation} (hunhealthy : health.state = .unhealthy) :
    Recovers health (observation :: rest) ↔ Recovers (health.observe observation) rest := by
  constructor
  · rintro ⟨before, hbefore, hhealthy⟩
    cases before with
    | nil =>
      rw [List.foldl_nil, hunhealthy] at hhealthy
      contradiction
    | cons first before =>
      obtain ⟨rfl, hrest⟩ := List.cons_prefix_cons.mp hbefore
      exact ⟨before, hrest, hhealthy⟩
  · rintro ⟨before, hbefore, hhealthy⟩
    exact ⟨observation :: before, List.cons_prefix_cons.mpr ⟨rfl, hbefore⟩, hhealthy⟩

theorem Alike.recovers (h : Alike left right) {rest : List Observation}
    (hrecovers : Recovers left rest) : Recovers right rest := by
  induction rest generalizing left right with
  | nil =>
    obtain ⟨before, hbefore, hhealthy⟩ := hrecovers
    obtain rfl := List.prefix_nil.mp hbefore
    rw [List.foldl_nil, h.left_unhealthy] at hhealthy
    contradiction
  | cons observation rest ih =>
    rw [recovers_cons h.left_unhealthy] at hrecovers
    rw [recovers_cons h.right_unhealthy]
    rcases h.observe observation with halike | hhealthy
    · exact ih halike hrecovers
    · exact ⟨[], List.nil_prefix, hhealthy⟩

/-! ## When passive successes cost recovery -/

/-- An accepted policy that counts requests also probes. -/
theorem active_of_passive {upstreamID field : Bytes} {raw policy : HealthPolicy}
    (h : normalizeHealth upstreamID field raw = .ok policy) (hpassive : policy.passive ≠ none) :
    ∃ active, policy.active = some active := by
  unfold normalizeHealth at h
  split at h
  · rename_i hnone
    split at h
    · contradiction
    rename_i hno
    rw [← Except.ok.inj h] at hpassive
    exact absurd hno hpassive
  · rw [Library.Checks.bind_eq_ok] at h
    obtain ⟨active, _, h⟩ := h
    split at h
    · rw [← Except.ok.inj h]
      exact ⟨active, rfl⟩
    rw [Library.Checks.bind_eq_ok] at h
    obtain ⟨_, _, h⟩ := h
    rw [← Except.ok.inj h]
    exact ⟨active, rfl⟩

section Delay

variable {policy : HealthPolicy} {journal : Journal} {run total : Nat}
  {active : ActiveHealthPolicy} {observation : Observation}
  (hpos : ∀ active, policy.active = some active → 1 ≤ active.healthySuccesses.toNat)

/-- Without a streak there is nothing to lose. -/
theorem Recovering.alike_request (h : Recovering policy journal 0 total)
    (hevent : journal.health.event observation = some (.success .passive)) :
    Alike journal.health (journal.health.observe observation) := by
  have hzero : journal.health.successes = 0 := by
    have hcount := h.sound.successes
    rw [streak, if_pos h.unhealthy, h.run_eq] at hcount
    exact UInt8.toNat_inj.mp hcount
  have hunchanged := verdict_passive h.unhealthy
  rw [observe_of_event_eq_some hevent, if_pos hunchanged]
  obtain ⟨hpolicy, hstate, hretired⟩ := frame_count journal.health (.success .passive)
  refine ⟨hpolicy.symm, hretired.symm, h.unhealthy, hstate.trans h.unhealthy, ?_⟩
  rw [successes_count, hzero]
  simp [h.unhealthy]

theorem foldl_advance (journal : Journal) (observations : List Observation) :
    ((observations.map HealthInput.observe).foldl Journal.advance journal).health =
      observations.foldl EndpointHealth.observe journal.health := by
  induction observations generalizing journal with
  | nil => rfl
  | cons observation observations ih => exact ih (journal.advance (.observe observation))

include hpos in
/-- As long as the probes are too few, they do not bring recovery. -/
theorem Recovering.not_recovers (h : Recovering policy journal run total)
    (hactive : policy.active = some active) {count : Nat}
    (hfew : run + count < active.healthySuccesses.toNat) :
    ¬ Recovers journal.health (List.replicate count probeSuccess) := by
  rintro ⟨before, hbefore, hhealthy⟩
  obtain ⟨hlength, hreplicate⟩ := List.prefix_replicate_iff.mp hbefore
  rw [hreplicate, ← foldl_advance, List.map_replicate] at hhealthy
  have hstill := (h.probes hpos hactive before.length (by omega)).unhealthy
  rw [hstill] at hhealthy
  contradiction

include hpos in
/-- The last of them does. -/
theorem Recovering.recovers (h : Recovering policy journal run total)
    (hactive : policy.active = some active) {count : Nat}
    (henough : run + count + 1 = active.healthySuccesses.toNat) :
    Recovers journal.health (List.replicate (count + 1) probeSuccess) := by
  have hlast := h.probes hpos hactive count (by omega)
  refine ⟨_, List.prefix_refl _, ?_⟩
  rw [List.replicate_succ', List.foldl_append, ← foldl_advance, List.map_replicate]
  have hevent : EndpointHealth.event _ probeSuccess = _ := event_probe hlast.live .success
  show (EndpointHealth.observe _ probeSuccess).state = .healthy
  rw [state_observe hevent, hlast.verdict_probe hactive, if_pos (by omega)]

include hpos in
/-- A passive success costs no recovery exactly when no probe has succeeded yet. -/
theorem Recovering.neverDelays_iff (h : Recovering policy journal run total)
    (hactive : policy.active = some active)
    (hevent : journal.health.event observation = some (.success .passive)) :
    NeverDelays journal.health observation ↔ run = 0 := by
  constructor
  · intro hnever
    by_contra hrun
    have hshort := h.sound.below (by simp [h.unhealthy]) active hactive
    rw [streak, if_pos h.unhealthy, h.run_eq] at hshort
    obtain ⟨count, hcount⟩ : ∃ count, run + count + 1 = active.healthySuccesses.toNat :=
      ⟨active.healthySuccesses.toNat - run - 1, by omega⟩
    -- The probes that were still missing are too few after the request.
    have hlate : ¬ Recovers (journal.health.observe observation)
        (List.replicate (count + 1) probeSuccess) :=
      (h.request hpos hevent).not_recovers hpos hactive (by omega)
    exact hlate (hnever _ (h.recovers hpos hactive hcount))
  · rintro rfl rest hrecovers
    exact (h.alike_request hevent).recovers hrecovers

/-- The condition on a policy under which no history can delay recovery keeps the
run and the stretch of an unhealthy endpoint equal. -/
theorem activeSuccesses_run
    (hpos : ∀ active, policy.active = some active → 1 ≤ active.healthySuccesses.toNat)
    (hactive : policy.active = some active)
    (hcondition : policy.passive = none ∨ active.healthySuccesses.toNat = 1)
    (inputs : List HealthInput)
    (hunhealthy : (Journal.run policy inputs).health.state = .unhealthy) :
    activeSuccesses (Journal.run policy inputs).recent =
      activeRun (Journal.run policy inputs).recent := by
  induction inputs using List.reverseRecOn with
  | nil => contradiction
  | append_singleton inputs input ih =>
    have hsound := Journal.sound_run hpos inputs
    have hstep : Journal.run policy (inputs ++ [input]) =
        (Journal.run policy inputs).advance input := by
      rw [Journal.run, List.foldl_append]
      rfl
    rw [hstep] at hunhealthy ⊢
    generalize Journal.run policy inputs = journal at *
    cases input with
    | retire => exact ih hunhealthy
    | observe observation =>
      obtain ⟨_, hnext⟩ | ⟨event, hevent, hverdict, hnext⟩ | ⟨event, _, _, hnext⟩ :=
        journal.advance_cases observation
      · rw [hnext] at hunhealthy ⊢
        exact ih hunhealthy
      · rw [hnext] at hunhealthy ⊢
        have hbefore : journal.health.state = .unhealthy := by
          rw [← hunhealthy]
          exact (frame_count journal.health event).2.1.symm
        have hequal := ih hbefore
        cases event with
        | failure category source => simp
        | success source =>
          cases source with
          | active => simp [hequal]
          | passive =>
            have hpolicy := passive_ne_none hevent
            rw [hsound.same] at hpolicy
            have hone := hcondition.resolve_left hpolicy
            have hshort := hsound.below (by simp [hbefore]) active hactive
            rw [streak, if_pos hbefore] at hshort
            simp
            omega
      · rw [hnext]
        rfl

/-- Under any other policy some history delays recovery: a request that succeeds
between the probes. -/
theorem exists_not_recoversInTime
    (hpos : ∀ active, policy.active = some active → 1 ≤ active.healthySuccesses.toNat)
    (hactive : policy.active = some active) (hpassive : policy.passive ≠ none)
    (hseveral : active.healthySuccesses.toNat ≠ 1) :
    ∃ inputs, ¬ RecoversInTime policy inputs := by
  have hone := hpos active hactive
  obtain ⟨count, hunhealthy⟩ := exists_unhealthy policy hpos
  have hprobed := hunhealthy.probe hpos hactive (by omega)
  have hrequested := hprobed.request hpos
    (event_request hprobed.live (by rw [hprobed.sound.same]; exact hpassive))
  have hlast := hrequested.probes hpos hactive (active.healthySuccesses.toNat - 1) (by omega)
  refine ⟨List.replicate count (.observe probeFailure) ++ .observe probeSuccess ::
    .observe requestSuccess ::
    List.replicate (active.healthySuccesses.toNat - 1) (.observe probeSuccess), ?_⟩
  intro hintime
  have hrun : ∀ before rest, Journal.run policy (before ++ rest) =
      rest.foldl Journal.advance (Journal.run policy before) := by
    intro before rest
    exact List.foldl_append
  have hfew := hintime _ (List.prefix_refl _)
  rw [hrun, List.foldl_cons, List.foldl_cons] at hfew
  have hbelow := hfew hlast.unhealthy active hactive
  rw [hlast.total_eq] at hbelow
  omega

end Delay

/-- Passive successes do undo recovery progress.  Every history of a policy recovers in
time exactly when the policy counts no requests or asks for one success only; counting a
passive success in an unhealthy state costs no recovery exactly when no active success
precedes it; and a history is late only in a stretch that a passive success interrupts. -/
theorem recovery_in_time_iff (upstreamID field : Bytes) (raw policy : HealthPolicy)
    (haccepted : normalizeHealth upstreamID field raw = .ok policy) :
    ((∀ inputs, RecoversInTime policy inputs) ↔
      ∀ active, policy.active = some active →
        policy.passive = none ∨ active.healthySuccesses.toNat = 1) ∧
    (∀ inputs observation, (Journal.run policy inputs).health.state = .unhealthy →
      (Journal.run policy inputs).health.event observation = some (.success .passive) →
      (NeverDelays (Journal.run policy inputs).health observation ↔
        activeRun (Journal.run policy inputs).recent = 0)) ∧
    ∀ inputs, RecoversInTime policy inputs ↔
      ∀ before, before <+: inputs → (Journal.run policy before).health.state = .unhealthy →
        Interrupted (Journal.run policy before).recent →
        ∀ active, policy.active = some active →
          activeSuccesses (Journal.run policy before).recent < active.healthySuccesses.toNat := by
  have hpos : ∀ active, policy.active = some active → 1 ≤ active.healthySuccesses.toNat :=
    fun _ => healthySuccesses_pos haccepted
  have hshort : ∀ inputs, (Journal.run policy inputs).health.state = .unhealthy →
      ∀ active, policy.active = some active →
        activeRun (Journal.run policy inputs).recent < active.healthySuccesses.toNat := by
    intro inputs hunhealthy active hactive
    have hbelow := (Journal.sound_run hpos inputs).below (by simp [hunhealthy]) active hactive
    rwa [streak, if_pos hunhealthy] at hbelow
  refine ⟨?_, ?_, ?_⟩
  · constructor
    · intro hintime active hactive
      by_contra hcondition
      rw [not_or] at hcondition
      obtain ⟨inputs, hlate⟩ :=
        exists_not_recoversInTime hpos hactive hcondition.1 hcondition.2
      exact hlate (hintime inputs)
    · intro hcondition inputs before _ hunhealthy active hactive
      rw [activeSuccesses_run hpos hactive (hcondition active hactive) before hunhealthy]
      exact hshort before hunhealthy active hactive
  · intro inputs observation hunhealthy hevent
    have hsound := Journal.sound_run hpos inputs
    have hpassive := passive_ne_none hevent
    rw [hsound.same] at hpassive
    obtain ⟨active, hactive⟩ := active_of_passive haccepted hpassive
    have hrecovering : Recovering policy (Journal.run policy inputs) _ _ :=
      ⟨hsound, hunhealthy, retired_eq_false hevent, rfl, rfl⟩
    exact hrecovering.neverDelays_iff hpos hactive hevent
  · intro inputs
    constructor
    · intro hintime before hbefore hunhealthy _
      exact hintime before hbefore hunhealthy
    · intro hinterrupted before hbefore hunhealthy active hactive
      by_contra hmany
      have hrun := hshort before hunhealthy active hactive
      exact hmany (hinterrupted before hbefore hunhealthy
        (interrupted_of_activeRun_lt (by omega)) active hactive)

/-- The second of two probes leaves the endpoint unhealthy when a request succeeds
between them. -/
theorem recovery_in_time_fails :
    ¬ RecoversInTime probedPolicy [.observe probeFailure, .observe probeFailure,
      .observe probeSuccess, .observe requestSuccess, .observe probeSuccess] := by
  intro hintime
  have hfew := hintime _ (List.prefix_refl _) (by decide) _ rfl
  exact absurd hfew (by decide)

/-- With the request before the first probe, the second one brings recovery. -/
theorem recovery_in_time_iff_first_request :
    normalizeHealth [] [] probedPolicy = .ok probedPolicy ∧
    NeverDelays (Journal.run probedPolicy [.observe probeFailure, .observe probeFailure]).health
      requestSuccess := by
  have haccepted : normalizeHealth [] [] probedPolicy = .ok probedPolicy := by decide +kernel
  refine ⟨haccepted, ?_⟩
  have hiff := recovery_in_time_iff [] [] probedPolicy probedPolicy haccepted
  exact (hiff.2.1 _ _ (by decide) (by decide)).mpr (by decide)

end GGateway.Upstream
