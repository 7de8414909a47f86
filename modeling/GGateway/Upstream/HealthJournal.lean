import GGateway.Upstream.Health

/-!
# What a health tracker remembers

A tracker has four bytes of memory.  `Journal` keeps beside it the events it has
counted since its last transition, newest first, and the invariant says which
stretch of them each byte measures: the failure counters those since the last
success, and the success counter the trailing run that matters in the current
state.  The transitions of the machine are then stated about the events alone.
-/

namespace GGateway.Upstream

open Text Model Library.Checks

/-- A tracker with the events it has counted since its last transition. -/
structure Journal where
  health : EndpointHealth
  recent : List Event

def Journal.initial (policy : HealthPolicy) : Journal :=
  ⟨newEndpointHealth policy, []⟩

inductive HealthInput where
  | observe (observation : Observation)
  | retire
  deriving DecidableEq, Repr

/-- The events after an observation, before a transition forgets them. -/
def Journal.events (journal : Journal) (observation : Observation) : List Event :=
  (journal.health.event observation).toList ++ journal.recent

def Journal.advance (journal : Journal) : HealthInput → Journal
  | .observe observation =>
    let next := journal.health.observe observation
    ⟨next, if next.state = journal.health.state then journal.events observation else []⟩
  | .retire => { journal with health := journal.health.retire }

def Journal.run (policy : HealthPolicy) (inputs : List HealthInput) : Journal :=
  inputs.foldl Journal.advance (.initial policy)

/-- The run of successes that counts in a state: from unhealthy only probes help. -/
def streak (state : HealthState) (events : List Event) : Nat :=
  if state = .unhealthy then activeRun events else successRun events

/-! ## The invariant -/

/-- The counters measure the journal, and a run that is long enough has already
changed the state. -/
structure Journal.Sound (policy : HealthPolicy) (journal : Journal) : Prop where
  same : journal.health.policy = policy
  counters : ∀ category, (journal.health.counter category).toNat =
    min 255 (failures category journal.recent)
  successes : journal.health.successes.toNat =
    min 255 (streak journal.health.state journal.recent)
  below : journal.health.state ≠ .healthy → ∀ active, policy.active = some active →
    streak journal.health.state journal.recent < active.healthySuccesses.toNat

/-- An accepted policy asks for at least one success. -/
theorem healthySuccesses_pos {upstreamID field : Bytes} {raw policy : HealthPolicy}
    (h : normalizeHealth upstreamID field raw = .ok policy) {active : ActiveHealthPolicy}
    (hactive : policy.active = some active) : 1 ≤ active.healthySuccesses.toNat := by
  obtain ⟨source, hsource⟩ := exists_normalizeActive h hactive
  exact (normalizeActive_spec hsource).2

theorem counter_count (health : EndpointHealth) (event : Event) (category : Category) :
    (health.count event).counter category =
      match event with
      | .success _ => 0
      | .failure other _ =>
        if other = category then saturatingIncrement (health.counter category)
        else health.counter category := by
  cases event with
  | success source => cases category <;> rfl
  | failure other source => cases other <;> cases category <;> rfl

theorem successes_count (health : EndpointHealth) (event : Event) :
    (health.count event).successes =
      match event with
      | .success source =>
        if health.state = .unhealthy ∧ source ≠ .active then 0
        else saturatingIncrement health.successes
      | .failure _ _ => 0 := by
  cases event with
  | success source => rfl
  | failure category source => cases category <;> rfl

theorem frame_count (health : EndpointHealth) (event : Event) :
    (health.count event).policy = health.policy ∧ (health.count event).state = health.state ∧
      (health.count event).retired = health.retired := by
  cases event with
  | success source => exact ⟨rfl, rfl, rfl⟩
  | failure category source => cases category <;> exact ⟨rfl, rfl, rfl⟩

section Sound

variable {policy : HealthPolicy} {journal : Journal} {event : Event}

/-- The failure counters follow the journal. -/
theorem Journal.Sound.counters_count (h : journal.Sound policy) (event : Event)
    (category : Category) :
    ((journal.health.count event).counter category).toNat =
      min 255 (failures category (event :: journal.recent)) := by
  rw [counter_count]
  cases event with
  | success source => rfl
  | failure other source =>
    dsimp only
    have hbefore := h.counters category
    rw [failures_failure]
    split_ifs
    · rw [toNat_saturatingIncrement, hbefore]
      omega
    · rw [hbefore, add_zero]

/-- So does the success counter, in the state it is in. -/
theorem Journal.Sound.successes_count (h : journal.Sound policy) (event : Event) :
    (journal.health.count event).successes.toNat =
      min 255 (streak journal.health.state (event :: journal.recent)) := by
  have hbefore := h.successes
  rw [Upstream.successes_count]
  unfold streak at hbefore ⊢
  cases event with
  | failure category source =>
    split_ifs <;> rfl
  | success source =>
    by_cases hunhealthy : journal.health.state = .unhealthy
    · rw [if_pos hunhealthy] at hbefore
      cases source with
      | active =>
        simp only [ne_eq, not_true_eq_false, and_false, if_false, if_pos hunhealthy,
          activeRun_active]
        rw [toNat_saturatingIncrement, hbefore]
        omega
      | passive =>
        simp [hunhealthy]
    · rw [if_neg hunhealthy] at hbefore
      simp only [hunhealthy, false_and, if_false, successRun_success]
      rw [toNat_saturatingIncrement, hbefore]
      omega

/-- A failure is decisive when its category has reached its threshold. -/
theorem Journal.Sound.verdict_failure (h : journal.Sound policy) (category : Category)
    (source : ObservationSource) :
    journal.health.verdict (.failure category source) =
      if (failureThreshold policy source category.kind).toNat ≤
          failures category (.failure category source :: journal.recent) then .unhealthy
      else journal.health.state := by
  have hcount : (saturatingIncrement (journal.health.counter category)).toNat =
      min 255 (failures category (.failure category source :: journal.recent)) := by
    have hbefore := h.counters category
    rw [toNat_saturatingIncrement, hbefore, failures_failure, if_pos rfl]
    omega
  unfold EndpointHealth.verdict
  rw [h.same]
  simp only [threshold_le_iff hcount]

/-- A success is decisive when the run that counts is long enough. -/
theorem Journal.Sound.verdict_success (h : journal.Sound policy) (source : ObservationSource) :
    journal.health.verdict (.success source) =
      match policy.active with
      | none => journal.health.state
      | some active =>
        if (journal.health.state = .unhealthy → source = .active) ∧
            active.healthySuccesses.toNat ≤
              streak journal.health.state (.success source :: journal.recent) then .healthy
        else journal.health.state := by
  unfold EndpointHealth.verdict
  rw [h.same]
  dsimp only
  by_cases hpassive : journal.health.state = .unhealthy ∧ source ≠ .active
  · rw [if_pos hpassive]
    cases policy.active with
    | none => rfl
    | some active =>
      have hno : ¬ (journal.health.state = .unhealthy → source = .active) := fun himp =>
        hpassive.2 (himp hpassive.1)
      simp [hno]
  · rw [if_neg hpassive]
    cases policy.active with
    | none => rfl
    | some active =>
      have hcount := h.successes_count (.success source)
      rw [Upstream.successes_count] at hcount
      dsimp only at hcount
      rw [if_neg hpassive] at hcount
      have hyes : (journal.health.state = .unhealthy → source = .active) ↔ True := by
        rw [iff_true]
        intro hunhealthy
        by_contra hsource
        exact hpassive ⟨hunhealthy, hsource⟩
      simp only [threshold_le_iff hcount, hyes, true_and]

/-- The journal after an observation: nothing happened, an event was counted, or
the state changed and everything was forgotten. -/
theorem Journal.advance_cases (journal : Journal) (observation : Observation) :
    (journal.health.event observation = none ∧
        journal.advance (.observe observation) = journal) ∨
      (∃ event, journal.health.event observation = some event ∧
        journal.health.verdict event = journal.health.state ∧
        journal.advance (.observe observation) =
          ⟨journal.health.count event, event :: journal.recent⟩) ∨
      ∃ event, journal.health.event observation = some event ∧
        journal.health.verdict event ≠ journal.health.state ∧
        journal.advance (.observe observation) =
          ⟨{ journal.health.resetCounters with state := journal.health.verdict event }, []⟩ := by
  cases hevent : journal.health.event observation with
  | none =>
    refine Or.inl ⟨rfl, ?_⟩
    simp [Journal.advance, Journal.events, observe_of_event_eq_none hevent, hevent]
  | some event =>
    right
    by_cases hsame : journal.health.verdict event = journal.health.state
    · refine Or.inl ⟨event, rfl, hsame, ?_⟩
      simp [Journal.advance, Journal.events, observe_of_event_eq_some hevent, hevent, hsame,
        (frame_count journal.health event).2.1]
    · refine Or.inr ⟨event, rfl, hsame, ?_⟩
      simp [Journal.advance, observe_of_event_eq_some hevent, hsame]

theorem Journal.sound_initial
    (hpos : ∀ active, policy.active = some active → 1 ≤ active.healthySuccesses.toNat) :
    (Journal.initial policy).Sound policy := by
  refine ⟨rfl, ?_, rfl, ?_⟩
  · intro category
    cases category <;> rfl
  · intro _ active hactive
    exact hpos active hactive

theorem Journal.Sound.observe (h : journal.Sound policy)
    (hpos : ∀ active, policy.active = some active → 1 ≤ active.healthySuccesses.toNat)
    (observation : Observation) : (journal.advance (.observe observation)).Sound policy := by
  obtain ⟨_, hsame⟩ | ⟨event, _, hverdict, hnext⟩ | ⟨event, _, _, hnext⟩ :=
    journal.advance_cases observation
  · rw [hsame]
    exact h
  · rw [hnext]
    obtain ⟨hpolicy, hstate, _⟩ := frame_count journal.health event
    refine ⟨hpolicy.trans h.same, h.counters_count event, ?_, ?_⟩
    · rw [hstate]
      exact h.successes_count event
    · dsimp only
      rw [hstate]
      intro hunsettled active hactive
      cases event with
      | failure category source =>
        have hzero : streak journal.health.state (.failure category source :: journal.recent) = 0 := by
          unfold streak
          split_ifs <;> simp
        have hone := hpos active hactive
        omega
      | success source =>
        -- Had the run been long enough, the state would have changed.
        rw [h.verdict_success, hactive] at hverdict
        dsimp only at hverdict
        split_ifs at hverdict with hreached
        · exact absurd hverdict.symm hunsettled
        by_contra hlong
        apply hreached
        refine ⟨?_, by omega⟩
        intro hunhealthy
        cases source with
        | active => rfl
        | passive =>
          have hone := hpos active hactive
          simp [streak, hunhealthy] at hlong
          omega
  · rw [hnext]
    refine ⟨h.same, ?_, ?_, ?_⟩
    · intro category
      cases category <;> rfl
    · show (0 : UInt8).toNat = _
      unfold streak
      split_ifs <;> rfl
    · intro _ active hactive
      have hone := hpos active hactive
      have hzero : ∀ state, streak state [] = 0 := by
        intro state
        unfold streak
        split_ifs <;> rfl
      rw [hzero]
      omega

theorem Journal.sound_run
    (hpos : ∀ active, policy.active = some active → 1 ≤ active.healthySuccesses.toNat)
    (inputs : List HealthInput) : (Journal.run policy inputs).Sound policy := by
  induction inputs using List.reverseRecOn with
  | nil => exact Journal.sound_initial hpos
  | append_singleton inputs input ih =>
    rw [Journal.run, List.foldl_append]
    cases input with
    | observe observation => exact ih.observe hpos observation
    | retire => exact ⟨ih.same, ih.counters, ih.successes, ih.below⟩

end Sound

/-! ## The machine -/

/-- The transitions that there are. -/
def Transition : HealthState → HealthState → Prop
  | .unknown, .healthy | .unknown, .unhealthy | .healthy, .unhealthy | .unhealthy, .healthy => True
  | _, _ => False

section Machine

variable {policy : HealthPolicy} {journal : Journal} {event : Event} {observation : Observation}

theorem state_observe (hevent : journal.health.event observation = some event) :
    (journal.health.observe observation).state = journal.health.verdict event := by
  rw [observe_of_event_eq_some hevent]
  split_ifs with hsame
  · rw [(frame_count journal.health event).2.1, hsame]
  · rfl

theorem Journal.events_of_event_eq_some (hevent : journal.health.event observation = some event) :
    journal.events observation = event :: journal.recent := by
  rw [Journal.events, hevent]
  rfl

theorem Journal.events_of_event_eq_none (hevent : journal.health.event observation = none) :
    journal.events observation = journal.recent := by
  rw [Journal.events, hevent]
  rfl

theorem Journal.Sound.transition_verdict (h : journal.Sound policy) :
    journal.health.verdict event = journal.health.state ∨
      Transition journal.health.state (journal.health.verdict event) := by
  cases event with
  | failure category source =>
    rw [h.verdict_failure]
    split_ifs
    · cases journal.health.state <;> simp [Transition]
    · exact Or.inl rfl
  | success source =>
    rw [h.verdict_success]
    cases policy.active with
    | none => exact Or.inl rfl
    | some active =>
      dsimp only
      split_ifs
      · cases journal.health.state <;> simp [Transition]
      · exact Or.inl rfl

/-- A selectable endpoint becomes unhealthy at a failure that reaches its threshold. -/
theorem Journal.Sound.unhealthy_iff (h : journal.Sound policy)
    (hselectable : journal.health.state ≠ .unhealthy) (observation : Observation) :
    (journal.health.observe observation).state = .unhealthy ↔
      ∃ category source, journal.health.event observation = some (.failure category source) ∧
        (failureThreshold policy source category.kind).toNat ≤
          failures category (journal.events observation) := by
  cases hevent : journal.health.event observation with
  | none =>
    rw [observe_of_event_eq_none hevent]
    simp [hselectable]
  | some event =>
    rw [state_observe hevent, Journal.events_of_event_eq_some hevent]
    cases event with
    | failure category source =>
      rw [h.verdict_failure]
      constructor
      · intro hunhealthy
        split_ifs at hunhealthy with hreached
        · exact ⟨category, source, rfl, hreached⟩
        · exact absurd hunhealthy hselectable
      · rintro ⟨_, _, hsame, hreached⟩
        obtain ⟨rfl, rfl⟩ := Event.failure.inj (Option.some.inj hsame)
        rw [if_pos hreached]
    | success source =>
      -- A success never makes an endpoint unhealthy.
      rw [h.verdict_success]
      constructor
      · intro hunhealthy
        cases hactive : policy.active with
        | none =>
          rw [hactive] at hunhealthy
          exact absurd hunhealthy hselectable
        | some active =>
          rw [hactive] at hunhealthy
          dsimp only at hunhealthy
          split_ifs at hunhealthy
          exact absurd hunhealthy hselectable
      · rintro ⟨_, _, hsame, _⟩
        simp at hsame

/-- An endpoint that is not healthy becomes so when the run of successes that counts
in its state reaches the configured length. -/
theorem Journal.Sound.healthy_iff (h : journal.Sound policy)
    (hunsettled : journal.health.state ≠ .healthy) (observation : Observation) :
    (journal.health.observe observation).state = .healthy ↔
      ∃ active, policy.active = some active ∧
        active.healthySuccesses.toNat ≤
          streak journal.health.state (journal.events observation) := by
  have hbelow := h.below hunsettled
  cases hevent : journal.health.event observation with
  | none =>
    rw [observe_of_event_eq_none hevent, Journal.events_of_event_eq_none hevent]
    constructor
    · intro hhealthy
      exact absurd hhealthy hunsettled
    · rintro ⟨active, hactive, hlong⟩
      have hshort := hbelow active hactive
      omega
  | some event =>
    rw [state_observe hevent, Journal.events_of_event_eq_some hevent]
    cases event with
    | failure category source =>
      have hzero : streak journal.health.state
          (.failure category source :: journal.recent) = 0 := by
        unfold streak
        split_ifs <;> simp
      rw [h.verdict_failure, hzero]
      constructor
      · intro hhealthy
        split_ifs at hhealthy
        exact absurd hhealthy hunsettled
      · rintro ⟨active, hactive, hlong⟩
        have hshort := hbelow active hactive
        omega
    | success source =>
      rw [h.verdict_success]
      cases hactive : policy.active with
      | none => simpa using hunsettled
      | some active =>
        have hshort := hbelow active hactive
        have hpassive : journal.health.state = .unhealthy → source ≠ .active →
            streak journal.health.state (.success source :: journal.recent) = 0 := by
          intro hunhealthy hsource
          cases source with
          | active => exact absurd rfl hsource
          | passive => simp [streak, hunhealthy]
        simp only [Option.some.injEq, exists_eq_left']
        constructor
        · intro hhealthy
          split_ifs at hhealthy with hreached
          · exact hreached.2
          · exact absurd hhealthy hunsettled
        · intro hlong
          rw [if_pos]
          refine ⟨?_, hlong⟩
          intro hunhealthy
          by_contra hsource
          have hzero := hpassive hunhealthy hsource
          omega

theorem Journal.retired_run {inputs : List HealthInput} (h : HealthInput.retire ∈ inputs) :
    (Journal.run policy inputs).health.retired = true := by
  have hstays : ∀ {journal : Journal} (input : HealthInput), journal.health.retired = true →
      (journal.advance input).health.retired = true := by
    intro journal input hretired
    cases input with
    | retire => rfl
    | observe observation =>
      have hnone : journal.health.event observation = none := by
        simp [EndpointHealth.event, hretired]
      show (journal.health.observe observation).retired = true
      rw [observe_of_event_eq_none hnone, hretired]
  induction inputs using List.reverseRecOn with
  | nil => simp at h
  | append_singleton inputs input ih =>
    rw [Journal.run, List.foldl_append]
    rcases List.mem_append.mp h with hbefore | hlast
    · exact hstays input (ih hbefore)
    · obtain rfl := List.mem_singleton.mp hlast
      rfl

theorem event_eq_none (health : EndpointHealth) (observation : Observation)
    (h : (classifyHTTP health.policy observation).kind = .neutral ∨
      (observation.source = .passive ∧ health.policy.passive = none) ∨ health.retired = true) :
    health.event observation = none := by
  unfold EndpointHealth.event
  split_ifs with hignored
  · rfl
  rw [not_or] at hignored
  rcases h with hneutral | hpassive | hretired
  · rw [hneutral]
    rfl
  · exact absurd hpassive hignored.2
  · exact absurd hretired hignored.1

end Machine

/-- For every accepted policy and every history of observations and of retirement,
what the next observation does to the state is determined by the events since the
last transition: it changes along one of four transitions; a selectable endpoint
becomes unhealthy exactly at a failure with which the failures of its category since
the last success reach the threshold of its source; an unknown endpoint becomes
healthy exactly when the run of successes, and an unhealthy one when the run of
active successes, reaches `HealthySuccesses`; and an observation that is neutral,
that comes from traffic without a passive policy, or that comes after retirement
changes nothing at all. -/
theorem health_machine_exact (upstreamID field : Bytes) (raw policy : HealthPolicy)
    (haccepted : normalizeHealth upstreamID field raw = .ok policy) (inputs : List HealthInput)
    (observation : Observation) :
    let before := Journal.run policy inputs
    let after := before.health.observe observation
    let events := before.events observation
    (after.state = before.health.state ∨ Transition before.health.state after.state) ∧
    (before.health.state ≠ .unhealthy → (after.state = .unhealthy ↔
      ∃ category source, before.health.event observation = some (.failure category source) ∧
        (failureThreshold policy source category.kind).toNat ≤ failures category events)) ∧
    (before.health.state = .unknown → (after.state = .healthy ↔
      ∃ active, policy.active = some active ∧
        active.healthySuccesses.toNat ≤ successRun events)) ∧
    (before.health.state = .unhealthy → (after.state = .healthy ↔
      ∃ active, policy.active = some active ∧
        active.healthySuccesses.toNat ≤ activeRun events)) ∧
    ((classifyHTTP policy observation).kind = .neutral ∨
        (observation.source = .passive ∧ policy.passive = none) ∨ HealthInput.retire ∈ inputs →
      after = before.health) := by
  intro before after events
  have hsound : before.Sound policy :=
    Journal.sound_run (fun _ => healthySuccesses_pos haccepted) inputs
  refine ⟨?_, fun hselectable => hsound.unhealthy_iff hselectable observation, ?_, ?_, ?_⟩
  · cases hevent : before.health.event observation with
    | none => exact Or.inl (congrArg _ (observe_of_event_eq_none hevent))
    | some event =>
      show (before.health.observe observation).state = _ ∨ _
      rw [state_observe hevent]
      exact hsound.transition_verdict
  · intro hunknown
    have hiff := hsound.healthy_iff (by simp [hunknown]) observation
    rwa [hunknown] at hiff
  · intro hunhealthy
    have hiff := hsound.healthy_iff (by simp [hunhealthy]) observation
    rwa [hunhealthy] at hiff
  · intro hignored
    apply observe_of_event_eq_none
    apply event_eq_none
    rw [hsound.same]
    exact hignored.imp_right (Or.imp_right Journal.retired_run)

/-- A TCP check with a passive policy beside it: two probes to recover, two
failed probes or three failed requests to be taken out. -/
def probedPolicy : HealthPolicy where
  active := some
    { type := .tcp
      timeout := second
      healthyInterval := second
      unhealthyInterval := second
      healthySuccesses := 2
      httpFailures := 0
      transportFailures := 2
      timeouts := 2
      healthyStatuses := []
      unhealthyStatuses := []
      path := []
      host := [] }
  passive := some
    { httpFailures := 0
      transportFailures := 3
      timeouts := 3
      unhealthyStatuses := [] }

/-- A failed request and a failed probe together reach the threshold of the probes. -/
theorem health_machine_exact_shared_counter :
    normalizeHealth [] [] probedPolicy = .ok probedPolicy ∧
    ((Journal.run probedPolicy [.observe ⟨.passive, .transportFailure, 0⟩]).health.observe
      ⟨.active, .transportFailure, 0⟩).state = .unhealthy := by
  have haccepted : normalizeHealth [] [] probedPolicy = .ok probedPolicy := by decide +kernel
  refine ⟨haccepted, ?_⟩
  have hmachine := health_machine_exact [] [] probedPolicy probedPolicy haccepted
    [.observe ⟨.passive, .transportFailure, 0⟩] ⟨.active, .transportFailure, 0⟩
  exact (hmachine.2.1 (by decide)).mpr ⟨.transport, .active, by decide, by decide⟩

end GGateway.Upstream
