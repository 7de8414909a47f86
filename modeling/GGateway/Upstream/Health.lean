import GGateway.Upstream.Config

/-!
# The endpoint health state machine

`EndpointHealth` of `internal/upstream/health.go`.  `Observe` runs under the mutex
of the tracker, so one observation is one step; `Retire` is an atomic flag that the
step reads.  The counters are saturating bytes, as in the source.

The second half says what an observation counts as, and what one counted event does
to the counters and the state.
-/

namespace GGateway.Upstream

open Model

inductive HealthState where
  | unknown
  | healthy
  | unhealthy
  deriving DecidableEq, Repr

inductive ObservationSource where
  | active
  | passive
  deriving DecidableEq, Repr

inductive OutcomeKind where
  | success
  | httpFailure
  | transportFailure
  | timeout
  | neutral
  deriving DecidableEq, Repr

structure Observation where
  source : ObservationSource
  kind : OutcomeKind
  status : Int
  deriving DecidableEq, Repr

structure EndpointHealth where
  policy : HealthPolicy
  state : HealthState
  successes : UInt8
  http : UInt8
  transport : UInt8
  timeouts : UInt8
  retired : Bool
  deriving DecidableEq, Repr

variable (policy : HealthPolicy)

def newEndpointHealth : EndpointHealth :=
  ⟨policy, .unknown, 0, 0, 0, 0, false⟩

def EndpointHealth.selectable (health : EndpointHealth) : Bool :=
  decide (health.state ≠ .unhealthy)

def EndpointHealth.retire (health : EndpointHealth) : EndpointHealth :=
  { health with retired := true }

/-! ## Observing -/

def enabledThreshold (value : UInt8) : UInt8 :=
  if value = 0 then 255 else value

def saturatingIncrement (value : UInt8) : UInt8 :=
  if value = 255 then value else value + 1

/-- The threshold of one kind, given the three of a policy. -/
def thresholdOf (http transport timeouts : UInt8) : OutcomeKind → UInt8
  | .httpFailure => enabledThreshold http
  | .transportFailure => enabledThreshold transport
  | .timeout => enabledThreshold timeouts
  | .success | .neutral => 255

/-- A kind that is no failure falls through the passive switch, and no threshold
of the active policy applies to it either. -/
def failureThreshold (source : ObservationSource) (kind : OutcomeKind) :
    UInt8 :=
  match source with
  | .passive =>
    match policy.passive with
    | none => 255
    | some passive =>
      thresholdOf passive.httpFailures passive.transportFailures passive.timeouts kind
  | .active =>
    match policy.active with
    | none => 255
    | some active =>
      thresholdOf active.httpFailures active.transportFailures active.timeouts kind

/-- `uint16(status)`. -/
def statusWord (status : Int) : UInt16 :=
  UInt16.ofNat (status % 65536).toNat

def classifyHTTP (observation : Observation) : Observation :=
  if observation.status = 0 then observation
  else
    let status := statusWord observation.status
    match observation.source with
    | .passive =>
      match policy.passive with
      | none => { observation with kind := .neutral }
      | some passive =>
        if status ∈ passive.unhealthyStatuses then { observation with kind := .httpFailure }
        else { observation with kind := .success }
    | .active =>
      match policy.active with
      | none => observation
      | some active =>
        if active.type = .http then
          if status ∈ active.healthyStatuses then { observation with kind := .success }
          else if status ∈ active.unhealthyStatuses then
            { observation with kind := .httpFailure }
          else { observation with kind := .neutral }
        else observation

/-- `apply`: the tracker with its counters changed, and the state it is to take. -/
def EndpointHealth.apply (health : EndpointHealth) (state : HealthState)
    (observation : Observation) : EndpointHealth × HealthState :=
  match observation.kind with
  | .success =>
    let cleared := { health with http := 0, transport := 0, timeouts := 0 }
    if state = .unhealthy ∧ observation.source ≠ .active then
      ({ cleared with successes := 0 }, state)
    else
      let successes := saturatingIncrement health.successes
      ({ cleared with successes := successes },
        match health.policy.active with
        | none => state
        | some active => if active.healthySuccesses ≤ successes then .healthy else state)
  | .httpFailure =>
    let http := saturatingIncrement health.http
    ({ health with successes := 0, http := http },
      if failureThreshold health.policy observation.source .httpFailure ≤ http then .unhealthy
      else state)
  | .transportFailure =>
    let transport := saturatingIncrement health.transport
    ({ health with successes := 0, transport := transport },
      if failureThreshold health.policy observation.source .transportFailure ≤ transport then
        .unhealthy
      else state)
  | .timeout =>
    let timeouts := saturatingIncrement health.timeouts
    ({ health with successes := 0, timeouts := timeouts },
      if failureThreshold health.policy observation.source .timeout ≤ timeouts then .unhealthy
      else state)
  | .neutral => (health, state)

def EndpointHealth.resetCounters (health : EndpointHealth) : EndpointHealth :=
  { health with successes := 0, http := 0, transport := 0, timeouts := 0 }

def EndpointHealth.observe (health : EndpointHealth) (observation : Observation) :
    EndpointHealth :=
  if observation.source = .passive ∧ health.policy.passive = none then health
  else if health.retired then health
  else
    let observation := classifyHTTP health.policy observation
    if observation.kind = .neutral then health
    else
      let (changed, next) := health.apply health.state observation
      if next ≠ health.state then { changed with state := next }.resetCounters else changed

/-! ## Events -/

inductive Category where
  | http
  | transport
  | timeout
  deriving DecidableEq, Repr

def Category.kind : Category → OutcomeKind
  | .http => .httpFailure
  | .transport => .transportFailure
  | .timeout => .timeout

/-- What an observation counts as. -/
inductive Event where
  | success (source : ObservationSource)
  | failure (category : Category) (source : ObservationSource)
  deriving DecidableEq, Repr

def Event.ofOutcome (source : ObservationSource) : OutcomeKind → Option Event
  | .success => some (.success source)
  | .httpFailure => some (.failure .http source)
  | .transportFailure => some (.failure .transport source)
  | .timeout => some (.failure .timeout source)
  | .neutral => none

/-- The event that an observation counts as, if it counts: not after retirement,
not from traffic without a passive policy, and not when it is neutral. -/
def EndpointHealth.event (health : EndpointHealth) (observation : Observation) : Option Event :=
  if health.retired ∨ observation.source = .passive ∧ health.policy.passive = none then none
  else Event.ofOutcome observation.source (classifyHTTP health.policy observation).kind

def Event.isSuccess : Event → Bool
  | .success _ => true
  | .failure _ _ => false

/-- The failures of one category since the last counted success; events are given
newest first. -/
def failures (category : Category) (events : List Event) : Nat :=
  (events.takeWhile fun event => !event.isSuccess).countP fun event =>
    match event with
    | .success _ => false
    | .failure other _ => decide (other = category)

/-- The trailing run of counted successes. -/
def successRun (events : List Event) : Nat :=
  (events.takeWhile Event.isSuccess).length

/-- The trailing run of active successes. -/
def activeRun (events : List Event) : Nat :=
  (events.takeWhile fun event => decide (event = .success .active)).length

/-! ## Runs of events -/

section Lists

variable (category other : Category) (source : ObservationSource) (events : List Event)

@[simp] theorem failures_nil : failures category [] = 0 := rfl

@[simp] theorem failures_success : failures category (.success source :: events) = 0 := rfl

@[simp] theorem failures_failure :
    failures category (.failure other source :: events) =
      failures category events + if other = category then 1 else 0 := by
  simp [failures, Event.isSuccess, List.countP_cons]

@[simp] theorem successRun_nil : successRun [] = 0 := rfl

@[simp] theorem successRun_success :
    successRun (.success source :: events) = successRun events + 1 := rfl

@[simp] theorem successRun_failure : successRun (.failure category source :: events) = 0 := rfl

@[simp] theorem activeRun_nil : activeRun [] = 0 := rfl

@[simp] theorem activeRun_active :
    activeRun (.success .active :: events) = activeRun events + 1 := by
  simp [activeRun]

@[simp] theorem activeRun_passive : activeRun (.success .passive :: events) = 0 := by
  simp [activeRun]

@[simp] theorem activeRun_failure : activeRun (.failure category source :: events) = 0 := by
  simp [activeRun]

end Lists

/-! ## Counting one event -/

theorem toNat_saturatingIncrement (value : UInt8) :
    (saturatingIncrement value).toNat = min 255 (value.toNat + 1) := by
  have hlt := value.toNat_lt
  have hone : (1 : UInt8).toNat = 1 := rfl
  have htop : (255 : UInt8).toNat = 255 := rfl
  unfold saturatingIncrement
  split_ifs with hfull
  · rw [hfull, htop]
    rfl
  · have hne : value.toNat ≠ 255 := fun heq => hfull (UInt8.toNat_inj.mp heq)
    rw [UInt8.toNat_add, hone]
    omega

/-- A byte reaches a threshold when the number it saturates does. -/
theorem threshold_le_iff {threshold value : UInt8} {count : Nat}
    (hvalue : value.toNat = min 255 count) : threshold ≤ value ↔ threshold.toNat ≤ count := by
  have hlt := threshold.toNat_lt
  rw [UInt8.le_iff_toNat_le, hvalue]
  omega

def EndpointHealth.counter (health : EndpointHealth) : Category → UInt8
  | .http => health.http
  | .transport => health.transport
  | .timeout => health.timeouts

/-- The state an event calls for. -/
def EndpointHealth.verdict (health : EndpointHealth) : Event → HealthState
  | .success source =>
    if health.state = .unhealthy ∧ source ≠ .active then health.state
    else
      match health.policy.active with
      | none => health.state
      | some active =>
        if active.healthySuccesses ≤ saturatingIncrement health.successes then .healthy
        else health.state
  | .failure category source =>
    if failureThreshold health.policy source category.kind ≤
        saturatingIncrement (health.counter category) then .unhealthy
    else health.state

def EndpointHealth.count (health : EndpointHealth) : Event → EndpointHealth
  | .success source =>
    { health with
      http := 0
      transport := 0
      timeouts := 0
      successes :=
        if health.state = .unhealthy ∧ source ≠ .active then 0
        else saturatingIncrement health.successes }
  | .failure .http _ =>
    { health with successes := 0, http := saturatingIncrement health.http }
  | .failure .transport _ =>
    { health with successes := 0, transport := saturatingIncrement health.transport }
  | .failure .timeout _ =>
    { health with successes := 0, timeouts := saturatingIncrement health.timeouts }

theorem source_classifyHTTP (observation : Observation) :
    (classifyHTTP policy observation).source = observation.source := by
  unfold classifyHTTP
  split_ifs
  · rfl
  dsimp only
  split
  · split
    · rfl
    · split_ifs <;> rfl
  · split
    · rfl
    · split_ifs <;> rfl

/-- An observation that does not count changes nothing. -/
theorem observe_of_event_eq_none {health : EndpointHealth} {observation : Observation}
    (h : health.event observation = none) : health.observe observation = health := by
  unfold EndpointHealth.event at h
  unfold EndpointHealth.observe
  by_cases hpassive : observation.source = .passive ∧ health.policy.passive = none
  · rw [if_pos hpassive]
  rw [if_neg hpassive]
  by_cases hretired : health.retired = true
  · rw [if_pos hretired]
  rw [if_neg hretired]
  rw [if_neg (by simp [hretired, hpassive])] at h
  have hneutral : (classifyHTTP health.policy observation).kind = .neutral := by
    cases hkind : (classifyHTTP health.policy observation).kind <;>
      simp [hkind, Event.ofOutcome] at h ⊢
  rw [if_pos hneutral]

theorem apply_eq {health : EndpointHealth} {source : ObservationSource} {kind : OutcomeKind}
    {event : Event} (h : Event.ofOutcome source kind = some event) (status : Int) :
    health.apply health.state ⟨source, kind, status⟩ =
      (health.count event, health.verdict event) := by
  cases kind with
  | success =>
    cases h
    simp only [EndpointHealth.apply, EndpointHealth.count, EndpointHealth.verdict]
    split_ifs <;> rfl
  | httpFailure =>
    cases h
    rfl
  | transportFailure =>
    cases h
    rfl
  | timeout =>
    cases h
    rfl
  | neutral => contradiction

/-- A transition leaves nothing of the counters. -/
theorem resetCounters_count (health : EndpointHealth) (event : Event) (state : HealthState) :
    EndpointHealth.resetCounters { health.count event with state := state } =
      { health.resetCounters with state := state } := by
  cases event with
  | success source => rfl
  | failure category source => cases category <;> rfl

/-- An observation that counts. -/
theorem observe_of_event_eq_some {health : EndpointHealth} {observation : Observation}
    {event : Event} (h : health.event observation = some event) :
    health.observe observation =
      if health.verdict event = health.state then health.count event
      else { health.resetCounters with state := health.verdict event } := by
  unfold EndpointHealth.event at h
  split_ifs at h with hignored
  rw [not_or] at hignored
  have hsource := source_classifyHTTP health.policy observation
  unfold EndpointHealth.observe
  rw [if_neg hignored.2, if_neg hignored.1]
  generalize classifyHTTP health.policy observation = classified at h hsource
  obtain ⟨source, kind, status⟩ := classified
  subst hsource
  have hcounts : kind ≠ .neutral := by
    rintro rfl
    contradiction
  rw [if_neg hcounts, apply_eq h status]
  dsimp only
  rw [resetCounters_count]
  split_ifs <;> simp_all

end GGateway.Upstream
