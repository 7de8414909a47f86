import GGateway.Library.Transition
import GGateway.Upstream.Health

/-!
# The health coordinator

`internal/upstream/health_scheduler.go`: registrations, the time-ordered heap, the
bounded ready queue, the scheduler and the workers.  Every atomic access, every
channel operation and every critical section is one step, so that any interleaving
of the goroutines is a run.  What time it is comes with the step that asks for it.

`container/heap` is taken at its word: the pending probes are a list in the order
of `Less`.  `Retire` is called by the registry alone, which holds its lock, so one
call is under way at a time; `ActivateHealth` and `Observe` are called by any number
of requests.
-/

namespace GGateway.Upstream

open Text Model Library.Transition

/-! ## Registrations -/

/-- An active health policy that configuration has accepted. -/
structure AcceptedHealth where
  policy : HealthPolicy
  active : ActiveHealthPolicy
  probed : policy.active = some active
  accepted : ∃ upstreamID field raw, normalizeHealth upstreamID field raw = .ok policy

/-- `healthRegistration` with its target and its tracker.  `locked` is the mutex of
the tracker, and `withdrawn` records that a call of `Retire` has returned. -/
structure Registration where
  endpointID : Bytes
  generation : Nat
  checked : AcceptedHealth
  health : EndpointHealth
  locked : Bool
  activated : Bool
  retired : Bool
  withdrawn : Bool

/-- `Register`: nothing is scheduled yet. -/
def Registration.new (endpointID : Bytes) (generation : Nat) (checked : AcceptedHealth) :
    Registration :=
  ⟨endpointID, generation, checked, newEndpointHealth checked.policy, false, false, false, false⟩

/-- `scheduledProbe`; the registration is given by its place. -/
structure ScheduledProbe where
  due : Int
  sequence : UInt64
  registration : Nat
  deriving DecidableEq, Repr

/-- `Less`. -/
def ScheduledProbe.less (left right : ScheduledProbe) : Bool :=
  if left.due ≠ right.due then decide (left.due < right.due)
  else decide (left.sequence < right.sequence)

/-- `HealthCoordinator`, with the registrations that were made.  `cancelled` is its
context. -/
structure Coordinator where
  registrations : List Registration
  scheduled : List ScheduledProbe
  sequence : UInt64
  ready : List ScheduledProbe
  wake : Bool
  reschedules : UInt64
  stopped : Bool
  cancelled : Bool

def Coordinator.initial : Coordinator :=
  ⟨[], [], 0, [], false, 0, false, false⟩

variable (coordinator : Coordinator)

namespace Coordinator

def retired (coordinator : Coordinator) (index : Nat) : Bool :=
  (coordinator.registrations[index]?.map Registration.retired).getD false

/-- `heap.Push`. -/
def push (item : ScheduledProbe) : List ScheduledProbe :=
  coordinator.scheduled.orderedInsert (fun left right => ¬ right.less left) item

def setRegistration (index : Nat) (registration : Registration) :
    Coordinator :=
  { coordinator with registrations := coordinator.registrations.set index registration }

end Coordinator

/-! ## Times -/

def probeInterval (health : EndpointHealth) : Int :=
  match health.policy.active with
  | none => second
  | some active =>
    if health.state = .unhealthy then active.unhealthyInterval else active.healthyInterval

def fnv64a (bytes : Bytes) : UInt64 :=
  bytes.foldl (fun digest byte => (digest ^^^ byte.toUInt64) * 1099511628211) 14695981039346656037

def initialProbeJitter (endpointID : Bytes) (policy : ActiveHealthPolicy) : Int :=
  let window := policy.healthyInterval.tdiv 10
  if policy.healthyInterval ≤ 0 ∨ window ≤ 0 then 0
  else ((fnv64a endpointID).toNat % window.toNat : Nat)

/-- How long a probe that found the ready queue full is put off. -/
def queueBackoff (health : EndpointHealth) : Int :=
  let backoff := (probeInterval health).tdiv 10
  if backoff ≤ 0 ∨ 100 * millisecond < backoff then 100 * millisecond else backoff

/-! ## Calls -/

inductive SchedulePhase where
  | stoppedLoad
  | retiredLoad
  | push
  | wake
  deriving DecidableEq, Repr

/-- A call of `schedule`. -/
structure ScheduleCall where
  registration : Nat
  due : Int
  phase : SchedulePhase
  deriving DecidableEq, Repr

def ScheduleCall.start (registration : Nat) (due : Int) : ScheduleCall :=
  ⟨registration, due, .stoppedLoad⟩

/-- One step of `schedule`; `none` when it returns. -/
def ScheduleCall.step (call : ScheduleCall) :
    Coordinator × Option ScheduleCall :=
  match call.phase with
  | .stoppedLoad =>
    (coordinator, if coordinator.stopped then none else some { call with phase := .retiredLoad })
  | .retiredLoad =>
    (coordinator,
      if coordinator.retired call.registration then none else some { call with phase := .push })
  | .push =>
    let sequence := coordinator.sequence + 1
    ({ coordinator with
        sequence := sequence
        scheduled := coordinator.push ⟨call.due, sequence, call.registration⟩ },
      some { call with phase := .wake })
  | .wake => ({ coordinator with wake := true }, none)

/-- `Observe` once it holds the lock and has found the tracker live: what it goes on
to do does not depend on the flag any more. -/
def EndpointHealth.observeLocked (health : EndpointHealth) (observation : Observation) :
    EndpointHealth :=
  { EndpointHealth.observe { health with retired := false } observation with
    retired := health.retired }

inductive ObservePhase where
  | load
  | lock
  | apply
  deriving DecidableEq, Repr

/-- A call of `Observe`; `late` if it started after a call of `Retire` had returned. -/
structure ObserveCall where
  registration : Nat
  observation : Observation
  late : Bool
  phase : ObservePhase
  deriving DecidableEq, Repr

/-- One step of `Observe`; the lock may be taken. -/
def ObserveCall.step (call : ObserveCall) :
    Option (Coordinator × Option ObserveCall) :=
  match coordinator.registrations[call.registration]? with
  | none => none
  | some registration =>
    match call.phase with
    | .load =>
      if call.observation.source = .passive ∧ registration.health.policy.passive = none ∨
          registration.health.retired = true then some (coordinator, none)
      else some (coordinator, some { call with phase := .lock })
    | .lock =>
      if registration.locked then none
      else if registration.health.retired then some (coordinator, none)
      else
        some (coordinator.setRegistration call.registration { registration with locked := true },
          some { call with phase := .apply })
    | .apply =>
      some (coordinator.setRegistration call.registration
        { registration with
          locked := false
          health := registration.health.observeLocked call.observation }, none)

inductive ActivatePhase where
  | retiredLoad
  | stoppedLoad
  | swap
  | scheduling (call : ScheduleCall)
  | returned
  deriving DecidableEq, Repr

/-- A call of `ActivateHealth`. -/
structure ActivateCall where
  registration : Nat
  phase : ActivatePhase
  deriving DecidableEq, Repr

def ActivateCall.step (now : Int) (coordinator : Coordinator) (call : ActivateCall) :
    Option (Coordinator × ActivateCall) :=
  match call.phase with
  | .retiredLoad =>
    some (coordinator,
      { call with
        phase := if coordinator.retired call.registration then .returned else .stoppedLoad })
  | .stoppedLoad =>
    some (coordinator,
      { call with phase := if coordinator.stopped then .returned else .swap })
  | .swap =>
    match coordinator.registrations[call.registration]? with
    | none => none
    | some registration =>
      if registration.activated then some (coordinator, { call with phase := .returned })
      else
        let due := now + initialProbeJitter registration.endpointID registration.checked.active
        some (coordinator.setRegistration call.registration
            { registration with activated := true },
          { call with phase := .scheduling (.start call.registration due) })
  | .scheduling schedule =>
    let (after, pending) := schedule.step coordinator
    some (after,
      { call with
        phase :=
          match pending with
          | none => .returned
          | some schedule => .scheduling schedule })
  | .returned => none

inductive RetirePhase where
  | swap
  | health
  | wake
  deriving DecidableEq, Repr

/-- A call of `Retire`. -/
structure RetireCall where
  registration : Nat
  phase : RetirePhase
  deriving DecidableEq, Repr

def RetireCall.step (call : RetireCall) :
    Option (Coordinator × Option RetireCall) :=
  match coordinator.registrations[call.registration]? with
  | none => none
  | some registration =>
    match call.phase with
    | .swap =>
      if registration.retired then
        some (coordinator.setRegistration call.registration
          { registration with withdrawn := true }, none)
      else
        some (coordinator.setRegistration call.registration { registration with retired := true },
          some { call with phase := .health })
    | .health =>
      some (coordinator.setRegistration call.registration
          { registration with health := registration.health.retire },
        some { call with phase := .wake })
    | .wake =>
      some (Coordinator.setRegistration { coordinator with wake := true } call.registration
        { registration with withdrawn := true }, none)

/-! ## The scheduler -/

inductive SchedulerPhase where
  | next
  | idle
  | waiting
  | due
  | hand (item : ScheduledProbe)
  | offering (item : ScheduledProbe)
  | scheduling (call : ScheduleCall)
  | returned
  deriving DecidableEq, Repr

/-- What the scheduler goes on with: its own code, at a time, or one of the channels
it selects on. -/
inductive SchedulerInput where
  | proceed (now : Int)
  | wake
  | timer
  | done
  deriving DecidableEq, Repr

/-- One step of `runScheduler`. -/
def SchedulerPhase.step (capacity : Nat) (coordinator : Coordinator) :
    SchedulerPhase → SchedulerInput → Option (Coordinator × SchedulerPhase)
  | .next, .proceed now =>
    -- `nextScheduled`.  The flags only rise, so the loop is where its last load is.
    match coordinator.scheduled.dropWhile fun item => coordinator.retired item.registration with
    | [] => some ({ coordinator with scheduled := [] }, .idle)
    | item :: rest =>
      some ({ coordinator with scheduled := item :: rest },
        if now < item.due then .waiting else .due)
  | .idle, .wake | .waiting, .wake =>
    if coordinator.wake then some ({ coordinator with wake := false }, .next) else none
  | .idle, .done | .waiting, .done =>
    if coordinator.cancelled then some (coordinator, .returned) else none
  | .waiting, .timer => some (coordinator, .due)
  | .due, .proceed now =>
    -- `popDue`.
    match coordinator.scheduled with
    | [] => some (coordinator, .next)
    | item :: rest =>
      if now < item.due then some (coordinator, .next)
      else some ({ coordinator with scheduled := rest }, .hand item)
  | .hand item, .proceed _ =>
    some (coordinator, if coordinator.retired item.registration then .next else .offering item)
  | .offering item, .proceed now =>
    if coordinator.ready.length < capacity then
      some ({ coordinator with ready := coordinator.ready ++ [item] }, .next)
    else
      match coordinator.registrations[item.registration]? with
      | none => none
      | some registration =>
        some ({ coordinator with reschedules := coordinator.reschedules + 1 },
          .scheduling (.start item.registration (now + queueBackoff registration.health)))
  | .scheduling call, .proceed _ =>
    let (after, pending) := call.step coordinator
    some (after,
      match pending with
      | none => .next
      | some call => .scheduling call)
  | _, _ => none

/-! ## Workers -/

inductive WorkerPhase where
  | idle
  | taken (item : ScheduledProbe)
  | live (item : ScheduledProbe)
  | probing (item : ScheduledProbe)
  | probed (item : ScheduledProbe) (generation : Nat) (observation : Observation)
  | reporting (item : ScheduledProbe) (observation : Observation)
  | observing (item : ScheduledProbe) (call : ObserveCall)
  | finished (item : ScheduledProbe) (recovered : Bool)
  | unstopped (item : ScheduledProbe) (recovered : Bool)
  | scheduling (call : ScheduleCall)
  | returned
  deriving DecidableEq, Repr

/-- What a worker goes on with; a probe returns a result or panics. -/
inductive WorkerInput where
  | proceed (now : Int)
  | receive
  | done
  | result (generation : Nat) (observation : Observation)
  | panicked
  deriving DecidableEq, Repr

/-- One step of `runWorker` with `processProbe`. -/
def WorkerPhase.step (coordinator : Coordinator) :
    WorkerPhase → WorkerInput → Option (Coordinator × WorkerPhase)
  | .idle, .receive =>
    match coordinator.ready with
    | [] => none
    | item :: rest => some ({ coordinator with ready := rest }, .taken item)
  | .idle, .done => if coordinator.cancelled then some (coordinator, .returned) else none
  | .taken item, .proceed _ =>
    some (coordinator, if coordinator.retired item.registration then .idle else .live item)
  | .live item, .proceed _ =>
    if coordinator.stopped then some (coordinator, .idle)
    else
      match coordinator.registrations[item.registration]? with
      | none => none
      | some registration =>
        some (coordinator,
          match registration.checked.active.type with
          | .http | .tcp => .probing item
          | .other _ => .idle)
  | .probing item, .result generation observation =>
    some (coordinator, .probed item generation observation)
  | .probing item, .panicked => some (coordinator, .finished item true)
  | .probed item generation observation, .proceed _ =>
    match coordinator.registrations[item.registration]? with
    | none => none
    | some registration =>
      some (coordinator,
        if registration.retired = false ∧ generation = registration.generation then
          .reporting item observation
        else .finished item false)
  | .reporting item observation, .proceed _ =>
    -- The registration may be retired between the load and the call of `Observe`.
    match coordinator.registrations[item.registration]? with
    | none => none
    | some registration =>
      some (coordinator,
        .observing item ⟨item.registration, observation, registration.withdrawn, .load⟩)
  | .observing item call, .proceed _ =>
    (call.step coordinator).map fun (after, pending) =>
      (after,
        match pending with
        | none => .finished item false
        | some call => .observing item call)
  | .finished item recovered, .proceed _ =>
    some (coordinator, if coordinator.stopped then .idle else .unstopped item recovered)
  | .unstopped item recovered, .proceed now =>
    if coordinator.retired item.registration then some (coordinator, .idle)
    else
      match coordinator.registrations[item.registration]? with
      | none => none
      | some registration =>
        some ({ coordinator with
            reschedules :=
              if recovered then coordinator.reschedules + 1 else coordinator.reschedules },
          .scheduling (.start item.registration (now + probeInterval registration.health)))
  | .scheduling call, .proceed _ =>
    let (after, pending) := call.step coordinator
    some (after,
      match pending with
      | none => .idle
      | some call => .scheduling call)
  | _, _ => none

/-! ## The whole system -/

/-- The coordinator with every goroutine that works on it.  A call of `Observe` that
has returned leaves `none` in its place. -/
structure ProbeWorld where
  coordinator : Coordinator
  scheduler : SchedulerPhase
  workers : List WorkerPhase
  activations : List ActivateCall
  observers : List (Option ObserveCall)
  retiring : Option RetireCall

inductive ProbeAction where
  | register (endpointID : Bytes) (checked : AcceptedHealth)
  | activate (registration : Nat)
  | activation (call : Nat) (now : Int)
  | observe (registration : Nat) (observation : Observation)
  | observer (call : Nat)
  | retire (registration : Nat)
  | retiring
  | scheduler (input : SchedulerInput)
  | worker (index : Nat) (input : WorkerInput)
  | stop
  | cancel

namespace ProbeWorld

def initial (workers : Nat) : ProbeWorld :=
  ⟨.initial, .next, List.replicate workers .idle, [], [], none⟩

def step (capacity : Nat) (world : ProbeWorld) : ProbeAction → Option ProbeWorld
  | .register endpointID checked =>
    let registrations := world.coordinator.registrations
    let added := Registration.new endpointID (registrations.length + 1) checked
    some { world with
      coordinator := { world.coordinator with registrations := registrations ++ [added] } }
  | .activate index => do
      let _ ← world.coordinator.registrations[index]?
      some { world with activations := world.activations ++ [⟨index, .retiredLoad⟩] }
  | .activation index now => do
      let call ← world.activations[index]?
      let (coordinator, call) ← call.step now world.coordinator
      some { world with
        coordinator := coordinator
        activations := world.activations.set index call }
  | .observe index observation => do
      let registration ← world.coordinator.registrations[index]?
      let call : ObserveCall := ⟨index, observation, registration.withdrawn, .load⟩
      some { world with observers := world.observers ++ [some call] }
  | .observer index => do
      let call ← (world.observers[index]?).join
      let (coordinator, pending) ← call.step world.coordinator
      some { world with
        coordinator := coordinator
        observers := world.observers.set index pending }
  | .retire index => do
      let _ ← world.coordinator.registrations[index]?
      -- The registry releases references under its lock.
      match world.retiring with
      | some _ => none
      | none => some { world with retiring := some ⟨index, .swap⟩ }
  | .retiring => do
      let call ← world.retiring
      let (coordinator, pending) ← call.step world.coordinator
      some { world with
        coordinator := coordinator
        retiring := pending }
  | .scheduler input => do
      let (coordinator, scheduler) ← world.scheduler.step capacity world.coordinator input
      some { world with
        coordinator := coordinator
        scheduler := scheduler }
  | .worker index input => do
      let worker ← world.workers[index]?
      let (coordinator, worker) ← worker.step world.coordinator input
      some { world with
        coordinator := coordinator
        workers := world.workers.set index worker }
  | .stop =>
    -- `StopHealth`.
    some { world with coordinator := { world.coordinator with stopped := true, wake := true } }
  | .cancel =>
    -- `Close` cancels the context after it has stopped.
    if world.coordinator.stopped then
      some { world with coordinator := { world.coordinator with cancelled := true } }
    else none

/-- The same step as an outcome. -/
def act (capacity : Nat) (world : ProbeWorld) (action : ProbeAction) : Outcome Empty ProbeWorld :=
  match world.step capacity action with
  | none => .blocked
  | some after => .next after

def Reachable (capacity workers : Nat) (world : ProbeWorld) : Prop :=
  Runs (act capacity) (initial workers) world

end ProbeWorld

end GGateway.Upstream
