import GGateway.Library.Transition
import GGateway.Upstream.Registry

/-!
# The life of candidates, plan sets and tunnel leases

Everything that shares one registry, and the atomic steps of its operations: a
critical section of the mutex is one step, and so is each access to an atomic
field.  A thread that has won a compare-and-swap is recorded as the phase of the
object it won, and a value that a loop has loaded is an argument of the action,
so that it may be out of date.  Notifications leave the mutex as pending and are
delivered by steps of their own.
-/

namespace GGateway.Upstream

open Text Model Library Library.RefTable Library.Transition

/-! ## Objects -/

/-- `prepared` until `done` is set; a rollback has still to release. -/
inductive CandidatePhase where
  | prepared
  | rollingBack
  | finished
  deriving DecidableEq, Repr

structure Candidate where
  plans : List (Bytes × Plan)
  owned : ResourceRefs
  stats : PrepareStats
  phase : CandidatePhase

def Candidate.done (candidate : Candidate) : Bool :=
  candidate.phase != .prepared

/-- How far `Commit` and `Retire` are with a plan set: not yet counted, committed,
retired but not yet registered, registered, and without its owner reference. -/
inductive PlanSetPhase where
  | committing
  | active
  | retiring
  | registered
  | released
  deriving DecidableEq, Repr

/-- `holders` are the references taken by `TryAcquire` and not yet released. -/
structure PlanSet where
  plans : List (Bytes × Plan)
  owned : ResourceRefs
  refs : Int
  finalized : Bool
  phase : PlanSetPhase
  holders : Nat

/-- The flag that `Retire` sets. -/
def PlanSet.retired (set : PlanSet) : Bool :=
  match set.phase with
  | .committing | .active => false
  | .retiring | .registered | .released => true

inductive LeasePhase where
  | held
  | releasing
  | released
  deriving DecidableEq, Repr

structure TunnelLease where
  key : TransportKey
  runtime : TransportRuntime
  phase : LeasePhase

/-- The calls of `Observer`. -/
inductive Notification where
  | prepared (stats : PrepareStats)
  | rolledBack (stats : PrepareStats)
  | retired (stats : RegistryStats)
  | cleaned (stats : CleanupStats)
  | failed (cause : PrepareError)

structure World where
  registry : Registry
  candidates : List Candidate
  sets : List PlanSet
  leases : List TunnelLease
  pending : List Notification
  delivered : List Notification

/-- `NewRegistry`, with nothing prepared yet. -/
def World.initial (maxRetiredSnapshots : Nat) : World :=
  ⟨Registry.initial maxRetiredSnapshots, [], [], [], [], []⟩

variable (world : World)

def World.notify (notifications : List Notification) : World :=
  { world with pending := world.pending ++ notifications }

/-! ## Actions -/

/-- The panics that a reference count can cause. -/
inductive Panic where
  | resourceReference
  | activePlanSet
  | planSetReference
  | tunnelLeaseReference
  deriving DecidableEq, Repr

/-- One atomic step.  `current` is the value that the loop around the
compare-and-swap has loaded. -/
inductive Action where
  | prepareAllowed
  | prepare (resources : ResourceSet)
  | commit (candidate : Nat)
  | countCommitted (set : Nat)
  | rollback (candidate : Nat)
  | rollbackRelease (candidate : Nat)
  | tryAcquire (set : Nat) (current : Int)
  | releaseLoad (set : Nat)
  | releaseSwap (set : Nat) (current : Int)
  | retire (set : Nat)
  | registerRetired (set : Nat)
  | ownerLoad (set : Nat)
  | ownerSwap (set : Nat) (current : Int)
  | reapNow (drained : List Nat)
  | acquireTunnelLease (key : TransportKey) (runtime : TransportRuntime)
  | releaseLease (lease : Nat)
  | releaseLeaseLocked (lease : Nat)
  | close
  | deliver (notification : Nat)

abbrev Result := Outcome Panic World

/-- The first check of `Prepare`. -/
def World.prepareAllowed : Result :=
  match world.registry.prepareErrorLocked with
  | some cause => .next (world.notify [.failed (.config cause)])
  | none => .next world

variable (platform : Platform)

/-- `Prepare` from normalization to the end of its critical section, with its
error or the index of the new candidate; `none` is a panic. -/
def World.prepareCall (world : World) (resources : ResourceSet) :
    Option (World × Except PrepareError Nat) :=
  match normalize platform resources.upstreams with
  | .error cause => some (world.notify [.failed (.config cause)], .error (.config cause))
  | .ok normalized =>
    match newMaterialIndex resources with
    | .error cause => some (world.notify [.failed (.config cause)], .error (.config cause))
    | .ok materials =>
      match world.registry.prepareErrorLocked with
      | some cause => some (world.notify [.failed (.config cause)], .error (.config cause))
      | none =>
        match world.registry.prepareLocked platform materials normalized with
        | none => none
        | some (next, .failed cause stats cleanup) =>
          some (World.notify { world with registry := next }
            [.cleaned cleanup, .rolledBack stats, .failed cause], .error cause)
        | some (next, .candidate plans owned stats) =>
          some (World.notify
            { world with
              registry := next
              candidates := world.candidates ++ [⟨plans, owned, stats, .prepared⟩] }
            [.prepared stats], .ok world.candidates.length)

def World.prepare (world : World) (resources : ResourceSet) : Result :=
  match world.prepareCall platform resources with
  | none => .panicked .resourceReference
  | some (next, _) => .next next

variable (index : Nat)

/-- `Commit` wins `done` and builds the plan set. -/
def World.commit : Result :=
  match world.candidates[index]? with
  | none => .blocked
  | some candidate =>
    if candidate.done then .next world
    else
      .next { world with
        candidates := world.candidates.set index
          { candidate with owned := .empty, phase := .finished }
        sets := world.sets ++ [⟨candidate.plans, candidate.owned, 1, false, .committing, 0⟩] }

/-- The critical section of `Commit`. -/
def World.countCommitted : Result :=
  match world.sets[index]? with
  | none => .blocked
  | some set =>
    if set.phase = .committing then
      .next { world with
        registry :=
          { world.registry with activePlanSets := world.registry.activePlanSets + 1 }
        sets := world.sets.set index { set with phase := .active } }
    else .blocked

def World.rollback : Result :=
  match world.candidates[index]? with
  | none => .blocked
  | some candidate =>
    if candidate.done then .next world
    else
      .next { world with
        candidates := world.candidates.set index { candidate with phase := .rollingBack } }

/-- `Rollback` releases what the candidate owns. -/
def World.rollbackRelease : Result :=
  match world.candidates[index]? with
  | none => .blocked
  | some candidate =>
    if candidate.phase = .rollingBack then
      match world.registry.releaseRefsLocked candidate.owned with
      | none => .panicked .resourceReference
      | some (next, cleanup, _) =>
        let stats := { candidate.stats with current := cleanup.current }
        .next (World.notify
          { world with
            registry := next
            candidates := world.candidates.set index
              { candidate with owned := .empty, stats := stats, phase := .finished } }
          [.cleaned cleanup, .rolledBack stats])
    else .blocked

/-- The compare-and-swap of `TryAcquire`, after `current` was found positive. -/
def World.tryAcquire (current : Int) : Result :=
  match world.sets[index]? with
  | none => .blocked
  | some set =>
    if set.phase = .committing ∨ current ≤ 0 then .blocked
    else if set.refs = current then
      .next { world with
        sets := world.sets.set index
          { set with refs := current + 1, holders := set.holders + 1 } }
    else .next world

/-- The load of `Release` by the holder of a reference. -/
def World.releaseLoad : Result :=
  match world.sets[index]? with
  | none => .blocked
  | some set =>
    if set.holders = 0 then .blocked
    else if set.refs ≤ 0 then .panicked .planSetReference
    else .next world

def World.releaseSwap (current : Int) : Result :=
  match world.sets[index]? with
  | none => .blocked
  | some set =>
    if set.holders = 0 ∨ current ≤ 0 then .blocked
    else if set.refs = current then
      .next { world with
        sets := world.sets.set index
          { set with refs := current - 1, holders := set.holders - 1 } }
    else .next world

/-- `Retire` wins `retired`; a second call changes nothing. -/
def World.retire : Result :=
  match world.sets[index]? with
  | none => .blocked
  | some set =>
    if set.phase = .committing then .blocked
    else if set.retired then .next world
    else .next { world with sets := world.sets.set index { set with phase := .retiring } }

def World.registerRetired : Result :=
  match world.sets[index]? with
  | none => .blocked
  | some set =>
    if set.phase = .retiring then
      if world.registry.activePlanSets ≤ 0 then .panicked .activePlanSet
      else
        let next :=
          { world.registry with
            activePlanSets := world.registry.activePlanSets - 1
            retired := world.registry.retired ++ [index] }
        .next (World.notify
          { world with
            registry := next
            sets := world.sets.set index { set with phase := .registered } }
          [.retired next.statsLocked])
    else .blocked

/-- `Retire` drops the owner reference by the same loop as any other. -/
def World.ownerLoad : Result :=
  match world.sets[index]? with
  | none => .blocked
  | some set =>
    if set.phase = .registered then
      if set.refs ≤ 0 then .panicked .planSetReference else .next world
    else .blocked

def World.ownerSwap (current : Int) : Result :=
  match world.sets[index]? with
  | none => .blocked
  | some set =>
    if set.phase = .registered ∧ 0 < current then
      if set.refs = current then
        .next { world with
          sets := world.sets.set index { set with refs := current - 1, phase := .released } }
      else .next world
    else .blocked

/-! ## Reaping -/

/-- The sums that `reapNow` reports. -/
def CleanupStats.add (cleanup released : CleanupStats) : CleanupStats :=
  { cleanup with
    releasedEndpoints := cleanup.releasedEndpoints + released.releasedEndpoints
    releasedTransports := cleanup.releasedTransports + released.releasedTransports
    closedTransports := cleanup.closedTransports + released.closedTransports
    releasedHealthTrackers := cleanup.releasedHealthTrackers + released.releasedHealthTrackers
    releasedRetryBudgets := cleanup.releasedRetryBudgets + released.releasedRetryBudgets
    transportGenerations := released.transportGenerations.foldl (fun deltas delta =>
      addTransportGenerationDelta deltas delta.action delta.tls delta.protocol delta.count)
      cleanup.transportGenerations }

/-- Whether `reapNow` finalizes a set, when its load found `drained` sets at zero. -/
def World.finalizes (drained : List Nat) (index : Nat) : Bool :=
  match world.sets[index]? with
  | none => false
  | some set => drained.contains index && !set.finalized

/-- The second loop of `reapNow`. -/
def World.finalizeAll : List Nat → World → CleanupStats → Option (World × CleanupStats)
  | [], world, cleanup => some (world, cleanup)
  | index :: rest, world, cleanup =>
    match world.sets[index]? with
    | none => none
    | some set =>
      match world.registry.releaseRefsLocked set.owned with
      | none => none
      | some (next, released, _) =>
        finalizeAll rest
          { world with
            registry := next
            sets := world.sets.set index { set with owned := .empty, finalized := true } }
          (cleanup.add released)

/-- The loads of a pass found these sets at zero. -/
def World.Drained (drained : List Nat) : Prop :=
  ∀ index ∈ drained, ∃ set ∈ world.sets[index]?, set.refs = 0

instance World.decidableDrained (world : World) (drained : List Nat) :
    Decidable (world.Drained drained) :=
  inferInstanceAs (Decidable (∀ index ∈ drained, ∃ set ∈ world.sets[index]?, set.refs = 0))

/-- `reapNow`.  The counts are loaded one after the other while holders release
outside the mutex: `drained` are the sets whose load found zero, and a set that
reached zero after its load is kept for the next pass. -/
def World.reapNow (drained : List Nat) : Result :=
  if world.Drained drained then
    let finalized := world.registry.retired.filter (world.finalizes drained)
    let survivors := world.registry.retired.filter fun index => !world.finalizes drained index
    match World.finalizeAll finalized
        { world with registry := { world.registry with retired := survivors } } .zero with
    | none => .panicked .resourceReference
    | some (next, cleanup) =>
      if finalized = [] then .next next
      else .next (next.notify [.cleaned { cleanup with current := next.registry.statsLocked }])
  else .blocked

/-! ## Tunnel leases -/

def Registry.addLease (registry : Registry) (key : TransportKey) (runtime : TransportRuntime) :
    Registry :=
  { registry with
    transports := acquire registry.transports key runtime
    liveTunnelLeases := registry.liveTunnelLeases + 1 }

def Registry.dropLease (registry : Registry) (transports : Table TransportKey TransportRuntime) :
    Registry :=
  { registry with
    transports := transports
    liveTunnelLeases := registry.liveTunnelLeases - 1 }

/-- `AcquireTunnelLease` on a selection with this key and transport. -/
def World.acquireTunnelLease (key : TransportKey) (runtime : TransportRuntime) :
    Result :=
  match world.registry.transports.lookup key with
  | none => .next world
  | some entry =>
    if entry.runtime ≠ runtime ∨ entry.refs ≤ 0 then .next world
    else
      .next { world with
        registry := world.registry.addLease key runtime
        leases := world.leases ++ [⟨key, runtime, .held⟩] }

def World.releaseLease : Result :=
  match world.leases[index]? with
  | none => .blocked
  | some lease =>
    if lease.phase = .held then
      .next { world with leases := world.leases.set index { lease with phase := .releasing } }
    else .next world

/-- The report of a lease that dropped its reference. -/
def leaseCleanup (key : TransportKey) (dropped : Option TransportRuntime)
    (current : RegistryStats) : CleanupStats :=
  { CleanupStats.zero with
    releasedTransports := 1
    closedTransports := if dropped.isSome then 1 else 0
    transportGenerations :=
      if dropped.isSome then addTransportGenerationDelta [] .retire key.tlsEnabled key.protocol 1
      else []
    current := current }

def World.releaseLeaseLocked : Result :=
  match world.leases[index]? with
  | none => .blocked
  | some lease =>
    if lease.phase = .releasing then
      if runtime? world.registry.transports lease.key ≠ some lease.runtime ∨
          world.registry.liveTunnelLeases ≤ 0 then .panicked .tunnelLeaseReference
      else
        match release world.registry.transports lease.key with
        | none => .panicked .tunnelLeaseReference
        | some (transports, dropped) =>
          let next := world.registry.dropLease transports
          .next (World.notify
            { world with
              registry := next
              leases := world.leases.set index { lease with phase := .released } }
            [.cleaned (leaseCleanup lease.key dropped next.statsLocked)])
    else .blocked

/-! ## Runs -/

def World.step (world : World) : Action → Result
  | .prepareAllowed => world.prepareAllowed
  | .prepare resources => world.prepare platform resources
  | .commit candidate => world.commit candidate
  | .countCommitted set => world.countCommitted set
  | .rollback candidate => world.rollback candidate
  | .rollbackRelease candidate => world.rollbackRelease candidate
  | .tryAcquire set current => world.tryAcquire set current
  | .releaseLoad set => world.releaseLoad set
  | .releaseSwap set current => world.releaseSwap set current
  | .retire set => world.retire set
  | .registerRetired set => world.registerRetired set
  | .ownerLoad set => world.ownerLoad set
  | .ownerSwap set current => world.ownerSwap set current
  | .reapNow drained => world.reapNow drained
  | .acquireTunnelLease key runtime => world.acquireTunnelLease key runtime
  | .releaseLease lease => world.releaseLease lease
  | .releaseLeaseLocked lease => world.releaseLeaseLocked lease
  | .close => .next { world with registry := { world.registry with closed := true } }
  | .deliver index =>
    match world.pending[index]? with
    | none => .blocked
    | some notification =>
      .next { world with
        pending := world.pending.eraseIdx index
        delivered := world.delivered ++ [notification] }

/-- A state of the registry that some interleaving of operations reaches. -/
def World.Reachable (maxRetiredSnapshots : Nat) (world : World) : Prop :=
  Runs (World.step platform) (World.initial maxRetiredSnapshots) world

end GGateway.Upstream
