import GGateway.Runtime.Builder
import GGateway.Upstream.Lifecycle

/-!
# The runtime manager

`Manager` of `internal/runtime/manager.go` over the objects of its registry.
`Apply` and `Close` run while they own `applyMu`; every `Acquire` is a call with a
program counter of its own; leases are released by whoever holds them; and the
reaper, tunnels and observers take steps at any time.  A step of the manager
contains at most one access to an atomic field or one critical section.
-/

set_option linter.dupNamespace false

namespace GGateway.Runtime

open Text Model Library.Transition
open GGateway.Upstream (Plan Cause PrepareError ConfigError Platform World Panic decimal)

/-- What a manager was created with. -/
structure Environment where
  platform : Platform
  compilers : Compilers
  hasBuilder : Bool
  hasUpstreams : Bool

/-! ## State -/

/-- A snapshot that was published, with the index of its plan set. -/
structure Published where
  snapshot : Snapshot
  plans : Nat

/-- `PlanSet.Retire`: set the flag, register, drop the owner reference. -/
inductive RetireStage where
  | start
  | register
  | drop
  deriving DecidableEq, Repr

/-- Where `Apply` is.  From `building` on it has a candidate, whose `Rollback` is
deferred. -/
inductive ApplyStage where
  | locked
  | checked
  | allowed
  | building (candidate : Nat)
  | committing (candidate : Nat) (snapshot : Snapshot)
  | counting (candidate : Nat) (snapshot : Snapshot) (plans : Nat)
  | publishing (candidate : Nat) (snapshot : Snapshot) (plans : Nat)
  | retiring (candidate : Nat) (old : Nat) (stage : RetireStage)
  | finishing (candidate : Nat) (result : Option BuildError)
  | releasing (candidate : Nat) (result : Option BuildError)
  | returning (result : Option BuildError)

structure ApplyCall where
  revision : Nat
  resources : ResourceSet
  now : Int
  stage : ApplyStage

inductive CloseStage where
  | locked
  | swapping
  | retiring (old : Nat) (stage : RetireStage)
  | unlocking

/-- Who holds `applyMu`. -/
inductive Owner where
  | apply (call : ApplyCall)
  | close (stage : CloseStage)

/-- Where `Acquire` is; a snapshot is named by its position among the published
ones.  `refused` records the snapshot it has seen active, if any, and `leased`
how long the history was when it returned. -/
inductive CallStage where
  | loading
  | acquiring (snapshot : Nat)
  | rechecking (snapshot : Nat)
  | refused (observed : Option Nat)
  | leased (snapshot ended : Nat)
  deriving DecidableEq, Repr

/-- A call of `Acquire`; `began` is the position in the history of the value that
the active pointer had when the call began. -/
structure Call where
  began : Nat
  stage : CallStage

structure Lease where
  snapshot : Nat
  phase : Upstream.LeasePhase

/-- `history` are the values of the active pointer, oldest first, and `results`
what the finished calls of `Apply` have returned. -/
structure Manager where
  world : World
  closed : Bool
  active : Option Nat
  snapshots : List Published
  history : List (Option Nat)
  owner : Option Owner
  calls : List Call
  leases : List Lease
  results : List (Option BuildError)

def Manager.initial (maxRetiredSnapshots : Nat) : Manager :=
  ⟨World.initial maxRetiredSnapshots, false, none, [], [none], none, [], [], []⟩

/-- The revisions in the order of publication. -/
def Manager.published (manager : Manager) : List Nat :=
  manager.snapshots.map fun published => published.snapshot.revision

def Manager.plansOf (manager : Manager) (snapshot : Nat) : Option Nat :=
  (manager.snapshots[snapshot]?).map Published.plans

abbrev Result := Outcome Panic Manager

variable (env : Environment)

/-- Take one step of the registry. -/
def Manager.perform (manager : Manager) (action : Upstream.Action)
    (after : World → Manager) : Result :=
  match manager.world.step env.platform action with
  | .blocked => .blocked
  | .panicked cause => .panicked cause
  | .next world => .next (after world)

/-! ## Apply -/

/-- `upstreamBuildError`. -/
def upstreamBuildError (revision : Nat) : PrepareError → BuildError
  | .config cause =>
    ⟨Upstream.ConfigCode.text cause.code, .validate, revision, ascii "upstream", cause.upstreamID,
      cause.field, .upstream (.config cause)⟩
  | .other cause =>
    ⟨ascii "UPSTREAM_PREPARE_FAILED", .validate, revision, [], [], ascii "upstreams",
      .upstream (.other cause)⟩

/-- The checks that `Apply` makes before it asks the registry. -/
def Manager.precondition (manager : Manager) (revision : Nat) :
    Option BuildError :=
  if manager.closed then
    some (revisionError revision (ascii "MANAGER_CLOSED") (ascii "runtime manager is closed"))
  else
    match manager.active.bind (manager.snapshots[·]?) with
    | some active =>
      if revision ≤ active.snapshot.revision then
        some ⟨ascii "STALE_REVISION", .validate, revision, [], [], ascii "revision",
          .message (.text (ascii "active revision is " ++ decimal active.snapshot.revision))⟩
      else unavailable
    | none => unavailable
where
  unavailable : Option BuildError :=
    if !env.hasBuilder then
      some (revisionError revision (ascii "BUILDER_UNAVAILABLE") (ascii "runtime builder is nil"))
    else if !env.hasUpstreams then
      some (revisionError revision (ascii "UPSTREAM_REGISTRY_UNAVAILABLE")
        (ascii "upstream registry is nil"))
    else none

def Manager.withStage (manager : Manager) (call : ApplyCall) (stage : ApplyStage) : Manager :=
  { manager with owner := some (.apply { call with stage := stage }) }

/-- The stage after `Build`. -/
def afterBuild (call : ApplyCall) (candidate : Nat) (result : Except BuildError Snapshot) :
    ApplyStage :=
  match result with
  | .error cause => .finishing candidate (some cause)
  | .ok snapshot =>
    if snapshot.revision = call.revision then .committing candidate snapshot
    else .finishing candidate (some (revisionError call.revision
      (ascii "SNAPSHOT_INVARIANT_FAILED") (ascii "builder returned an invalid snapshot")))

/-- Whether a candidate is finished or about to be. -/
def candidateDone (world : World) (candidate : Nat) : Bool :=
  match world.candidates[candidate]? with
  | none => true
  | some found => found.done

/-- The compare-and-swap on the count of a plan set would succeed. -/
def countIs (world : World) (plans : Nat) (current : Int) : Bool :=
  match world.sets[plans]? with
  | none => false
  | some set => decide (set.refs = current)

def setRetired (world : World) (plans : Nat) : Bool :=
  match world.sets[plans]? with
  | none => false
  | some set => set.retired

/-- One step of `Retire` on the plan set `old`; `resume` is where the caller goes
on, with `none` when `Retire` has returned.  The loop of `Release` loads first:
a `current` that is not positive stands for that load. -/
def Manager.retireStep (manager : Manager) (old : Nat)
    (stage : RetireStage) (current : Int) (resume : Option RetireStage → Owner) : Result :=
  match stage with
  | .start =>
    manager.perform env (.retire old) fun world =>
      { manager with
        world := world
        owner := some (resume
          (if setRetired manager.world old then none else some .register)) }
  | .register =>
    manager.perform env (.registerRetired old) fun world =>
      { manager with world := world, owner := some (resume (some .drop)) }
  | .drop =>
    if current ≤ 0 then
      manager.perform env (.ownerLoad old) fun world => { manager with world := world }
    else
      manager.perform env (.ownerSwap old current) fun world =>
        { manager with
          world := world
          owner := some (resume
            (if countIs manager.world old current then none else some .drop)) }

def retireInApply (call : ApplyCall) (candidate old : Nat) : Option RetireStage → Owner
  | none => .apply { call with stage := .finishing candidate none }
  | some stage => .apply { call with stage := .retiring candidate old stage }

def retireInClose (old : Nat) : Option RetireStage → Owner
  | none => .close .unlocking
  | some stage => .close (.retiring old stage)

/-- Publish a snapshot: swap the active pointer, then retire the old plan set. -/
def Manager.publish (manager : Manager) (call : ApplyCall) (candidate : Nat) (snapshot : Snapshot)
    (plans : Nat) : Manager :=
  { manager with
    active := some manager.snapshots.length
    snapshots := manager.snapshots ++ [⟨snapshot, plans⟩]
    history := manager.history ++ [some manager.snapshots.length]
    owner := some (retireFrom (manager.active.bind manager.plansOf)) }
where
  retireFrom : Option Nat → Owner
    | none => retireInApply call candidate 0 none
    | some old => retireInApply call candidate old (some .start)

def Manager.applyStep (manager : Manager) (call : ApplyCall)
    (current : Int) : Result :=
  match call.stage with
  | .locked =>
    match manager.precondition env call.revision with
    | some cause => .next (manager.withStage call (.returning (some cause)))
    | none => .next (manager.withStage call .checked)
  | .checked =>
    manager.perform env .prepareAllowed fun world =>
      match manager.world.registry.prepareErrorLocked with
      | some cause =>
        { manager with world := world }.withStage call
          (.returning (some (upstreamBuildError call.revision (.config cause))))
      | none => { manager with world := world }.withStage call .allowed
  | .allowed =>
    match manager.world.prepareCall env.platform call.resources with
    | none => .panicked .resourceReference
    | some (world, .error cause) =>
      .next ({ manager with world := world }.withStage call
        (.returning (some (upstreamBuildError call.revision cause))))
    | some (world, .ok candidate) =>
      .next ({ manager with world := world }.withStage call (.building candidate))
  | .building candidate =>
    match manager.world.candidates[candidate]? with
    | none => .blocked
    | some found =>
      .next (manager.withStage call (afterBuild call candidate
        (build env.compilers call.now call.revision call.resources found.plans)))
  | .committing candidate snapshot =>
    manager.perform env (.commit candidate) fun world =>
      { manager with world := world }.withStage call
        (if candidateDone manager.world candidate then
          .finishing candidate (some (revisionError call.revision
            (ascii "SNAPSHOT_INVARIANT_FAILED") (ascii "candidate ownership transfer failed")))
        else .counting candidate snapshot manager.world.sets.length)
  | .counting candidate snapshot plans =>
    manager.perform env (.countCommitted plans) fun world =>
      { manager with world := world }.withStage call (.publishing candidate snapshot plans)
  | .publishing candidate snapshot plans =>
    .next (manager.publish call candidate snapshot plans)
  | .retiring candidate old stage =>
    manager.retireStep env old stage current (retireInApply call candidate old)
  | .finishing candidate result =>
    manager.perform env (.rollback candidate) fun world =>
      { manager with world := world }.withStage call
        (if candidateDone manager.world candidate then .returning result
        else .releasing candidate result)
  | .releasing candidate result =>
    manager.perform env (.rollbackRelease candidate) fun world =>
      { manager with world := world }.withStage call (.returning result)
  | .returning result =>
    .next { manager with owner := none, results := manager.results ++ [result] }

/-! ## Close -/

def Manager.closeStep (manager : Manager) (stage : CloseStage)
    (current : Int) : Result :=
  match stage with
  | .locked => .next { manager with closed := true, owner := some (.close .swapping) }
  | .swapping =>
    .next { manager with
      active := none
      history := manager.history ++ [none]
      owner := some (match manager.active.bind manager.plansOf with
        | none => .close .unlocking
        | some old => .close (.retiring old .start)) }
  | .retiring old stage =>
    manager.retireStep env old stage current (retireInClose old)
  | .unlocking => .next { manager with owner := none }

/-! ## Acquire and Release -/

def Manager.withCall (manager : Manager) (index : Nat) (call : Call) (stage : CallStage) :
    Manager :=
  { manager with calls := manager.calls.set index { call with stage := stage } }

/-- A load of `Acquire` or of `TryAcquire`. -/
def Manager.callLoad (manager : Manager) (index : Nat) : Result :=
  match manager.calls[index]? with
  | none => .blocked
  | some call =>
    match call.stage with
    | .loading =>
      match manager.active with
      | none => .next (manager.withCall index call (.refused none))
      | some snapshot => .next (manager.withCall index call (.acquiring snapshot))
    | .acquiring snapshot =>
      match (manager.plansOf snapshot).bind (manager.world.sets[·]?) with
      | none => .blocked
      | some set =>
        if set.refs ≤ 0 then .next (manager.withCall index call (.rechecking snapshot))
        else .next manager
    | .rechecking snapshot =>
      if manager.active = some snapshot then
        .next (manager.withCall index call (.refused (some snapshot)))
      else .next (manager.withCall index call .loading)
    | .refused _ | .leased _ _ => .blocked

/-- The compare-and-swap of `TryAcquire`, and the return of `Acquire` with it. -/
def Manager.callSwap (manager : Manager) (index : Nat)
    (current : Int) : Result :=
  match manager.calls[index]? with
  | none => .blocked
  | some call =>
    match call.stage with
    | .acquiring snapshot =>
      match manager.plansOf snapshot with
      | none => .blocked
      | some plans =>
        manager.perform env (.tryAcquire plans current) fun world =>
          if countIs manager.world plans current then
            { manager.withCall index call (.leased snapshot manager.history.length) with
              world := world
              leases := manager.leases ++ [⟨snapshot, .held⟩] }
          else { manager with world := world }
    | .loading | .rechecking _ | .refused _ | .leased _ _ => .blocked

def Manager.releaseLease (manager : Manager) (index : Nat) : Result :=
  match manager.leases[index]? with
  | none => .blocked
  | some lease =>
    if lease.phase = .held then
      .next { manager with leases := manager.leases.set index { lease with phase := .releasing } }
    else .next manager

/-- The loop of `PlanSet.Release`, for a lease that is being released. -/
def Manager.leaseLoad (manager : Manager) (index : Nat) : Result :=
  match manager.leases[index]? with
  | none => .blocked
  | some lease =>
    match lease.phase, manager.plansOf lease.snapshot with
    | .releasing, some plans =>
      manager.perform env (.releaseLoad plans) fun world =>
        { manager with world := world }
    | _, _ => .blocked

def Manager.leaseSwap (manager : Manager) (index : Nat)
    (current : Int) : Result :=
  match manager.leases[index]? with
  | none => .blocked
  | some lease =>
    match lease.phase, manager.plansOf lease.snapshot with
    | .releasing, some plans =>
      manager.perform env (.releaseSwap plans current) fun world =>
        { manager with
          world := world
          leases :=
            if countIs manager.world plans current then
              manager.leases.set index { lease with phase := .released }
            else manager.leases }
    | _, _ => .blocked

/-! ## Runs -/

/-- Steps of the registry that the manager does not take part in; it is closed
only by `Close`, after the manager is. -/
def Manager.allows (manager : Manager) : Upstream.Action → Bool
  | .reapNow _ | .acquireTunnelLease _ _ | .releaseLease _ | .releaseLeaseLocked _ => true
  | .deliver _ => true
  | .close => manager.closed
  | _ => false

inductive Action where
  | lockApply (revision : Nat) (resources : ResourceSet) (now : Int)
  | lockClose
  | owner (current : Int)
  | beginAcquire
  | callLoad (call : Nat)
  | callSwap (call : Nat) (current : Int)
  | releaseLease (lease : Nat)
  | leaseLoad (lease : Nat)
  | leaseSwap (lease : Nat) (current : Int)
  | background (action : Upstream.Action)

def Manager.step (manager : Manager) : Action → Result
  | .lockApply revision resources now =>
    match manager.owner with
    | some _ => .blocked
    | none =>
      .next { manager with owner := some (.apply ⟨revision, resources, now, .locked⟩) }
  | .lockClose =>
    match manager.owner with
    | some _ => .blocked
    | none => .next { manager with owner := some (.close .locked) }
  | .owner current =>
    match manager.owner with
    | none => .blocked
    | some (.apply call) => manager.applyStep env call current
    | some (.close stage) => manager.closeStep env stage current
  | .beginAcquire =>
    .next { manager with calls := manager.calls ++ [⟨manager.history.length - 1, .loading⟩] }
  | .callLoad call => manager.callLoad call
  | .callSwap call current => manager.callSwap env call current
  | .releaseLease lease => manager.releaseLease lease
  | .leaseLoad lease => manager.leaseLoad env lease
  | .leaseSwap lease current => manager.leaseSwap env lease current
  | .background action =>
    if manager.allows action then
      manager.perform env action fun world => { manager with world := world }
    else .blocked

def Manager.Reachable (maxRetiredSnapshots : Nat)
    (manager : Manager) : Prop :=
  Runs (Manager.step env) (Manager.initial maxRetiredSnapshots) manager

end GGateway.Runtime
