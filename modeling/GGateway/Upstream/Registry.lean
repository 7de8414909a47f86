import GGateway.Library.RefTable
import GGateway.Upstream.Balancer

/-!
# The upstream registry

The state of `Registry` in `internal/upstream/registry.go` and what its critical
sections do to it: `preparePlanLocked` with its partial acquisitions, the loop of
`Prepare` around it, and `releaseRefsLocked`.  A runtime is the object a plan
points to; its `id` stands for its address.
-/

namespace GGateway.Upstream

open Text Model Library Library.RefTable

/-! ## Runtimes and plans -/

structure EndpointRuntime where
  id : Nat
  identity : Bytes
  target : URL
  deriving DecidableEq

structure TransportRuntime where
  id : Nat
  key : TransportKey
  deriving DecidableEq

structure SelectionState where
  id : Nat
  deriving DecidableEq

/-- A health tracker together with its registration; both carry the generation,
which no other tracker has. -/
structure HealthRuntime where
  generation : Nat
  identity : Bytes
  policy : HealthPolicy
  target : URL
  transport : TransportRuntime
  deriving DecidableEq

structure BudgetRuntime where
  id : Nat
  policy : RetryBudgetPolicy
  deriving DecidableEq

structure PlanEndpoint where
  runtime : EndpointRuntime
  health : Option HealthRuntime
  identity : Bytes
  weight : Nat
  deriving DecidableEq

structure Plan where
  id : Bytes
  algorithm : BalancerType
  endpoints : List PlanEndpoint
  transport : TransportRuntime
  transportKey : TransportKey
  selection : SelectionState
  wrr : WRRSelector
  continuum : Continuum
  hashKey : List HashKeySource
  budget : Option BudgetRuntime
  deriving DecidableEq

/-- `resourceRefs`: one key for each reference taken. -/
structure ResourceRefs where
  endpointIDs : List Bytes
  transportKeys : List TransportKey
  selectionKeys : List SelectionKey
  healthKeys : List HealthKey
  budgetKeys : List BudgetKey
  deriving DecidableEq

def ResourceRefs.empty : ResourceRefs :=
  ⟨[], [], [], [], []⟩

/-! ## Statistics -/

structure RegistryStats where
  liveEndpoints : Nat
  liveTransports : Nat
  liveSelectionStates : Nat
  liveHealthTrackers : Nat
  liveRetryBudgets : Nat
  activePlanSets : Int
  retiredPlanSets : Nat
  liveTunnelLeases : Int
  deriving DecidableEq

inductive GenerationAction where
  | create
  | reuse
  | retire
  deriving DecidableEq, Repr

structure TransportGenerationDelta where
  action : GenerationAction
  tls : Bool
  protocol : TransportProtocol
  count : Int
  deriving DecidableEq

def addTransportGenerationDelta (deltas : List TransportGenerationDelta)
    (action : GenerationAction) (tls : Bool) (protocol : TransportProtocol) (count : Int) :
    List TransportGenerationDelta :=
  if count ≤ 0 then deltas
  else
    match deltas with
    | [] => [⟨action, tls, protocol, count⟩]
    | delta :: rest =>
      if delta.action = action ∧ delta.tls = tls ∧ delta.protocol = protocol then
        { delta with count := delta.count + count } :: rest
      else delta :: addTransportGenerationDelta rest action tls protocol count

structure PrepareStats where
  createdEndpoints : Nat
  reusedEndpoints : Nat
  createdTransports : Nat
  reusedTransports : Nat
  createdSelections : Nat
  reusedSelections : Nat
  wrrSlots : Nat
  hashPoints : Nat
  createdHealthTrackers : Nat
  reusedHealthTrackers : Nat
  createdRetryBudgets : Nat
  reusedRetryBudgets : Nat
  transportGenerations : List TransportGenerationDelta
  current : RegistryStats
  deriving DecidableEq

structure CleanupStats where
  releasedEndpoints : Nat
  releasedTransports : Nat
  closedTransports : Nat
  releasedHealthTrackers : Nat
  releasedRetryBudgets : Nat
  transportGenerations : List TransportGenerationDelta
  current : RegistryStats
  deriving DecidableEq

def RegistryStats.zero : RegistryStats :=
  ⟨0, 0, 0, 0, 0, 0, 0, 0⟩

def PrepareStats.zero : PrepareStats :=
  ⟨0, 0, 0, 0, 0, 0, 0, 0, 0, 0, 0, 0, [], .zero⟩

def CleanupStats.zero : CleanupStats :=
  ⟨0, 0, 0, 0, 0, [], .zero⟩

/-! ## The registry -/

/-- `Registry` under its mutex.  `retired` holds the indices of the retired plan
sets, `allocated` is the next unused address, and `retiredRegistrations` are the
generations of the health registrations that have been retired. -/
structure Registry where
  maxRetiredSnapshots : Nat
  closed : Bool
  endpoints : Table Bytes EndpointRuntime
  transports : Table TransportKey TransportRuntime
  selections : Table SelectionKey SelectionState
  health : Table HealthKey HealthRuntime
  budgets : Table BudgetKey BudgetRuntime
  generation : Nat
  activePlanSets : Int
  liveTunnelLeases : Int
  retired : List Nat
  allocated : Nat
  retiredRegistrations : Finset Nat
  deriving DecidableEq

def Registry.initial (maxRetiredSnapshots : Nat) : Registry :=
  ⟨maxRetiredSnapshots, false, ∅, ∅, ∅, ∅, ∅, 0, 0, 0, [], 0, ∅⟩

variable (registry : Registry)

def Registry.statsLocked : RegistryStats where
  liveEndpoints := registry.endpoints.keys.card
  liveTransports := registry.transports.keys.card
  liveSelectionStates := registry.selections.keys.card
  liveHealthTrackers := registry.health.keys.card
  liveRetryBudgets := registry.budgets.keys.card
  activePlanSets := registry.activePlanSets
  retiredPlanSets := registry.retired.length
  liveTunnelLeases := registry.liveTunnelLeases

def Registry.prepareErrorLocked : Option ConfigError :=
  if registry.closed then
    some ⟨.registryClosed, ascii "upstreams", [], some (.text (ascii "registry is closed"))⟩
  else if registry.maxRetiredSnapshots ≤ registry.retired.length then
    some ⟨.retiredSnapshotLimit, ascii "runtime.max_retired_snapshots", [],
      some (.text (ascii "retired plan sets reached " ++ decimal registry.maxRetiredSnapshots))⟩
  else none

/-- Drop one reference for each key; `none` is one of the underflow panics. -/
def Registry.releaseRefsLocked (owned : ResourceRefs) :
    Option (Registry × CleanupStats × List TransportRuntime) := do
  let (endpoints, _) ← releaseAll owned.endpointIDs registry.endpoints
  let (transports, closed) ← releaseAll owned.transportKeys registry.transports
  let (selections, _) ← releaseAll owned.selectionKeys registry.selections
  let (health, retired) ← releaseAll owned.healthKeys registry.health
  let (budgets, _) ← releaseAll owned.budgetKeys registry.budgets
  let next :=
    { registry with
      endpoints := endpoints
      transports := transports
      selections := selections
      health := health
      budgets := budgets
      retiredRegistrations := registry.retiredRegistrations ∪
        (retired.map fun dropped => dropped.2.generation).toFinset }
  let cleanup : CleanupStats :=
    { releasedEndpoints := owned.endpointIDs.length
      releasedTransports := owned.transportKeys.length
      closedTransports := closed.length
      releasedHealthTrackers := owned.healthKeys.length
      releasedRetryBudgets := owned.budgetKeys.length
      transportGenerations := closed.foldl (fun deltas dropped =>
        addTransportGenerationDelta deltas .retire dropped.1.tlsEnabled dropped.1.protocol 1) []
      current := next.statsLocked }
  some (next, cleanup, closed.map Prod.snd)

/-! ## Preparing one plan -/

/-- Why a plan or a candidate is rejected; `other` is an error without a code. -/
inductive PrepareError where
  | config (cause : ConfigError)
  | other (cause : Cause)
  deriving DecidableEq

/-- What `Prepare` changes while it holds the mutex. -/
structure Preparing where
  registry : Registry
  owned : ResourceRefs
  stats : PrepareStats

variable (p : Preparing)

/-- The first part of `preparePlanLocked`: find or create the transport. -/
def Preparing.takeTransport (key : TransportKey) : Preparing × TransportRuntime :=
  let fresh : TransportRuntime := ⟨p.registry.allocated, key⟩
  let created := (p.registry.transports.lookup key).isNone
  let generations := addTransportGenerationDelta p.stats.transportGenerations
    (if created then .create else .reuse) key.tlsEnabled key.protocol 1
  ({ registry :=
      { p.registry with
        transports := acquire p.registry.transports key fresh
        allocated := p.registry.allocated + 1 }
     owned := { p.owned with transportKeys := p.owned.transportKeys ++ [key] }
     stats :=
      if created then
        { p.stats with
          createdTransports := p.stats.createdTransports + 1
          transportGenerations := generations }
      else
        { p.stats with
          reusedTransports := p.stats.reusedTransports + 1
          transportGenerations := generations } },
    (counted p.registry.transports key fresh).runtime)

def Preparing.takeSelection (key : SelectionKey) : Preparing × SelectionState :=
  let fresh : SelectionState := ⟨p.registry.allocated⟩
  let created := (p.registry.selections.lookup key).isNone
  ({ registry :=
      { p.registry with
        selections := acquire p.registry.selections key fresh
        allocated := p.registry.allocated + 1 }
     owned := { p.owned with selectionKeys := p.owned.selectionKeys ++ [key] }
     stats :=
      if created then { p.stats with createdSelections := p.stats.createdSelections + 1 }
      else { p.stats with reusedSelections := p.stats.reusedSelections + 1 } },
    (counted p.registry.selections key fresh).runtime)

variable (platform : Platform)

/-- `newEndpointRuntime`, up to the address. -/
def endpointTarget (upstreamID : Bytes) (endpoint : Endpoint) :
    Except PrepareError URL :=
  match platform.parseURL endpoint.url with
  | .error cause => .error (.other (.quoting (ascii "upstream ") upstreamID
      (ascii " endpoint: " ++ cause)))
  | .ok target =>
    if (target.scheme = ascii "http" ∨ target.scheme = ascii "https") ∧ target.host ≠ [] then
      .ok target
    else .error (.other (.quoting (ascii "upstream ") upstreamID
      (ascii " endpoint: expected HTTP or HTTPS URL with host")))

/-- Take one reference to an endpoint; `target` is used for a new one. -/
def Preparing.takeEndpoint (identity : Bytes) (target : URL) :
    Preparing × EndpointRuntime :=
  let fresh : EndpointRuntime := ⟨p.registry.allocated, identity, target⟩
  let created := (p.registry.endpoints.lookup identity).isNone
  ({ registry :=
      { p.registry with
        endpoints := acquire p.registry.endpoints identity fresh
        allocated := p.registry.allocated + 1 }
     owned := { p.owned with endpointIDs := p.owned.endpointIDs ++ [identity] }
     stats :=
      if created then { p.stats with createdEndpoints := p.stats.createdEndpoints + 1 }
      else { p.stats with reusedEndpoints := p.stats.reusedEndpoints + 1 } },
    (counted p.registry.endpoints identity fresh).runtime)

/-- The generation counter moves only when a tracker is created. -/
def Preparing.takeHealth (key : HealthKey) (policy : HealthPolicy)
    (endpoint : EndpointRuntime) (transport : TransportRuntime) : Preparing × HealthRuntime :=
  let fresh : HealthRuntime :=
    ⟨p.registry.generation + 1, endpoint.identity, policy, endpoint.target, transport⟩
  let created := (p.registry.health.lookup key).isNone
  ({ registry :=
      { p.registry with
        health := acquire p.registry.health key fresh
        generation := if created then p.registry.generation + 1 else p.registry.generation }
     owned := { p.owned with healthKeys := p.owned.healthKeys ++ [key] }
     stats :=
      if created then { p.stats with createdHealthTrackers := p.stats.createdHealthTrackers + 1 }
      else { p.stats with reusedHealthTrackers := p.stats.reusedHealthTrackers + 1 } },
    (counted p.registry.health key fresh).runtime)

def Preparing.takeBudget (key : BudgetKey) (policy : RetryBudgetPolicy) :
    Preparing × BudgetRuntime :=
  let fresh : BudgetRuntime := ⟨p.registry.allocated, policy⟩
  let created := (p.registry.budgets.lookup key).isNone
  ({ registry :=
      { p.registry with
        budgets := acquire p.registry.budgets key fresh
        allocated := p.registry.allocated + 1 }
     owned := { p.owned with budgetKeys := p.owned.budgetKeys ++ [key] }
     stats :=
      if created then { p.stats with createdRetryBudgets := p.stats.createdRetryBudgets + 1 }
      else { p.stats with reusedRetryBudgets := p.stats.reusedRetryBudgets + 1 } },
    (counted p.registry.budgets key fresh).runtime)

/-- The target of an endpoint: a registered one keeps the target it has. -/
def Preparing.targetOf (upstreamID : Bytes)
    (endpoint : Endpoint) : Except PrepareError URL :=
  match p.registry.endpoints.lookup (endpointIdentity upstreamID endpoint.url) with
  | some entry => .ok entry.runtime.target
  | none => endpointTarget platform upstreamID endpoint

/-- The health tracker of an endpoint that takes traffic, if the upstream probes. -/
def prepareHealth (resource : Upstream) (transportKey : TransportKey)
    (transport : TransportRuntime) (endpoint : EndpointRuntime) (identity : Bytes)
    (p : Preparing) : Preparing × Option HealthRuntime :=
  match resource.health.active with
  | none => (p, none)
  | some _ =>
    let key := makeHealthKey platform identity resource.health transportKey
    let (p, health) := p.takeHealth key resource.health endpoint transport
    (p, some health)

/-- The loop over the endpoints.  A failure leaves what was acquired before it in
the state. -/
def prepareEndpoints (platform : Platform) (resource : Upstream) (transportKey : TransportKey)
    (transport : TransportRuntime) :
    List Endpoint → Preparing → Preparing × Except PrepareError (List PlanEndpoint)
  | [], p => (p, .ok [])
  | endpoint :: rest, p =>
    let identity := endpointIdentity resource.id endpoint.url
    match p.targetOf platform resource.id endpoint with
    | .error cause => (p, .error cause)
    | .ok target =>
      let (p, runtime) := p.takeEndpoint identity target
      if endpoint.weight = 0 then
        prepareEndpoints platform resource transportKey transport rest p
      else
        let (p, health) :=
          prepareHealth platform resource transportKey transport runtime identity p
        let (p, others) := prepareEndpoints platform resource transportKey transport rest p
        (p, others.map (⟨runtime, health, identity, endpoint.weight⟩ :: ·))

/-- The budget of a plan; a policy without burst or concurrency has none. -/
def prepareBudget (resource : Upstream) (p : Preparing) :
    Preparing × Option BudgetRuntime :=
  if 0 < resource.retry.budget.burst ∧ 0 < resource.retry.budget.maxInflight then
    let key := makeBudgetKey platform resource.id resource.retry.budget
    let (p, budget) := p.takeBudget key resource.retry.budget
    (p, some budget)
  else (p, none)

/-- The balancer of a plan: a schedule, or a hash key and a continuum. -/
def compileBalancer (resource : Upstream)
    (weighted : List WeightedEndpoint) :
    Except PrepareError (WRRSelector × Continuum × List HashKeySource) :=
  match resource.balancer.type with
  | .weightedRoundRobin =>
    match compileWRR weighted with
    | .error cause => .error (.other (.text cause))
    | .ok selector => .ok (selector, ⟨[], [], 0⟩, [])
  | .consistentHash =>
    match compileHashKey resource.balancer.sources with
    | .error cause => .error (.config cause)
    | .ok extractor =>
      match compileContinuum platform weighted with
      | .error cause => .error (.other (.text cause))
      | .ok compiled => .ok (⟨[], 0⟩, compiled, extractor)
  | .other _ =>
    .error (.config ⟨.balancerTypeInvalid, ascii "upstreams", resource.id, none⟩)

def preparePlanLocked (resource : Upstream) (profile : TransportProfile)
    (p : Preparing) : Preparing × Except PrepareError Plan :=
  let transportKey := makeTransportKey profile
  let (p, transport) := p.takeTransport transportKey
  let (p, selection) := p.takeSelection ⟨resource.id, resource.balancer.type⟩
  match prepareEndpoints platform resource transportKey transport resource.endpoints p with
  | (p, .error cause) => (p, .error cause)
  | (p, .ok endpoints) =>
    let (p, budget) := prepareBudget platform resource p
    let weighted := endpoints.map fun endpoint =>
      (⟨endpoint.identity, endpoint.weight⟩ : WeightedEndpoint)
    match compileBalancer platform resource weighted with
    | .error cause => (p, .error cause)
    | .ok (wrr, continuum, hashKey) =>
      (p, .ok
        { id := resource.id
          algorithm := resource.balancer.type
          endpoints := endpoints
          transport := transport
          transportKey := transportKey
          selection := selection
          wrr := wrr
          continuum := continuum
          hashKey := hashKey
          budget := budget })

/-! ## Preparing a candidate -/

def maxSnapshotWRRSlots : Nat := 8000000
def maxSnapshotHashPoints : Nat := 8000000

/-- Count the slots and points of a compiled plan. -/
def Preparing.countPlan (plan : Plan) : Preparing :=
  { p with
    stats :=
      { p.stats with
        wrrSlots := p.stats.wrrSlots + plan.wrr.schedule.length
        hashPoints := p.stats.hashPoints + plan.continuum.hashes.length } }

/-- The loop of `Prepare` over the normalized upstreams. -/
def preparePlans (platform : Platform) (materials : MaterialIndex) :
    Nat → List Upstream → Preparing → Preparing × Except PrepareError (List (Bytes × Plan))
  | _, [], p => (p, .ok [])
  | index, resource :: rest, p =>
    match compileTransportProfile platform resource materials with
    | .error cause => (p, .error (.config cause))
    | .ok profile =>
      match preparePlanLocked platform resource profile p with
      | (p, .error cause) => (p, .error cause)
      | (p, .ok plan) =>
        let p := p.countPlan plan
        if maxSnapshotWRRSlots < p.stats.wrrSlots ∨
            maxSnapshotHashPoints < p.stats.hashPoints then
          (p, .error (.config ⟨.balancerBudgetExceeded, ascii "upstreams", resource.id,
            some (.text (ascii "balancer budget exceeded at upstream " ++
              decimal index))⟩))
        else
          let (p, others) := preparePlans platform materials (index + 1) rest p
          (p, others.map ((resource.id, plan) :: ·))

/-- What is known after the critical section of `Prepare`. -/
inductive Prepared where
  | failed (cause : PrepareError) (stats : PrepareStats) (cleanup : CleanupStats)
  | candidate (plans : List (Bytes × Plan)) (owned : ResourceRefs) (stats : PrepareStats)

/-- The critical section of `Prepare`; `none` is a panic of the release. -/
def Registry.prepareLocked (platform : Platform)
    (materials : MaterialIndex) (normalized : List Upstream) : Option (Registry × Prepared) :=
  let start : Preparing := ⟨registry, .empty, .zero⟩
  match preparePlans platform materials 0 normalized start with
  | (p, .error cause) =>
    match p.registry.releaseRefsLocked p.owned with
    | none => none
    | some (next, cleanup, _) =>
      some (next, .failed cause { p.stats with current := cleanup.current } cleanup)
  | (p, .ok plans) =>
    some (p.registry,
      .candidate plans p.owned { p.stats with current := p.registry.statsLocked })

end GGateway.Upstream
