import GGateway.Upstream.Registry
import Mathlib.Logic.Relation

/-!
# What preparation and release do to the tables

The five tables of the registry are treated alike through `Kind`.  Every state
that `Prepare` goes through is reached by taking references one at a time, so
each fact about preparation is proved for one reference and holds for the whole
loop, wherever the loop stops.
-/

namespace GGateway.Upstream

open Text Model Library Library.RefTable

inductive Kind where
  | endpoint
  | transport
  | selection
  | health
  | budget
  deriving DecidableEq

@[reducible] def Kind.Key : Kind → Type
  | .endpoint => Bytes
  | .transport => TransportKey
  | .selection => SelectionKey
  | .health => HealthKey
  | .budget => BudgetKey

@[reducible] def Kind.Runtime : Kind → Type
  | .endpoint => EndpointRuntime
  | .transport => TransportRuntime
  | .selection => SelectionState
  | .health => HealthRuntime
  | .budget => BudgetRuntime

instance Kind.decidableEqKey : (kind : Kind) → DecidableEq kind.Key
  | .endpoint => inferInstanceAs (DecidableEq Bytes)
  | .transport => inferInstanceAs (DecidableEq TransportKey)
  | .selection => inferInstanceAs (DecidableEq SelectionKey)
  | .health => inferInstanceAs (DecidableEq HealthKey)
  | .budget => inferInstanceAs (DecidableEq BudgetKey)

def Registry.table (registry : Registry) : (kind : Kind) → Table kind.Key kind.Runtime
  | .endpoint => registry.endpoints
  | .transport => registry.transports
  | .selection => registry.selections
  | .health => registry.health
  | .budget => registry.budgets

def ResourceRefs.keys (owned : ResourceRefs) : (kind : Kind) → List kind.Key
  | .endpoint => owned.endpointIDs
  | .transport => owned.transportKeys
  | .selection => owned.selectionKeys
  | .health => owned.healthKeys
  | .budget => owned.budgetKeys

/-- For each kind, the references that are held, with multiplicity. -/
abbrev Demand := (kind : Kind) → Multiset kind.Key

def ResourceRefs.demand (owned : ResourceRefs) : Demand :=
  fun kind => owned.keys kind

@[simp] theorem ResourceRefs.demand_empty : ResourceRefs.empty.demand = 0 := by
  funext kind
  cases kind <;> rfl

/-- The counts of all five tables are the references held. -/
def Registry.Accounts (registry : Registry) (held : Demand) : Prop :=
  ∀ kind, Counts (registry.table kind) (held kind)

variable {registry next : Registry} {held : Demand} {kind : Kind} {key : kind.Key}
  {p q : Preparing} {owned : ResourceRefs} {platform : Platform}

/-- A key that is held has a runtime. -/
theorem Registry.Accounts.exists_runtime (h : registry.Accounts held) (hkey : key ∈ held kind) :
    ∃ value, runtime? (registry.table kind) key = some value := by
  obtain ⟨entry, hentry, _⟩ := (h kind).exists_entry hkey
  exact ⟨entry.runtime, by rw [runtime?, hentry, Option.map_some]⟩

theorem Registry.table_congr {other : Registry}
    (hendpoints : other.endpoints = registry.endpoints)
    (htransports : other.transports = registry.transports)
    (hselections : other.selections = registry.selections)
    (hhealth : other.health = registry.health) (hbudgets : other.budgets = registry.budgets) :
    other.table = registry.table := by
  funext kind
  cases kind <;> assumption

/-- The part of the registry that preparing and releasing leave alone. -/
structure Registry.SameFrame (before after : Registry) : Prop where
  maxRetiredSnapshots : after.maxRetiredSnapshots = before.maxRetiredSnapshots
  closed : after.closed = before.closed
  activePlanSets : after.activePlanSets = before.activePlanSets
  liveTunnelLeases : after.liveTunnelLeases = before.liveTunnelLeases
  retired : after.retired = before.retired

theorem Registry.SameFrame.refl (registry : Registry) : registry.SameFrame registry :=
  ⟨rfl, rfl, rfl, rfl, rfl⟩

theorem Registry.SameFrame.trans {first second third : Registry} (h : first.SameFrame second)
    (h' : second.SameFrame third) : first.SameFrame third :=
  ⟨h'.1.trans h.1, h'.2.trans h.2, h'.3.trans h.3, h'.4.trans h.4, h'.5.trans h.5⟩

/-! ## Taking references -/

inductive Takes : Preparing → Preparing → Prop where
  | transport (p : Preparing) (key : TransportKey) : Takes p (p.takeTransport key).1
  | selection (p : Preparing) (key : SelectionKey) : Takes p (p.takeSelection key).1
  | endpoint (p : Preparing) (identity : Bytes) (target : URL) :
      Takes p (p.takeEndpoint identity target).1
  | health (p : Preparing) (key : HealthKey) (policy : HealthPolicy) (endpoint : EndpointRuntime)
      (transport : TransportRuntime) : Takes p (p.takeHealth key policy endpoint transport).1
  | budget (p : Preparing) (key : BudgetKey) (policy : RetryBudgetPolicy) :
      Takes p (p.takeBudget key policy).1
  | count (p : Preparing) (plan : Plan) : Takes p (p.countPlan plan)

abbrev TakesAll := Relation.ReflTransGen Takes

theorem prepareHealth_takes (platform : Platform) (resource : Upstream)
    (transportKey : TransportKey) (transport : TransportRuntime) (endpoint : EndpointRuntime)
    (identity : Bytes) (p : Preparing) :
    TakesAll p (prepareHealth platform resource transportKey transport endpoint identity p).1 := by
  unfold prepareHealth
  cases resource.health.active with
  | none => exact .refl
  | some active => exact Relation.ReflTransGen.single (.health p _ _ _ _)

theorem prepareEndpoints_takes (platform : Platform) (resource : Upstream)
    (transportKey : TransportKey) (transport : TransportRuntime) (endpoints : List Endpoint)
    (p : Preparing) :
    TakesAll p (prepareEndpoints platform resource transportKey transport endpoints p).1 := by
  induction endpoints generalizing p with
  | nil => exact .refl
  | cons endpoint rest ih =>
    simp only [prepareEndpoints]
    cases p.targetOf platform resource.id endpoint with
    | error cause => exact .refl
    | ok target =>
      refine Relation.ReflTransGen.head
        (.endpoint p (endpointIdentity resource.id endpoint.url) target) ?_
      dsimp only
      by_cases hweight : endpoint.weight = 0
      · rw [if_pos hweight]
        exact ih _
      · rw [if_neg hweight]
        exact (prepareHealth_takes platform resource transportKey transport _ _ _).trans (ih _)

theorem prepareBudget_takes (platform : Platform) (resource : Upstream) (p : Preparing) :
    TakesAll p (prepareBudget platform resource p).1 := by
  unfold prepareBudget
  split
  · exact Relation.ReflTransGen.single (.budget p _ _)
  · exact .refl

theorem preparePlanLocked_takes (platform : Platform) (resource : Upstream)
    (profile : TransportProfile) (p : Preparing) :
    TakesAll p (preparePlanLocked platform resource profile p).1 := by
  unfold preparePlanLocked
  dsimp only
  refine Relation.ReflTransGen.head (.transport p (makeTransportKey profile))
    (Relation.ReflTransGen.head (.selection _ ⟨resource.id, resource.balancer.type⟩) ?_)
  have hendpoints := prepareEndpoints_takes platform resource (makeTransportKey profile)
    (p.takeTransport (makeTransportKey profile)).2 resource.endpoints
    ((p.takeTransport (makeTransportKey profile)).1.takeSelection
      ⟨resource.id, resource.balancer.type⟩).1
  split
  · rename_i q cause hq
    rw [hq] at hendpoints
    exact hendpoints
  · rename_i q endpoints hq
    rw [hq] at hendpoints
    have hall := hendpoints.trans (prepareBudget_takes platform resource q)
    split <;> exact hall

theorem preparePlans_takes (platform : Platform) (materials : MaterialIndex) (index : Nat)
    (resources : List Upstream) (p : Preparing) :
    TakesAll p (preparePlans platform materials index resources p).1 := by
  induction resources generalizing index p with
  | nil => exact .refl
  | cons resource rest ih =>
    simp only [preparePlans]
    split
    · exact .refl
    rename_i profile _
    have hplan := preparePlanLocked_takes platform resource profile p
    split
    · rename_i q cause hq
      rw [hq] at hplan
      exact hplan
    rename_i q plan hq
    rw [hq] at hplan
    have hcount := hplan.tail (.count q plan)
    split
    · exact hcount
    · exact hcount.trans (ih _ _)

/-- One reference is taken: one table counts it, and it is noted as owned. -/
structure Took (p q : Preparing) (kind : Kind) (key : kind.Key) (fresh : kind.Runtime) : Prop where
  table : q.registry.table =
    Function.update p.registry.table kind (acquire (p.registry.table kind) key fresh)
  keys : q.owned.keys = Function.update p.owned.keys kind (p.owned.keys kind ++ [key])

theorem takeTransport_took (p : Preparing) (key : TransportKey) :
    Took p (p.takeTransport key).1 .transport key ⟨p.registry.allocated, key⟩ := by
  constructor <;> (funext kind; cases kind <;> rfl)

theorem takeSelection_took (p : Preparing) (key : SelectionKey) :
    Took p (p.takeSelection key).1 .selection key ⟨p.registry.allocated⟩ := by
  constructor <;> (funext kind; cases kind <;> rfl)

theorem takeEndpoint_took (p : Preparing) (identity : Bytes) (target : URL) :
    Took p (p.takeEndpoint identity target).1 .endpoint identity
      ⟨p.registry.allocated, identity, target⟩ := by
  constructor <;> (funext kind; cases kind <;> rfl)

theorem takeHealth_took (p : Preparing) (key : HealthKey) (policy : HealthPolicy)
    (endpoint : EndpointRuntime) (transport : TransportRuntime) :
    Took p (p.takeHealth key policy endpoint transport).1 .health key
      ⟨p.registry.generation + 1, endpoint.identity, policy, endpoint.target, transport⟩ := by
  constructor <;> (funext kind; cases kind <;> rfl)

theorem takeBudget_took (p : Preparing) (key : BudgetKey) (policy : RetryBudgetPolicy) :
    Took p (p.takeBudget key policy).1 .budget key ⟨p.registry.allocated, policy⟩ := by
  constructor <;> (funext kind; cases kind <;> rfl)

/-- A step takes one reference or only counts slots and points. -/
theorem Takes.took_or_same (h : Takes p q) :
    (∃ kind key fresh, Took p q kind key fresh) ∨
      (q.registry = p.registry ∧ q.owned = p.owned) := by
  cases h with
  | transport key => exact Or.inl ⟨_, _, _, takeTransport_took p key⟩
  | selection key => exact Or.inl ⟨_, _, _, takeSelection_took p key⟩
  | endpoint identity target => exact Or.inl ⟨_, _, _, takeEndpoint_took p identity target⟩
  | health key policy endpoint transport =>
    exact Or.inl ⟨_, _, _, takeHealth_took p key policy endpoint transport⟩
  | budget key policy => exact Or.inl ⟨_, _, _, takeBudget_took p key policy⟩
  | count plan => exact Or.inr ⟨rfl, rfl⟩

theorem TakesAll.sameFrame (h : TakesAll p q) : p.registry.SameFrame q.registry := by
  induction h with
  | refl => exact .refl _
  | tail _ hstep ih =>
    refine ih.trans ?_
    cases hstep <;> exact ⟨rfl, rfl, rfl, rfl, rfl⟩

/-- Taking references keeps the counts right, whoever holds the other ones. -/
theorem TakesAll.accounts (h : TakesAll p q) (hp : p.registry.Accounts (held + p.owned.demand)) :
    q.registry.Accounts (held + q.owned.demand) := by
  induction h with
  | refl => exact hp
  | tail _ hstep ih =>
    obtain ⟨kind, key, fresh, htook⟩ | ⟨hregistry, howned⟩ := hstep.took_or_same
    · intro other
      have hbefore := ih other
      simp only [Pi.add_apply, ResourceRefs.demand] at hbefore ⊢
      rw [htook.table, htook.keys]
      by_cases hother : other = kind
      · subst hother
        rw [Function.update_self, Function.update_self, ← Multiset.coe_add,
          Multiset.coe_singleton, ← add_assoc, add_comm, Multiset.singleton_add]
        exact hbefore.acquire key fresh
      · rwa [Function.update_of_ne hother, Function.update_of_ne hother]
    · rw [hregistry, howned]
      exact ih

theorem TakesAll.runtime (h : TakesAll p q) {value : kind.Runtime}
    (hp : runtime? (p.registry.table kind) key = some value) :
    runtime? (q.registry.table kind) key = some value := by
  induction h with
  | refl => exact hp
  | tail _ hstep ih =>
    obtain ⟨other, key', fresh, htook⟩ | ⟨hregistry, _⟩ := hstep.took_or_same
    · rw [htook.table]
      by_cases hkind : kind = other
      · subst hkind
        rw [Function.update_self]
        exact runtime?_acquire_of_some ih
      · rwa [Function.update_of_ne hkind]
    · rwa [hregistry]

theorem TakesAll.mem_keys (h : TakesAll p q) (hp : key ∈ p.owned.keys kind) :
    key ∈ q.owned.keys kind := by
  induction h with
  | refl => exact hp
  | tail _ hstep ih =>
    obtain ⟨other, key', fresh, htook⟩ | ⟨_, howned⟩ := hstep.took_or_same
    · rw [htook.keys]
      by_cases hkind : kind = other
      · subst hkind
        rw [Function.update_self]
        exact List.mem_append_left _ ih
      · rwa [Function.update_of_ne hkind]
    · rwa [howned]

/-! ## What a plan points to -/

/-- A runtime is registered under a key that is owned. -/
def Pinned (registry : Registry) (owned : ResourceRefs) (kind : Kind) (key : kind.Key)
    (value : kind.Runtime) : Prop :=
  key ∈ owned.keys kind ∧ runtime? (registry.table kind) key = some value

theorem TakesAll.pinned (h : TakesAll p q) {value : kind.Runtime}
    (hp : Pinned p.registry p.owned kind key value) : Pinned q.registry q.owned kind key value :=
  ⟨h.mem_keys hp.1, h.runtime hp.2⟩

theorem Took.pinned {fresh : kind.Runtime} (h : Took p q kind key fresh) :
    Pinned q.registry q.owned kind key
      (counted (p.registry.table kind) key fresh).runtime := by
  constructor
  · rw [h.keys, Function.update_self]
    exact List.mem_append_right _ (List.mem_singleton_self key)
  · rw [h.table, Function.update_self]
    exact runtime?_acquire_self key fresh

/-- The runtimes of one endpoint of a plan are pinned. -/
structure PlanEndpoint.IsPinned (endpoint : PlanEndpoint) (registry : Registry)
    (owned : ResourceRefs) : Prop where
  runtime : Pinned registry owned .endpoint endpoint.identity endpoint.runtime
  health : ∀ tracker, endpoint.health = some tracker →
    ∃ key, Pinned registry owned .health key tracker

/-- Every runtime that a plan points to is pinned. -/
structure Plan.IsPinned (plan : Plan) (registry : Registry) (owned : ResourceRefs) : Prop where
  transport : Pinned registry owned .transport plan.transportKey plan.transport
  selection : ∃ key, Pinned registry owned .selection key plan.selection
  endpoints : ∀ endpoint ∈ plan.endpoints, endpoint.IsPinned registry owned
  budget : ∀ budget, plan.budget = some budget → ∃ key, Pinned registry owned .budget key budget

theorem PlanEndpoint.IsPinned.mono {endpoint : PlanEndpoint} {more : ResourceRefs}
    (h : endpoint.IsPinned registry owned)
    (hmono : ∀ kind key value, Pinned registry owned kind key value →
      Pinned next more kind key value) : endpoint.IsPinned next more := by
  refine ⟨hmono _ _ _ h.runtime, ?_⟩
  intro tracker htracker
  obtain ⟨key, hkey⟩ := h.health tracker htracker
  exact ⟨key, hmono _ _ _ hkey⟩

theorem Plan.IsPinned.mono {plan : Plan} {more : ResourceRefs} (h : plan.IsPinned registry owned)
    (hmono : ∀ kind key value, Pinned registry owned kind key value →
      Pinned next more kind key value) : plan.IsPinned next more := by
  obtain ⟨key, hkey⟩ := h.selection
  refine ⟨hmono _ _ _ h.transport, ⟨key, hmono _ _ _ hkey⟩, ?_, ?_⟩
  · intro endpoint hendpoint
    exact (h.endpoints endpoint hendpoint).mono hmono
  · intro budget hbudget
    obtain ⟨key, hkey⟩ := h.budget budget hbudget
    exact ⟨key, hmono _ _ _ hkey⟩

/-- The tracker of an endpoint: one under the key of the endpoint when the upstream
is probed, and none otherwise. -/
def TrackedBy (platform : Platform) (resource : Upstream) (transportKey : TransportKey)
    (registry : Registry) (owned : ResourceRefs) (endpoint : PlanEndpoint) : Prop :=
  (endpoint.health = none ↔ resource.health.active = none) ∧
    ∀ tracker, endpoint.health = some tracker →
      Pinned registry owned .health
        (makeHealthKey platform endpoint.identity resource.health transportKey) tracker

theorem TrackedBy.mono {resource : Upstream} {transportKey : TransportKey} {more : ResourceRefs}
    {endpoint : PlanEndpoint}
    (h : TrackedBy platform resource transportKey registry owned endpoint)
    (hmono : ∀ key value, Pinned registry owned .health key value →
      Pinned next more .health key value) :
    TrackedBy platform resource transportKey next more endpoint :=
  ⟨h.1, fun tracker htracker => hmono _ _ (h.2 tracker htracker)⟩

theorem prepareHealth_tracked (platform : Platform) (resource : Upstream)
    (transportKey : TransportKey) (transport : TransportRuntime) (endpoint : EndpointRuntime)
    (identity : Bytes) (weight : Nat) (p : Preparing) :
    let checked := prepareHealth platform resource transportKey transport endpoint identity p
    TrackedBy platform resource transportKey checked.1.registry checked.1.owned
      ⟨endpoint, checked.2, identity, weight⟩ := by
  intro checked
  have hchecked : checked =
      prepareHealth platform resource transportKey transport endpoint identity p := rfl
  unfold prepareHealth at hchecked
  cases hactive : resource.health.active with
  | none =>
    rw [hactive] at hchecked
    rw [hchecked]
    exact ⟨by simp [hactive], fun tracker htracker => nomatch htracker⟩
  | some active =>
    rw [hactive] at hchecked
    rw [hchecked]
    refine ⟨by simp [hactive], ?_⟩
    intro tracker htracker
    cases htracker
    exact (takeHealth_took p _ resource.health endpoint transport).pinned

section Endpoints

variable {resource : Upstream} {transportKey : TransportKey} {transport : TransportRuntime}
  {endpoints : List Endpoint} {result : List PlanEndpoint}

/-- The loop over the endpoints keeps those that take traffic; for each it takes what the
plan points to, and more after it. -/
theorem prepareEndpoints_each
    (h : prepareEndpoints platform resource transportKey transport endpoints p = (q, .ok result)) :
    result.map (fun endpoint => (endpoint.identity, endpoint.weight)) =
        (endpoints.filter (·.weight ≠ 0)).map (fun endpoint =>
          (endpointIdentity resource.id endpoint.url, endpoint.weight)) ∧
      ∀ endpoint ∈ result, ∃ before target,
        let taken := Preparing.takeEndpoint before endpoint.identity target
        let checked := prepareHealth platform resource transportKey transport taken.2
          endpoint.identity taken.1
        endpoint.runtime = taken.2 ∧ endpoint.health = checked.2 ∧ TakesAll checked.1 q := by
  induction endpoints generalizing p result with
  | nil =>
    simp only [prepareEndpoints, Prod.mk.injEq, Except.ok.injEq] at h
    simp [← h.2]
  | cons first rest ih =>
    simp only [prepareEndpoints] at h
    cases htarget : p.targetOf platform resource.id first with
    | error cause => simp [htarget] at h
    | ok target =>
      rw [htarget] at h
      dsimp only at h
      by_cases hweight : first.weight = 0
      · rw [if_pos hweight] at h
        rw [List.filter_cons_of_neg (by simpa using hweight)]
        exact ih h
      rw [if_neg hweight, Prod.mk.injEq] at h
      obtain ⟨hq, hresult⟩ := h
      obtain ⟨others, hothers, rfl⟩ := Checks.map_eq_ok.mp hresult
      obtain ⟨hlist, hall⟩ := ih (Prod.ext hq hothers)
      rw [List.filter_cons_of_pos (by simpa using hweight), List.map_cons, List.map_cons,
        hlist]
      refine ⟨rfl, List.forall_mem_cons.mpr ⟨⟨p, target, rfl, rfl, ?_⟩, hall⟩⟩
      rw [← hq]
      exact prepareEndpoints_takes platform resource transportKey transport rest _

theorem prepareEndpoints_tracked
    (h : prepareEndpoints platform resource transportKey transport endpoints p = (q, .ok result)) :
    ∀ endpoint ∈ result,
      TrackedBy platform resource transportKey q.registry q.owned endpoint := by
  intro endpoint hendpoint
  obtain ⟨before, target, hruntime, hhealth, hrest⟩ := (prepareEndpoints_each h).2 endpoint hendpoint
  have htracked := (prepareHealth_tracked platform resource transportKey transport _
    endpoint.identity endpoint.weight _).mono fun _ _ => hrest.pinned
  rwa [← hhealth, ← hruntime] at htracked

theorem prepareEndpoints_pinned
    (h : prepareEndpoints platform resource transportKey transport endpoints p = (q, .ok result)) :
    ∀ endpoint ∈ result, endpoint.IsPinned q.registry q.owned := by
  intro endpoint hendpoint
  obtain ⟨before, target, hruntime, _, hrest⟩ := (prepareEndpoints_each h).2 endpoint hendpoint
  have hhealth := prepareHealth_takes platform resource transportKey transport
    (before.takeEndpoint endpoint.identity target).2 endpoint.identity
    (before.takeEndpoint endpoint.identity target).1
  refine ⟨?_, fun tracker htracker =>
    ⟨_, (prepareEndpoints_tracked h endpoint hendpoint).2 tracker htracker⟩⟩
  rw [hruntime]
  exact TakesAll.pinned (hhealth.trans hrest)
    (takeEndpoint_took before endpoint.identity target).pinned

end Endpoints

theorem prepareBudget_pinned (platform : Platform) (resource : Upstream) (p : Preparing) :
    ∀ budget, (prepareBudget platform resource p).2 = some budget →
      ∃ key, Pinned (prepareBudget platform resource p).1.registry
        (prepareBudget platform resource p).1.owned .budget key budget := by
  unfold prepareBudget
  split
  · intro budget hbudget
    cases hbudget
    exact ⟨_, (takeBudget_took p _ resource.retry.budget).pinned⟩
  · intro budget hbudget
    exact nomatch hbudget

theorem preparePlanLocked_pinned {resource : Upstream} {profile : TransportProfile} {plan : Plan}
    (h : preparePlanLocked platform resource profile p = (q, .ok plan)) :
    plan.IsPinned q.registry q.owned := by
  unfold preparePlanLocked at h
  dsimp only at h
  have htransport := (takeTransport_took p (makeTransportKey profile)).pinned
  have hselection := (takeSelection_took (p.takeTransport (makeTransportKey profile)).1
    ⟨resource.id, resource.balancer.type⟩).pinned
  have hfirst := Relation.ReflTransGen.single (Takes.selection
    (p.takeTransport (makeTransportKey profile)).1 ⟨resource.id, resource.balancer.type⟩)
  have hsecond := prepareEndpoints_takes platform resource (makeTransportKey profile)
    (p.takeTransport (makeTransportKey profile)).2 resource.endpoints
    ((p.takeTransport (makeTransportKey profile)).1.takeSelection
      ⟨resource.id, resource.balancer.type⟩).1
  split at h
  · exact nomatch (Prod.mk.inj h).2
  rename_i r endpoints hr
  rw [hr] at hsecond
  have hendpoints := prepareEndpoints_pinned hr
  have hthird := prepareBudget_takes platform resource r
  have hbudget := prepareBudget_pinned platform resource r
  split at h
  · exact nomatch (Prod.mk.inj h).2
  obtain ⟨rfl, hplan⟩ := Prod.mk.inj h
  cases hplan
  refine ⟨TakesAll.pinned (hfirst.trans (hsecond.trans hthird)) htransport,
    ⟨_, TakesAll.pinned (hsecond.trans hthird) hselection⟩, ?_, hbudget⟩
  intro endpoint hendpoint
  exact (hendpoints endpoint hendpoint).mono fun _ _ _ => hthird.pinned

theorem preparePlanLocked_key {resource : Upstream} {profile : TransportProfile} {plan : Plan}
    (h : preparePlanLocked platform resource profile p = (q, .ok plan)) :
    plan.transportKey = makeTransportKey profile := by
  unfold preparePlanLocked at h
  dsimp only at h
  split at h
  · exact nomatch (Prod.mk.inj h).2
  split at h
  · exact nomatch (Prod.mk.inj h).2
  · rw [← Except.ok.inj (Prod.mk.inj h).2]

/-- Each plan was prepared for one of the upstreams, and more was taken after it. -/
theorem preparePlans_each {materials : MaterialIndex} {index : Nat} {resources : List Upstream}
    {plans : List (Bytes × Plan)}
    (h : preparePlans platform materials index resources p = (q, .ok plans)) :
    ∀ entry ∈ plans, ∃ resource ∈ resources, ∃ profile before after,
      compileTransportProfile platform resource materials = .ok profile ∧
      preparePlanLocked platform resource profile before = (after, .ok entry.2) ∧
      entry.1 = resource.id ∧ TakesAll (after.countPlan entry.2) q := by
  induction resources generalizing index p plans with
  | nil =>
    simp only [preparePlans, Prod.mk.injEq, Except.ok.injEq] at h
    simp [← h.2]
  | cons resource rest ih =>
    simp only [preparePlans] at h
    split at h
    · exact nomatch (Prod.mk.inj h).2
    rename_i profile hprofile
    split at h
    · exact nomatch (Prod.mk.inj h).2
    rename_i r plan hr
    split at h
    · exact nomatch (Prod.mk.inj h).2
    obtain ⟨hq, hresult⟩ := Prod.mk.inj h
    have hrest := preparePlans_takes platform materials (index + 1) rest (r.countPlan plan)
    rw [hq] at hrest
    obtain ⟨others, hothers, rfl⟩ := Checks.map_eq_ok.mp hresult
    intro entry hentry
    rcases List.mem_cons.mp hentry with rfl | hentry
    · exact ⟨resource, List.mem_cons_self, profile, p, r, hprofile, hr, rfl, hrest⟩
    · obtain ⟨other, hother, hsource⟩ := ih (Prod.ext hq hothers) entry hentry
      exact ⟨other, List.mem_cons_of_mem _ hother, hsource⟩

theorem preparePlans_pinned {materials : MaterialIndex} {index : Nat} {resources : List Upstream}
    {plans : List (Bytes × Plan)}
    (h : preparePlans platform materials index resources p = (q, .ok plans)) :
    ∀ plan ∈ plans, plan.2.IsPinned q.registry q.owned := by
  intro entry hentry
  obtain ⟨_, _, _, _, _, _, hplan, _, hrest⟩ := preparePlans_each h entry hentry
  exact (preparePlanLocked_pinned hplan).mono fun _ _ _ hpinned =>
    hrest.pinned ⟨hpinned.1, hpinned.2⟩

/-! ## Releasing references -/

/-- The health registrations that are retired when the references are dropped. -/
def Registry.droppedGenerations (registry : Registry) (owned : ResourceRefs)
    (held : Demand) (generation : Nat) : Prop :=
  ∃ key value, Pinned registry owned .health key value ∧ key ∉ held .health ∧
    value.generation = generation

/-- What releasing references does, when `held` are the other ones. -/
structure Registry.Released (registry : Registry) (held : Demand) (owned : ResourceRefs)
    (next : Registry) : Prop where
  frame : registry.SameFrame next
  accounts : next.Accounts held
  runtime : ∀ kind, ∀ key ∈ held kind,
    runtime? (next.table kind) key = runtime? (registry.table kind) key
  generation : next.generation = registry.generation
  retiredRegistrations : ∀ generation, generation ∈ next.retiredRegistrations ↔
    generation ∈ registry.retiredRegistrations ∨
      registry.droppedGenerations owned held generation

/-- Releasing references that are held does not underflow. -/
theorem Registry.Accounts.releaseRefsLocked (h : registry.Accounts (owned.demand + held)) :
    ∃ next cleanup closed, registry.releaseRefsLocked owned = some (next, cleanup, closed) ∧
      registry.Released held owned next := by
  obtain ⟨endpoints, _, hendpoints, hcountE, hkeepE, _⟩ := (h .endpoint).releaseAll
  obtain ⟨transports, closed, htransports, hcountT, hkeepT, _⟩ := (h .transport).releaseAll
  obtain ⟨selections, _, hselections, hcountS, hkeepS, _⟩ := (h .selection).releaseAll
  obtain ⟨health, retired, hhealth, hcountH, hkeepH, hretired, _⟩ := (h .health).releaseAll
  obtain ⟨budgets, _, hbudgets, hcountB, hkeepB, _⟩ := (h .budget).releaseAll
  simp only [ResourceRefs.keys, Registry.table] at hendpoints htransports hselections
  simp only [ResourceRefs.keys, Registry.table] at hhealth hbudgets
  unfold Registry.releaseRefsLocked
  simp only [hendpoints, htransports, hselections, hhealth, hbudgets, Option.bind_eq_bind,
    Option.bind_some]
  refine ⟨_, _, _, rfl, ⟨rfl, rfl, rfl, rfl, rfl⟩, ?_, ?_, rfl, ?_⟩
  · intro kind
    cases kind <;> assumption
  · intro kind
    cases kind <;> assumption
  · intro generation
    rw [Finset.mem_union, List.mem_toFinset, List.mem_map]
    refine or_congr_right ?_
    constructor
    · intro hdropped
      obtain ⟨⟨key, value⟩, hmem, hgeneration⟩ := hdropped
      obtain ⟨howned, hnot, hvalue⟩ := (hretired key value).mp hmem
      exact ⟨key, value, ⟨howned, hvalue⟩, hnot, hgeneration⟩
    · intro hdropped
      obtain ⟨key, value, ⟨howned, hvalue⟩, hnot, hgeneration⟩ := hdropped
      exact ⟨(key, value), (hretired key value).mpr ⟨howned, hnot, hvalue⟩, hgeneration⟩

/-- A rejected or rolled back preparation puts every table back. -/
theorem Registry.Released.table_eq {base : Registry} (h : registry.Released held owned next)
    (hbase : base.Accounts held)
    (hruntime : ∀ kind, ∀ key ∈ held kind,
      runtime? (registry.table kind) key = runtime? (base.table kind) key) :
    next.table = base.table := by
  funext kind
  refine (h.accounts kind).ext (hbase kind) ?_
  intro key hkey
  rw [h.runtime kind key hkey, hruntime kind key hkey]

/-! ## Health registrations -/

/-- Every registration created since `start` belongs to an owned entry that did not
exist then. -/
structure Creates (start p : Preparing) : Prop where
  generation : start.registry.generation ≤ p.registry.generation
  retiredRegistrations : p.registry.retiredRegistrations = start.registry.retiredRegistrations
  created : ∀ generation, start.registry.generation < generation →
    generation ≤ p.registry.generation →
    ∃ key value, Pinned p.registry p.owned .health key value ∧
      start.registry.health.lookup key = none ∧ value.generation = generation

/-- A step that creates no registration. -/
theorem Creates.of_same {start : Preparing} (h : Creates start p)
    (hgeneration : q.registry.generation = p.registry.generation)
    (hretired : q.registry.retiredRegistrations = p.registry.retiredRegistrations)
    (hhealth : q.registry.health = p.registry.health)
    (howned : q.owned.healthKeys = p.owned.healthKeys) : Creates start q := by
  refine ⟨hgeneration ▸ h.generation, hretired.trans h.retiredRegistrations, ?_⟩
  intro generation hafter hbefore
  obtain ⟨key, value, hpinned, hnone, hvalue⟩ := h.created generation hafter (hgeneration ▸ hbefore)
  refine ⟨key, value, ⟨?_, ?_⟩, hnone, hvalue⟩
  · show key ∈ q.owned.healthKeys
    rw [howned]
    exact hpinned.1
  · show runtime? q.registry.health key = some value
    rw [hhealth]
    exact hpinned.2

theorem Creates.takeHealth {start : Preparing} (h : Creates start p) (hruns : TakesAll start p)
    (key : HealthKey) (policy : HealthPolicy) (endpoint : EndpointRuntime)
    (transport : TransportRuntime) :
    Creates start (p.takeHealth key policy endpoint transport).1 := by
  have htook := takeHealth_took p key policy endpoint transport
  have hstep : TakesAll p (p.takeHealth key policy endpoint transport).1 :=
    Relation.ReflTransGen.single (.health p key policy endpoint transport)
  have hold : ∀ generation, start.registry.generation < generation →
      generation ≤ p.registry.generation →
      ∃ other value, Pinned (p.takeHealth key policy endpoint transport).1.registry
        (p.takeHealth key policy endpoint transport).1.owned .health other value ∧
        start.registry.health.lookup other = none ∧ value.generation = generation := by
    intro generation hafter hbefore
    obtain ⟨other, value, hpinned, hkept⟩ := h.created generation hafter hbefore
    exact ⟨other, value, hstep.pinned hpinned, hkept⟩
  cases hlookup : p.registry.health.lookup key with
  | some entry =>
    have hsame : (p.takeHealth key policy endpoint transport).1.registry.generation =
        p.registry.generation := by
      simp [Preparing.takeHealth, hlookup]
    exact ⟨hsame ▸ h.generation, h.retiredRegistrations, hsame ▸ hold⟩
  | none =>
    have hnext : (p.takeHealth key policy endpoint transport).1.registry.generation =
        p.registry.generation + 1 := by
      simp [Preparing.takeHealth, hlookup]
    refine ⟨by rw [hnext]; exact h.generation.trans (Nat.le_succ _), h.retiredRegistrations, ?_⟩
    intro generation hafter hbefore
    rw [hnext] at hbefore
    rcases Nat.lt_or_ge p.registry.generation generation with hnew | hearlier
    · -- the entry that this step creates
      refine ⟨key, _, htook.pinned, ?_, ?_⟩
      · by_contra hsome
        obtain ⟨entry, hentry⟩ := Option.ne_none_iff_exists'.mp hsome
        have hstart : runtime? (start.registry.table .health) key = some entry.runtime := by
          show (start.registry.health.lookup key).map Entry.runtime = _
          rw [hentry, Option.map_some]
        have hkept : (p.registry.health.lookup key).map Entry.runtime = some entry.runtime :=
          hruns.runtime hstart
        rw [hlookup] at hkept
        contradiction
      · show (counted p.registry.health key _).runtime.generation = generation
        rw [counted, hlookup]
        show p.registry.generation + 1 = generation
        omega
    · exact hold generation hafter hearlier

theorem TakesAll.creates {start : Preparing} (h : TakesAll start p) : Creates start p := by
  induction h with
  | refl => exact ⟨le_rfl, rfl, fun generation hafter hbefore => by omega⟩
  | tail hruns hstep ih =>
    cases hstep with
    | transport key => exact ih.of_same rfl rfl rfl rfl
    | selection key => exact ih.of_same rfl rfl rfl rfl
    | endpoint identity target => exact ih.of_same rfl rfl rfl rfl
    | health key policy endpoint transport => exact ih.takeHealth hruns key policy endpoint transport
    | budget key policy => exact ih.of_same rfl rfl rfl rfl
    | count plan => exact ih.of_same rfl rfl rfl rfl

/-- The generation counter has moved, and every registration made meanwhile is
retired. -/
structure Registry.Retires (registry next : Registry) : Prop where
  generation : registry.generation ≤ next.generation
  kept : ∀ generation ∈ registry.retiredRegistrations, generation ∈ next.retiredRegistrations
  created : ∀ generation, registry.generation < generation → generation ≤ next.generation →
    generation ∈ next.retiredRegistrations

/-- Releasing what was acquired retires what was created. -/
theorem Registry.Released.retires {base : Registry} (h : registry.Released held owned next)
    (hgeneration : base.generation ≤ registry.generation)
    (hretired : registry.retiredRegistrations = base.retiredRegistrations)
    (hcreated : ∀ generation, base.generation < generation → generation ≤ registry.generation →
      registry.droppedGenerations owned held generation) : base.Retires next := by
  refine ⟨h.generation ▸ hgeneration, ?_, ?_⟩
  · intro generation hmem
    exact (h.retiredRegistrations generation).mpr (Or.inl (hretired ▸ hmem))
  · intro generation hafter hbefore
    refine (h.retiredRegistrations generation).mpr (Or.inr (hcreated generation hafter ?_))
    rwa [← h.generation]

/-! ## The critical section of `Prepare` -/

/-- What `Prepare` does to the registry when it succeeds. -/
structure Registry.Acquired (registry : Registry) (held : Demand)
    (plans : List (Bytes × Plan)) (owned : ResourceRefs) (next : Registry) : Prop where
  frame : registry.SameFrame next
  accounts : next.Accounts (owned.demand + held)
  runtime : ∀ kind key value, runtime? (registry.table kind) key = some value →
    runtime? (next.table kind) key = some value
  pinned : ∀ plan ∈ plans, plan.2.IsPinned next owned
  generation : registry.generation ≤ next.generation
  retiredRegistrations : next.retiredRegistrations = registry.retiredRegistrations
  created : ∀ generation, registry.generation < generation → generation ≤ next.generation →
    next.droppedGenerations owned held generation

/-- The critical section never panics. -/
theorem Registry.Accounts.prepareLocked (h : registry.Accounts held) (platform : Platform)
    (materials : MaterialIndex) (normalized : List Upstream) :
    (∃ next cause stats cleanup, registry.prepareLocked platform materials normalized =
        some (next, .failed cause stats cleanup) ∧ registry.SameFrame next ∧
        next.table = registry.table ∧ registry.Retires next) ∨
      (∃ next plans owned stats, registry.prepareLocked platform materials normalized =
        some (next, .candidate plans owned stats) ∧ registry.Acquired held plans owned next) := by
  have htakes := preparePlans_takes platform materials 0 normalized ⟨registry, .empty, .zero⟩
  have hcreates := htakes.creates
  have hcreated : ∀ {p : Preparing}, Creates ⟨registry, .empty, .zero⟩ p → ∀ generation,
      registry.generation < generation → generation ≤ p.registry.generation →
      p.registry.droppedGenerations p.owned held generation := by
    intro p hp generation hafter hbefore
    obtain ⟨key, value, hpinned, hnone, hvalue⟩ := hp.created generation hafter hbefore
    exact ⟨key, value, hpinned, (h .health).lookup_eq_none_iff.mp hnone, hvalue⟩
  unfold Registry.prepareLocked
  dsimp only
  have haccounts : registry.Accounts (held + ResourceRefs.empty.demand) := by
    rwa [ResourceRefs.demand_empty, add_zero]
  split
  · rename_i p cause hp
    rw [hp] at htakes hcreates
    have hafter := htakes.accounts haccounts
    rw [add_comm] at hafter
    obtain ⟨next, cleanup, closed, hrelease, hreleased⟩ := hafter.releaseRefsLocked
    refine Or.inl ⟨next, cause, { p.stats with current := cleanup.current }, cleanup, ?_,
      htakes.sameFrame.trans hreleased.frame, ?_, ?_⟩
    · rw [hrelease]
    · refine hreleased.table_eq h ?_
      intro kind key hkey
      obtain ⟨value, hvalue⟩ := h.exists_runtime hkey
      rw [hvalue]
      exact htakes.runtime hvalue
    · exact hreleased.retires hcreates.generation hcreates.retiredRegistrations (hcreated hcreates)
  · rename_i p plans hp
    rw [hp] at htakes hcreates
    refine Or.inr ⟨p.registry, plans, p.owned, _, rfl, htakes.sameFrame, ?_, ?_,
      preparePlans_pinned hp, hcreates.generation, hcreates.retiredRegistrations,
      hcreated hcreates⟩
    · rw [add_comm]
      exact htakes.accounts haccounts
    · intro kind key value hvalue
      exact htakes.runtime hvalue

end GGateway.Upstream
