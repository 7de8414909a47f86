import GGateway.Runtime.Provenance
import GGateway.Upstream.Canonical

/-!
# Effective retry policies

A route may override fields of the retry policy of its upstream.  `Normalize` has
checked the policy of the upstream; nothing on the way from the decoder to `Build`
checks the override.  So the effective policy is within the bounds of upstream policies
exactly when the override is.
-/

namespace GGateway.Runtime

open Text Model Library.Transition Library.Checks Library.SortedSet
open GGateway.Upstream (millisecond minute retryableStatus)

/-! ## Bounds -/

/-- A method that `retryEligible` recognises: a token without small letters. -/
def UpperToken (method : Bytes) : Prop :=
  validToken method = true ∧ ∀ byte ∈ method, isLowerLetter byte = false

def AttemptBounds (attempts : UInt8) : Prop :=
  1 ≤ attempts ∧ attempts ≤ 5

def TimeoutBounds (timeout : Int) : Prop :=
  timeout = 0 ∨ (millisecond ≤ timeout ∧ timeout ≤ 10 * minute)

instance (attempts : UInt8) : Decidable (AttemptBounds attempts) :=
  inferInstanceAs (Decidable (_ ∧ _))

instance (timeout : Int) : Decidable (TimeoutBounds timeout) :=
  inferInstanceAs (Decidable (_ ∨ _))

/-- What `Normalize` demands of the policy of an upstream, apart from the budget. -/
structure BoundedRetry (policy : RetryPolicy) : Prop where
  maxAttempts : AttemptBounds policy.maxAttempts
  totalTimeout : TimeoutBounds policy.totalTimeout
  methods : ∀ method ∈ policy.methods, UpperToken method
  statuses : ∀ status ∈ policy.retryOn.statuses, retryableStatus status = true

/-- The same of the fields that a route overrides. -/
structure BoundedOverride (override : RouteResiliencePolicy) : Prop where
  maxAttempts : ∀ attempts ∈ override.maxAttempts, AttemptBounds attempts
  totalTimeout : ∀ timeout ∈ override.totalTimeout, TimeoutBounds timeout
  methods : ∀ methods ∈ override.methods, ∀ method ∈ methods, UpperToken method
  statuses : ∀ retryOn ∈ override.retryOn,
    ∀ status ∈ retryOn.statuses, retryableStatus status = true

/-- A field that is overridden, or else inherited from a value that is fine. -/
theorem getD_iff {α : Type*} {P : α → Prop} {inherited : α} (h : P inherited)
    (override : Option α) : P (override.getD inherited) ↔ ∀ value ∈ override, P value := by
  cases override with
  | none => simpa using h
  | some value => simp

/-- The policy that `effectiveRetryPolicy` starts from. -/
def inheritedRetry (base : RetryPolicy) : RetryPolicy :=
  { base with maxAttempts := if base.maxAttempts = 0 then 1 else base.maxAttempts }

theorem bounded_effectiveRetryPolicy_iff {base : RetryPolicy}
    (hbase : BoundedRetry (inheritedRetry base)) (override : RouteResiliencePolicy) :
    BoundedRetry (effectiveRetryPolicy base override) ↔ BoundedOverride override := by
  have hattempts := getD_iff hbase.maxAttempts override.maxAttempts
  have htimeout := getD_iff hbase.totalTimeout override.totalTimeout
  have hmethods := getD_iff (P := fun methods => ∀ method ∈ methods, UpperToken method)
    hbase.methods override.methods
  have hstatuses := getD_iff
    (P := fun retryOn : RetryOnPolicy => ∀ status ∈ retryOn.statuses, retryableStatus status = true)
    hbase.statuses override.retryOn
  constructor
  · intro h
    exact ⟨hattempts.mp h.maxAttempts, htimeout.mp h.totalTimeout, hmethods.mp h.methods,
      hstatuses.mp h.statuses⟩
  · intro h
    exact ⟨hattempts.mpr h.maxAttempts, htimeout.mpr h.totalTimeout, hmethods.mpr h.methods,
      hstatuses.mpr h.statuses⟩

/-- What `Normalize` leaves is within the bounds. -/
theorem bounded_of_normalizeRetry {tables : UnicodeTables} (htables : tables.Uppers)
    {upstreamID field : Bytes} {policy result : RetryPolicy}
    (h : Upstream.normalizeRetry tables upstreamID field policy = .ok result) :
    BoundedRetry (inheritedRetry result) := by
  cases hlegacy : Upstream.retryPolicyIsLegacy policy with
  | true =>
    rw [Upstream.normalizeRetry, if_pos hlegacy] at h
    cases h
    exact ⟨by decide, Or.inl rfl, List.forall_mem_nil _, List.forall_mem_nil _⟩
  | false =>
    rw [Upstream.normalizeRetry_eq_ok hlegacy] at h
    obtain ⟨hbounds, hmethods, hstatuses, rfl⟩ := h
    simp only [Upstream.retryBounds, Bool.and_eq_true, decide_eq_true_eq] at hbounds
    obtain ⟨⟨⟨⟨hattempts, htimeout⟩, _⟩, _⟩, _⟩ := hbounds
    have hpositive : policy.maxAttempts ≠ 0 := by
      rintro hzero
      rw [hzero] at hattempts
      exact absurd hattempts.1 (by decide)
    refine ⟨?_, htimeout, fun method hmethod => ?_, fun status hstatus => ?_⟩
    · show AttemptBounds (if policy.maxAttempts = 0 then 1 else policy.maxAttempts)
      rw [if_neg hpositive]
      exact hattempts
    · have hmem := (mem_sortCompact _ method).mp hmethod
      have htoken := hmethods method hmem
      obtain ⟨raw, _, rfl⟩ := List.mem_map.mp hmem
      exact ⟨htoken, isLowerLetter_of_mem_toUpper htables (lt_of_validToken htoken)⟩
    · exact hstatuses status ((Upstream.mem_normalizeStatuses _ status).mp hstatus)

/-! ## Compiled routes -/

/-- `Build` merges the override of each route into the policy of its upstream. -/
theorem retry_of_buildRoutes {compilers : Compilers} {revision : Nat} {resources : ResourceSet}
    {plans : List (Bytes × Upstream.Plan)} {routes : List Route} {compiled : List CompiledRoute}
    (h : buildRoutes compilers revision resources plans routes = .ok compiled) :
    List.Forall₂ (fun route compiled => compiled.id = route.id ∧ compiled.retry =
      effectiveRetryPolicy (retryOf resources.upstreams compiled.upstreamID) route.resilience)
      routes compiled := by
  induction routes generalizing compiled with
  | nil =>
    cases h
    exact .nil
  | cons route rest ih =>
    simp only [buildRoutes, bind_eq_ok] at h
    obtain ⟨first, hfirst, others, hothers, hresult⟩ := h
    cases hresult
    refine .cons ?_ (ih hothers)
    unfold buildRoute at hfirst
    dsimp only at hfirst
    split at hfirst
    · contradiction
    simp only [bind_eq_ok] at hfirst
    obtain ⟨_, _, _, _, hcompiled⟩ := hfirst
    cases hcompiled
    exact ⟨rfl, rfl⟩

/-- A policy that is looked up among canonical upstreams; a missing upstream has the zero
policy, with one attempt. -/
theorem bounded_retryOf {platform : Upstream.Platform} (htables : platform.tables.Uppers)
    {upstreams : List Upstream}
    (h : ∀ upstream ∈ upstreams, Config.Normalized platform upstream) (id : Bytes) :
    BoundedRetry (inheritedRetry (retryOf upstreams id)) := by
  unfold retryOf
  split
  · rename_i resource hfound
    obtain ⟨field, raw, hnormalized⟩ := h resource (List.mem_of_find?_eq_some hfound)
    simp only [Upstream.normalizeUpstream, bind_eq_ok] at hnormalized
    obtain ⟨_, _, _, _, _, _, _, _, _, _, retry, hretry, hresult⟩ := hnormalized
    cases hresult
    exact bounded_of_normalizeRetry htables hretry
  · exact ⟨by decide, Or.inl rfl, List.forall_mem_nil _, List.forall_mem_nil _⟩

/-- `Validate` accepts the decoded configuration, and the snapshot was built from the result. -/
def ComesFrom (env : Environment) (snapshot : Snapshot) (decoded : ResourceSet) : Prop :=
  BuiltFrom env (fun resources => ∃ version,
    Config.validate env.platform version decoded = .ok resources) snapshot

/-- Route by route, the effective policy is within the bounds exactly if the override is. -/
def BoundsFollow (decoded : List Route) (compiled : List CompiledRoute) : Prop :=
  List.Forall₂ (fun route compiled => compiled.id = route.id ∧
    (BoundedRetry compiled.retry ↔ BoundedOverride route.resilience)) decoded compiled

theorem ComesFrom.boundsFollow {env : Environment}
    (htables : env.platform.tables.Uppers) {snapshot : Snapshot} {decoded : ResourceSet}
    (h : ComesFrom env snapshot decoded) : BoundsFollow decoded.routes snapshot.routes := by
  obtain ⟨resources, now, plans, ⟨version, hvalid⟩, hbuild⟩ := h
  simp only [build, bind_eq_ok] at hbuild
  obtain ⟨_, _, _, _, routes, hroutes, _, _, hsnapshot⟩ := hbuild
  rw [← Except.ok.inj hsnapshot]
  obtain ⟨hnormalized, hkeeps⟩ := Config.validate_spec hvalid
  -- Decoded, validated and compiled routes stand in the same order.
  have hmerged := retry_of_buildRoutes hroutes
  clear hsnapshot
  generalize decoded.routes = decodedRoutes at hkeeps
  generalize resources.routes = validRoutes at hkeeps hmerged hroutes
  clear hroutes
  induction hkeeps generalizing routes with
  | nil =>
    obtain rfl := List.forall₂_nil_left_iff.mp hmerged
    exact .nil
  | cons hkept _ ih =>
    obtain ⟨first, others, ⟨hid, hretry⟩, hothers, rfl⟩ := List.forall₂_cons_left_iff.mp hmerged
    refine .cons ⟨hid.trans hkept.1, ?_⟩ (ih others hothers)
    rw [hretry, hkept.2]
    exact bounded_effectiveRetryPolicy_iff (bounded_retryOf htables hnormalized _) _

/-- In every run in which validated configurations are applied, a published snapshot comes
from a decoded configuration; and in each one that it comes from, the effective policies of the
compiled routes are within the bounds exactly when the overrides are. -/
theorem effective_retry_bounded_iff (env : Environment)
    (htables : env.platform.tables.Uppers) (maxRetiredSnapshots : Nat) (manager : Manager)
    (h : Runs (Deployment.step env) (Manager.initial maxRetiredSnapshots) manager) :
    ∀ published ∈ manager.snapshots,
      (∃ decoded, ComesFrom env published.snapshot decoded) ∧
        ∀ decoded, ComesFrom env published.snapshot decoded →
          BoundsFollow decoded.routes published.snapshot.routes := by
  intro published hpublished
  have hsourced : manager.Sourced env (Validated env) :=
    h.invariant (fun _ _ _ hbefore hstep => hbefore.deploy hstep) (initial_sourced _ _ _)
  obtain ⟨resources, now, plans, ⟨version, decoded, hvalid⟩, hbuild⟩ :=
    hsourced.snapshots published hpublished
  exact ⟨⟨decoded, resources, now, plans, ⟨version, hvalid⟩, hbuild⟩,
    fun _ hdecoded => hdecoded.boundsFollow htables⟩

/-- The sample route with an override. -/
def overriding (override : RouteResiliencePolicy) : ResourceSet :=
  { sampleConfiguration with
    routes := sampleConfiguration.routes.map fun route => { route with resilience := override } }

/-- The steps of a deployment that publishes its first configuration. -/
def deployFirst (override : RouteResiliencePolicy) : List DeployAction :=
  .apply .v1alpha5 (overriding override) 1 0 :: List.replicate 9 (.other (.owner 0))

theorem effective_retry_bounded_iff_three_attempts :
    ∃ manager, Runs (Deployment.step sampleEnvironment) (Manager.initial 4) manager ∧
      manager.snapshots.map (fun published => published.snapshot.routes.map fun compiled =>
        compiled.retry.maxAttempts) = [[3]] ∧
      ∀ published ∈ manager.snapshots,
        (∃ decoded, ComesFrom sampleEnvironment published.snapshot decoded) ∧
          ∀ decoded, ComesFrom sampleEnvironment published.snapshot decoded →
            BoundsFollow decoded.routes published.snapshot.routes := by
  have hrun : (runAll (Deployment.step sampleEnvironment) (deployFirst ⟨none, some 3, none, none⟩)
      (Manager.initial 4)).map (fun manager => manager.snapshots.map fun published =>
        published.snapshot.routes.map fun compiled => compiled.retry.maxAttempts) =
      some [[3]] := by decide +kernel
  obtain ⟨manager, hmanager, hshape⟩ := Option.map_eq_some_iff.mp hrun
  have hruns := runs_of_runAll hmanager
  have htables : sampleEnvironment.platform.tables.Uppers := by
    intro rune hwide hletter
    have hsame : sampleEnvironment.platform.tables.toUpper rune = rune := rfl
    omega
  exact ⟨manager, hruns, hshape,
    effective_retry_bounded_iff sampleEnvironment htables 4 manager hruns⟩

/-- A validated configuration is published with a policy outside every bound: two hundred
attempts, a negative timeout, a method in small letters and a status of success. -/
theorem effective_retry_bounded_fails :
    ∃ manager, Runs (Deployment.step sampleEnvironment) (Manager.initial 4) manager ∧
      ∃ published ∈ manager.snapshots, ∃ compiled ∈ published.snapshot.routes,
        ¬ AttemptBounds compiled.retry.maxAttempts ∧
          ¬ TimeoutBounds compiled.retry.totalTimeout ∧
          compiled.retry.methods = [ascii "get"] ∧ compiled.retry.retryOn.statuses = [200] := by
  let override : RouteResiliencePolicy :=
    ⟨some (-1), some 200, some [ascii "get"], some ⟨true, false, false, [200]⟩⟩
  have hrun : (runAll (Deployment.step sampleEnvironment) (deployFirst override)
      (Manager.initial 4)).map (fun manager => manager.snapshots.map fun published =>
        published.snapshot.routes.map CompiledRoute.retry) =
      some [[⟨200, [ascii "get"], ⟨true, false, false, [200]⟩, ⟨100, 10, 10⟩, -1⟩]] := by
    decide +kernel
  obtain ⟨manager, hmanager, hshape⟩ := Option.map_eq_some_iff.mp hrun
  obtain ⟨published, hpublished, hroutes⟩ : ∃ published ∈ manager.snapshots,
      published.snapshot.routes.map CompiledRoute.retry =
        [⟨200, [ascii "get"], ⟨true, false, false, [200]⟩, ⟨100, 10, 10⟩, -1⟩] :=
    List.mem_map.mp (hshape ▸ List.mem_singleton_self _)
  obtain ⟨compiled, hcompiled, hretry⟩ : ∃ compiled ∈ published.snapshot.routes,
      compiled.retry = ⟨200, [ascii "get"], ⟨true, false, false, [200]⟩, ⟨100, 10, 10⟩, -1⟩ :=
    List.mem_map.mp (hroutes ▸ List.mem_singleton_self _)
  refine ⟨manager, runs_of_runAll hmanager, published, hpublished, compiled, hcompiled, ?_⟩
  rw [hretry]
  exact ⟨by decide, by decide, rfl, rfl⟩

end GGateway.Runtime
