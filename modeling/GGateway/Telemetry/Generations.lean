import GGateway.Upstream.Conservation

/-!
# Transport generations in the telemetry

The registry reports created, reused and retired transports as deltas in the
statistics of its notifications, and `internal/telemetry` adds the deltas of three
of the callbacks to its counters.  This module models those counters and follows
what the registry reports along a run.  A preparation that succeeds reports its
creations in `RegistryPrepared`; if it is then rolled back, `RegistryRolledBack`
reports them again.
-/

set_option linter.dupNamespace false

namespace GGateway.Telemetry

open Model Library Library.RefTable Library.Transition
open GGateway.Upstream (GenerationAction TransportGenerationDelta addTransportGenerationDelta
  PrepareStats CleanupStats Notification Platform Preparing Registry ResourceRefs Takes TakesAll
  TransportKey World KnownProtocol)

/-! ## The counters -/

/-- `transportProtocolIndex`. -/
def transportProtocolIndex : TransportProtocol → Option (Fin 3)
  | .auto => some 0
  | .http1 => some 1
  | .http2 => some 2
  | .other _ => none

/-- The counters `transport_generation_total`, by action, TLS and protocol. -/
structure Telemetry where
  transportLifecycle : GenerationAction → Bool → Fin 3 → Int

def Telemetry.initial : Telemetry :=
  ⟨fun _ _ _ => 0⟩

variable (telemetry : Telemetry)

/-- `Counter.Add` on one series. -/
def Telemetry.add (action : GenerationAction) (tls : Bool)
    (protocol : Fin 3) (count : Int) : Telemetry where
  transportLifecycle other tls' protocol' :=
    if other = action ∧ tls' = tls ∧ protocol' = protocol then
      telemetry.transportLifecycle other tls' protocol' + count
    else telemetry.transportLifecycle other tls' protocol'

/-- One round of the loop of `addTransportGenerations`; every action is known. -/
def Telemetry.addDelta (delta : TransportGenerationDelta) : Telemetry :=
  if delta.count ≤ (0 : Int) then telemetry
  else
    match transportProtocolIndex delta.protocol with
    | none => telemetry
    | some index => telemetry.add delta.action delta.tls index delta.count

def Telemetry.addTransportGenerations
    (deltas : List TransportGenerationDelta) : Telemetry :=
  deltas.foldl Telemetry.addDelta telemetry

/-- The callbacks of the observer, as far as they count generations. -/
def Telemetry.observe : Notification → Telemetry
  | .prepared stats => telemetry.addTransportGenerations stats.transportGenerations
  | .rolledBack stats => telemetry.addTransportGenerations stats.transportGenerations
  | .cleaned stats => telemetry.addTransportGenerations stats.transportGenerations
  | .retired _ | .failed _ => telemetry

/-- What the telemetry has counted of one action, over all its series. -/
def Telemetry.events (action : GenerationAction) : Int :=
  ∑ tls : Bool, ∑ protocol : Fin 3, telemetry.transportLifecycle action tls protocol

/-- The telemetry after the notifications that a registry has delivered. -/
def observed (world : World) : Telemetry :=
  world.delivered.foldl Telemetry.observe .initial

/-! ## Deltas -/

/-- The events of one action in a list of deltas. -/
def reported (action : GenerationAction) (deltas : List TransportGenerationDelta) : Int :=
  total (fun delta => if delta.action = action then delta.count else 0) deltas

/-- Every delta is one that the telemetry counts. -/
def Countable (deltas : List TransportGenerationDelta) : Prop :=
  ∀ delta ∈ deltas, 0 < delta.count ∧ KnownProtocol delta.protocol

theorem events_add (action other : GenerationAction) (tls : Bool)
    (protocol : Fin 3) (count : Int) :
    (telemetry.add action tls protocol count).events other =
      telemetry.events other + if action = other then count else 0 := by
  by_cases hsame : action = other
  · subst hsame
    simp only [Telemetry.events, Telemetry.add, true_and, if_true]
    cases tls <;> fin_cases protocol <;> simp [Fin.sum_univ_three] <;> ring
  · simp only [Telemetry.events, Telemetry.add, Ne.symm hsame, hsame, false_and, if_false, add_zero]

theorem events_addTransportGenerations {deltas : List TransportGenerationDelta}
    (h : Countable deltas) (telemetry : Telemetry) (action : GenerationAction) :
    (telemetry.addTransportGenerations deltas).events action =
      telemetry.events action + reported action deltas := by
  induction deltas generalizing telemetry with
  | nil => simp [Telemetry.addTransportGenerations, reported]
  | cons delta rest ih =>
    obtain ⟨hcount, hknown⟩ := h delta (List.mem_cons_self)
    obtain ⟨index, hindex⟩ : ∃ index, transportProtocolIndex delta.protocol = some index := by
      cases hprotocol : delta.protocol with
      | other text =>
        rw [hprotocol] at hknown
        exact hknown.elim
      | _ => exact ⟨_, rfl⟩
    have hrest := ih (fun other hother => h other (List.mem_cons_of_mem _ hother))
      (telemetry.add delta.action delta.tls index delta.count)
    have hstep : telemetry.addTransportGenerations (delta :: rest) =
        (telemetry.add delta.action delta.tls index delta.count).addTransportGenerations rest := by
      simp only [Telemetry.addTransportGenerations, List.foldl_cons, Telemetry.addDelta]
      rw [if_neg (by omega), hindex]
    rw [hstep, hrest, events_add]
    simp only [reported, total, List.map_cons, List.sum_cons]
    ring

/-- Adding a delta adds its count to its action. -/
theorem reported_add (deltas : List TransportGenerationDelta) (action other : GenerationAction)
    (tls : Bool) (protocol : TransportProtocol) {count : Int} (hcount : 0 < count) :
    reported other (addTransportGenerationDelta deltas action tls protocol count) =
      reported other deltas + if action = other then count else 0 := by
  induction deltas with
  | nil =>
    unfold addTransportGenerationDelta
    rw [if_neg (by omega)]
    simp [reported, total]
  | cons delta rest ih =>
    unfold addTransportGenerationDelta
    rw [if_neg (by omega)]
    dsimp only
    split_ifs with hsame hother hother
    · simp only [reported, total, List.map_cons, List.sum_cons, hsame.1, hother, if_true]
      ring
    · simp only [reported, total, List.map_cons, List.sum_cons, hsame.1, hother, if_false]
      ring
    · rw [if_pos hother] at ih
      simp only [reported, total, List.map_cons, List.sum_cons] at ih ⊢
      rw [ih]
      ring
    · rw [if_neg hother] at ih
      simp only [reported, total, List.map_cons, List.sum_cons] at ih ⊢
      rw [ih]
      ring

theorem Countable.add {deltas : List TransportGenerationDelta} (h : Countable deltas)
    (action : GenerationAction) (tls : Bool) {protocol : TransportProtocol}
    (hknown : KnownProtocol protocol) (count : Int) :
    Countable (addTransportGenerationDelta deltas action tls protocol count) := by
  induction deltas with
  | nil =>
    unfold addTransportGenerationDelta
    split_ifs with hcount
    · exact h
    · simpa [Countable] using ⟨by omega, hknown⟩
  | cons delta rest ih =>
    obtain ⟨hfirst, hrest⟩ := List.forall_mem_cons.mp h
    unfold addTransportGenerationDelta
    split_ifs with hcount
    · exact h
    dsimp only
    split_ifs with hsame
    · exact List.forall_mem_cons.mpr ⟨⟨by have := hfirst.1; dsimp only; omega, hfirst.2⟩, hrest⟩
    · exact List.forall_mem_cons.mpr ⟨hfirst, ih hrest⟩

/-- Adding the deltas of one list to another, as `reapNow` does. -/
theorem reported_foldl_add {released : List TransportGenerationDelta} (h : Countable released)
    (deltas : List TransportGenerationDelta) (action : GenerationAction) :
    reported action (released.foldl (fun deltas delta => addTransportGenerationDelta deltas
      delta.action delta.tls delta.protocol delta.count) deltas) =
      reported action deltas + reported action released := by
  induction released generalizing deltas with
  | nil => simp [reported]
  | cons delta rest ih =>
    obtain ⟨⟨hcount, _⟩, hrest⟩ := List.forall_mem_cons.mp h
    rw [List.foldl_cons, ih hrest, reported_add _ _ _ _ _ hcount]
    simp only [reported, total, List.map_cons, List.sum_cons]
    ring

theorem Countable.foldl_add {released deltas : List TransportGenerationDelta}
    (h : Countable released) (hdeltas : Countable deltas) :
    Countable (released.foldl (fun deltas delta => addTransportGenerationDelta deltas
      delta.action delta.tls delta.protocol delta.count) deltas) := by
  induction released generalizing deltas with
  | nil => exact hdeltas
  | cons delta rest ih =>
    obtain ⟨⟨_, hknown⟩, hrest⟩ := List.forall_mem_cons.mp h
    exact ih hrest (hdeltas.add _ _ hknown _)

/-! ## What a preparation reports -/

def live (registry : Registry) : Int :=
  registry.transports.keys.card

/-- The statistics of a preparation that began at `start` count the transports it
has created. -/
structure Tallied (start : Registry) (p : Preparing) : Prop where
  live : live p.registry = live start + p.stats.createdTransports
  creates : reported .create p.stats.transportGenerations = p.stats.createdTransports
  retires : reported .retire p.stats.transportGenerations = 0
  keys : ∀ key ∈ p.registry.transports.keys,
    key ∈ start.transports.keys ∨ key ∈ p.owned.transportKeys
  countable : (∀ key ∈ p.owned.transportKeys, KnownProtocol key.protocol) →
    Countable p.stats.transportGenerations

theorem Tallied.takeTransport {start : Registry} {p : Preparing} (h : Tallied start p)
    (key : TransportKey) : Tallied start (p.takeTransport key).1 := by
  have hkeys : (p.takeTransport key).1.registry.transports.keys =
      insert key p.registry.transports.keys := keys_acquire key _
  have hmem : ∀ other ∈ (p.takeTransport key).1.registry.transports.keys,
      other ∈ start.transports.keys ∨ other ∈ (p.takeTransport key).1.owned.transportKeys := by
    intro other hother
    rw [hkeys, Finset.mem_insert] at hother
    rcases hother with rfl | hother
    · exact Or.inr (List.mem_append_right _ (List.mem_singleton_self other))
    · exact (h.keys other hother).imp_right (List.mem_append_left _)
  have hknown : (∀ other ∈ (p.takeTransport key).1.owned.transportKeys,
      KnownProtocol other.protocol) → ∀ action,
      Countable (addTransportGenerationDelta p.stats.transportGenerations action key.tlsEnabled
        key.protocol 1) := by
    intro hall action
    have hbefore := h.countable fun other hother => hall other (List.mem_append_left _ hother)
    exact hbefore.add _ _ (hall key (List.mem_append_right _ (List.mem_singleton_self key))) _
  cases hlookup : p.registry.transports.lookup key with
  | none =>
    have hfresh : key ∉ p.registry.transports.keys := by
      rw [Finmap.mem_keys, ← Finmap.lookup_eq_none]
      exact hlookup
    have hstats : (p.takeTransport key).1.stats =
        { p.stats with
          createdTransports := p.stats.createdTransports + 1
          transportGenerations := addTransportGenerationDelta p.stats.transportGenerations
            .create key.tlsEnabled key.protocol 1 } := by
      simp [Preparing.takeTransport, hlookup]
    refine ⟨?_, ?_, ?_, hmem, ?_⟩
    · have hlive := h.live
      simp only [Telemetry.live, hkeys, Finset.card_insert_of_notMem hfresh, hstats] at hlive ⊢
      push_cast
      omega
    · rw [hstats]
      rw [reported_add _ _ _ _ _ (by omega), h.creates]
      simp
    · rw [hstats]
      rw [reported_add _ _ _ _ _ (by omega), h.retires]
      simp
    · rw [hstats]
      exact fun hall => hknown hall _
  | some entry =>
    have hfound : key ∈ p.registry.transports.keys :=
      Finmap.mem_keys.mpr (Finmap.mem_of_lookup_eq_some hlookup)
    have hstats : (p.takeTransport key).1.stats =
        { p.stats with
          reusedTransports := p.stats.reusedTransports + 1
          transportGenerations := addTransportGenerationDelta p.stats.transportGenerations
            .reuse key.tlsEnabled key.protocol 1 } := by
      simp [Preparing.takeTransport, hlookup]
    refine ⟨?_, ?_, ?_, hmem, ?_⟩
    · have hlive := h.live
      simp only [Telemetry.live, hkeys, Finset.insert_eq_of_mem hfound, hstats] at hlive ⊢
      exact hlive
    · rw [hstats]
      rw [reported_add _ _ _ _ _ (by omega), h.creates]
      simp
    · rw [hstats]
      dsimp only
      rw [reported_add _ _ _ _ _ (by omega), h.retires]
      simp
    · rw [hstats]
      exact fun hall => hknown hall _

/-- The other steps of a preparation neither touch transports nor report them. -/
theorem Tallied.of_same {start : Registry} {p q : Preparing} (h : Tallied start p)
    (htransports : q.registry.transports = p.registry.transports)
    (howned : q.owned.transportKeys = p.owned.transportKeys)
    (hstats : q.stats.createdTransports = p.stats.createdTransports ∧
      q.stats.transportGenerations = p.stats.transportGenerations) : Tallied start q := by
  obtain ⟨hcreated, hgenerations⟩ := hstats
  refine ⟨?_, ?_, ?_, ?_, ?_⟩
  · rw [hcreated, ← h.live, Telemetry.live, Telemetry.live, htransports]
  · rw [hgenerations, hcreated]
    exact h.creates
  · rw [hgenerations]
    exact h.retires
  · rw [htransports, howned]
    exact h.keys
  · rw [howned, hgenerations]
    exact h.countable

theorem tallied_of_takesAll {start : Registry} {p : Preparing}
    (h : TakesAll ⟨start, .empty, .zero⟩ p) : Tallied start p := by
  induction h with
  | refl =>
    refine ⟨?_, rfl, rfl, fun _ => Or.inl, fun _ => ?_⟩
    · simp [PrepareStats.zero]
    · simp [Countable, PrepareStats.zero]
  | tail _ hstep ih =>
    cases hstep with
    | transport key => exact ih.takeTransport key
    | selection key =>
      refine ih.of_same rfl rfl ?_
      simp only [Preparing.takeSelection]
      split <;> exact ⟨rfl, rfl⟩
    | endpoint identity target =>
      refine ih.of_same rfl rfl ?_
      simp only [Preparing.takeEndpoint]
      split <;> exact ⟨rfl, rfl⟩
    | health key policy endpoint transport =>
      refine ih.of_same rfl rfl ?_
      simp only [Preparing.takeHealth]
      split <;> exact ⟨rfl, rfl⟩
    | budget key policy =>
      refine ih.of_same rfl rfl ?_
      simp only [Preparing.takeBudget]
      split <;> exact ⟨rfl, rfl⟩
    | count plan => exact ih.of_same rfl rfl ⟨rfl, rfl⟩

/-! The transports that a preparation asks for have a known protocol. -/

theorem transportKeys_prepareEndpoints (platform : Platform) (resource : Upstream)
    (transportKey : TransportKey) (transport : Upstream.TransportRuntime)
    (endpoints : List Endpoint) (p : Preparing) :
    (Upstream.prepareEndpoints platform resource transportKey transport endpoints
      p).1.owned.transportKeys = p.owned.transportKeys := by
  induction endpoints generalizing p with
  | nil => rfl
  | cons endpoint rest ih =>
    simp only [Upstream.prepareEndpoints]
    cases p.targetOf platform resource.id endpoint with
    | error cause => rfl
    | ok target =>
      split_ifs
      · exact ih _
      refine (ih _).trans ?_
      unfold Upstream.prepareHealth
      cases resource.health.active <;> rfl

theorem transportKeys_preparePlanLocked (platform : Platform) (resource : Upstream)
    (profile : Upstream.TransportProfile) (p : Preparing) :
    (Upstream.preparePlanLocked platform resource profile p).1.owned.transportKeys =
      p.owned.transportKeys ++ [Upstream.makeTransportKey profile] := by
  unfold Upstream.preparePlanLocked
  dsimp only
  have hendpoints := transportKeys_prepareEndpoints platform resource
    (Upstream.makeTransportKey profile) (p.takeTransport (Upstream.makeTransportKey profile)).2
    resource.endpoints ((p.takeTransport (Upstream.makeTransportKey profile)).1.takeSelection
      ⟨resource.id, resource.balancer.type⟩).1
  split
  · rename_i q cause hq
    rw [hq] at hendpoints
    exact hendpoints
  rename_i q endpoints hq
  rw [hq] at hendpoints
  have hbudget : (Upstream.prepareBudget platform resource q).1.owned.transportKeys =
      q.owned.transportKeys := by
    unfold Upstream.prepareBudget
    split <;> rfl
  split <;> exact hbudget.trans hendpoints

theorem known_preparePlans {platform : Platform} {materials : Upstream.MaterialIndex}
    {index : Nat} {resources : List Upstream} {p : Preparing}
    (hresources : ∀ resource ∈ resources, KnownProtocol resource.transport.protocol)
    (hp : ∀ key ∈ p.owned.transportKeys, KnownProtocol key.protocol) :
    ∀ key ∈ (Upstream.preparePlans platform materials index resources p).1.owned.transportKeys,
      KnownProtocol key.protocol := by
  induction resources generalizing index p with
  | nil => exact hp
  | cons resource rest ih =>
    obtain ⟨hresource, hrest⟩ := List.forall_mem_cons.mp hresources
    simp only [Upstream.preparePlans]
    split
    · exact hp
    rename_i profile hprofile
    have hplan : ∀ key ∈ (Upstream.preparePlanLocked platform resource profile
        p).1.owned.transportKeys, KnownProtocol key.protocol := by
      rw [transportKeys_preparePlanLocked]
      refine forall_mem_concat hp ?_
      rw [Upstream.makeTransportKey_protocol,
        Upstream.compileTransportProfile_protocol hprofile]
      exact hresource
    split
    · rename_i q cause hq
      rw [hq] at hplan
      exact hplan
    · rename_i q plan hq
      rw [hq] at hplan
      split
      · exact hplan
      · exact ih hrest hplan

/-! ## What a release reports -/

theorem reported_retired (dropped : List (TransportKey × Upstream.TransportRuntime))
    (deltas : List TransportGenerationDelta) :
    reported .retire (dropped.foldl (fun deltas entry => addTransportGenerationDelta deltas .retire
        entry.1.tlsEnabled entry.1.protocol 1) deltas) =
      reported .retire deltas + dropped.length ∧
    reported .create (dropped.foldl (fun deltas entry => addTransportGenerationDelta deltas .retire
        entry.1.tlsEnabled entry.1.protocol 1) deltas) = reported .create deltas := by
  induction dropped generalizing deltas with
  | nil => simp
  | cons entry rest ih =>
    obtain ⟨hretire, hcreate⟩ := ih
      (addTransportGenerationDelta deltas .retire entry.1.tlsEnabled entry.1.protocol 1)
    rw [List.foldl_cons, hretire, hcreate, reported_add _ _ _ _ _ (by omega),
      reported_add _ _ _ _ _ (by omega)]
    simp
    ring

/-- The transports of a registry have known protocols. -/
def Known (registry : Registry) : Prop :=
  ∀ key ∈ registry.transports.keys, KnownProtocol key.protocol

/-- A cleanup reports as retired what has disappeared from `registry`. -/
structure Cleaned (registry next : Registry) (deltas : List TransportGenerationDelta) : Prop where
  live : live registry = live next + reported .retire deltas
  creates : reported .create deltas = 0
  keys : next.transports.keys ⊆ registry.transports.keys
  countable : Known registry → Countable deltas

theorem cleaned_releaseRefsLocked {registry next : Registry} {owned : ResourceRefs}
    {cleanup : CleanupStats} {closed : List Upstream.TransportRuntime}
    (h : registry.releaseRefsLocked owned = some (next, cleanup, closed)) :
    Cleaned registry next cleanup.transportGenerations := by
  simp only [Registry.releaseRefsLocked, Option.bind_eq_bind, Option.bind_eq_some_iff] at h
  obtain ⟨_, _, ⟨transports, dropped⟩, htransports, _, _, _, _, _, _, hresult⟩ := h
  obtain ⟨rfl, hrest⟩ := Prod.mk.inj (Option.some.inj hresult)
  obtain ⟨rfl, _⟩ := Prod.mk.inj hrest
  obtain ⟨hcard, hsubset, hmem⟩ := card_keys_releaseAll htransports
  obtain ⟨hretire, hcreate⟩ := reported_retired dropped []
  refine ⟨?_, hcreate, hsubset, ?_⟩
  · rw [hretire]
    simp only [Telemetry.live, hcard]
    simp [reported]
  · intro hknown
    have hall : ∀ (rest : List (TransportKey × Upstream.TransportRuntime)) deltas,
        (∀ entry ∈ rest, KnownProtocol entry.1.protocol) → Countable deltas →
        Countable (rest.foldl (fun deltas entry => addTransportGenerationDelta deltas .retire
          entry.1.tlsEnabled entry.1.protocol 1) deltas) := by
      intro rest
      induction rest with
      | nil => exact fun _ _ hdeltas => hdeltas
      | cons entry rest ih =>
        intro deltas hentries hdeltas
        obtain ⟨hentry, hentries⟩ := List.forall_mem_cons.mp hentries
        exact ih _ hentries (hdeltas.add _ _ hentry _)
    apply hall dropped []
    · exact fun entry hentry => hknown entry.1 (hmem entry hentry)
    · simp [Countable]

end GGateway.Telemetry
