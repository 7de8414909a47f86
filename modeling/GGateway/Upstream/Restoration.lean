import GGateway.Upstream.Conservation
import GGateway.Upstream.Frames

/-!
# Giving back what a call took

A call of `Prepare` takes references, makes health registrations and then either
fails, keeps them in a candidate that is committed, or gives them back in
`Rollback`.  `Registry.Acquired` and `Registry.Restored` say how the registry then
differs from the one the call found, and both survive what other threads may do
beside it, as long as they release nothing.
-/

namespace GGateway.Upstream

open Library Library.RefTable

/-! ## Changes that other threads make -/

/-- The registry after more tunnels were opened. -/
def Registry.withLeases (registry : Registry) (leases : List TunnelLease) : Registry :=
  leases.foldl (fun next lease => next.addLease lease.key lease.runtime) registry

/-- A change beside the call takes references to transports that exist, and
neither a runtime nor a registration changes. -/
structure Registry.Beside (registry next : Registry) (added : Multiset TransportKey) : Prop where
  runtime : ∀ kind key, runtime? (next.table kind) key = runtime? (registry.table kind) key
  accounts : ∀ held, registry.Accounts held →
    next.Accounts (Pi.single Kind.transport added + held)
  generation : next.generation = registry.generation
  retiredRegistrations : next.retiredRegistrations = registry.retiredRegistrations

theorem Registry.beside_close (registry : Registry) (closed : Bool) :
    registry.Beside { registry with closed := closed } 0 := by
  have htable : Registry.table { registry with closed := closed } = registry.table :=
    Registry.table_congr rfl rfl rfl rfl rfl
  refine ⟨?_, ?_, rfl, rfl⟩
  · intro kind key
    rw [htable]
  · intro held h kind
    rw [htable, Pi.single_zero, zero_add]
    exact h kind

variable {registry base : Registry} {key : TransportKey} {held : Demand} {world next : World}

theorem Registry.beside_addLease {runtime : TransportRuntime}
    (h : runtime? registry.transports key = some runtime) :
    registry.Beside (registry.addLease key runtime) {key} := by
  refine ⟨?_, ?_, rfl, rfl⟩
  · intro kind other
    by_cases hkind : kind = .transport
    · subst hkind
      by_cases hother : other = key
      · subst hother
        exact (runtime?_acquire_of_some h).trans h.symm
      · show Option.map _ ((acquire registry.transports key runtime).lookup other) = _
        rw [lookup_acquire, if_neg hother]
        rfl
    · rw [table_addLease _ _ _ kind hkind]
  · intro held haccounts
    refine haccounts.of_transports (table_addLease _ key runtime) ?_ ?_
    · intro kind hkind
      rw [Pi.add_apply, Pi.single_eq_of_ne hkind, zero_add]
    · rw [Pi.add_apply, Pi.single_eq_same, Multiset.singleton_add]
      exact (haccounts .transport).acquire key runtime

/-- What a candidate has acquired stays acquired beside such changes. -/
theorem Registry.Acquired.beside {base' registry' : Registry} {plans : List (Text.Bytes × Plan)}
    {owned : ResourceRefs} {added : Multiset TransportKey}
    (h : base.Acquired held plans owned registry) (hbase : base.Beside base' added)
    (hregistry : registry.Beside registry' added) (hframe : base'.SameFrame registry') :
    base'.Acquired (Pi.single Kind.transport added + held) plans owned registry' := by
  refine ⟨hframe, ?_, ?_, ?_, ?_, ?_, ?_⟩
  · rw [add_left_comm]
    exact hregistry.accounts _ h.accounts
  · intro kind key value hvalue
    rw [hregistry.runtime]
    rw [hbase.runtime] at hvalue
    exact h.runtime kind key value hvalue
  · intro plan hplan
    refine (h.pinned plan hplan).mono ?_
    intro kind key value hpinned
    exact ⟨hpinned.1, (hregistry.runtime kind key).trans hpinned.2⟩
  · rw [hbase.generation, hregistry.generation]
    exact h.generation
  · rw [hbase.retiredRegistrations, hregistry.retiredRegistrations]
    exact h.retiredRegistrations
  · intro generation hafter hbefore
    rw [hbase.generation] at hafter
    rw [hregistry.generation] at hbefore
    obtain ⟨key, value, hpinned, hnot, hvalue⟩ := h.created generation hafter hbefore
    refine ⟨key, value, ⟨hpinned.1, (hregistry.runtime .health key).trans hpinned.2⟩, ?_, hvalue⟩
    rw [Pi.add_apply, Pi.single_eq_of_ne (by simp), zero_add]
    exact hnot

/-- Everything that a failed call took is given back. -/
structure Registry.Restored (base registry : Registry) : Prop where
  frame : base.SameFrame registry
  table : registry.table = base.table
  retires : base.Retires registry

theorem Registry.Retires.refl (registry : Registry) : registry.Retires registry :=
  ⟨le_rfl, fun _ hmem => hmem, fun generation hafter hbefore => absurd hafter (by omega)⟩

theorem Registry.Restored.refl (registry : Registry) : registry.Restored registry :=
  ⟨.refl registry, rfl, .refl registry⟩

theorem Registry.Restored.beside {base' registry' : Registry} {added : Multiset TransportKey}
    (h : base.Restored registry) (haccounts : base.Accounts held)
    (hbase : base.Beside base' added) (hregistry : registry.Beside registry' added)
    (hframe : base'.SameFrame registry') : base'.Restored registry' := by
  refine ⟨hframe, ?_, ?_, ?_, ?_⟩
  · have hheld : registry.Accounts held := by
      intro kind
      rw [h.table]
      exact haccounts kind
    funext kind
    refine (hregistry.accounts held hheld kind).ext (hbase.accounts held haccounts kind) ?_
    intro key _
    rw [hregistry.runtime, hbase.runtime, h.table]
  · rw [hbase.generation, hregistry.generation]
    exact h.retires.generation
  · rw [hbase.retiredRegistrations, hregistry.retiredRegistrations]
    exact h.retires.kept
  · rw [hbase.generation, hregistry.generation, hregistry.retiredRegistrations]
    exact h.retires.created

/-- Rolling a candidate back restores the registry. -/
theorem Registry.Acquired.rollback {plans : List (Text.Bytes × Plan)} {owned : ResourceRefs}
    (h : base.Acquired held plans owned registry) (haccounts : base.Accounts held) :
    ∃ next cleanup closed, registry.releaseRefsLocked owned = some (next, cleanup, closed) ∧
      base.Restored next := by
  obtain ⟨next, cleanup, closed, hrelease, hreleased⟩ := h.accounts.releaseRefsLocked
  refine ⟨next, cleanup, closed, hrelease, h.frame.trans hreleased.frame, ?_,
    hreleased.retires h.generation h.retiredRegistrations h.created⟩
  refine hreleased.table_eq haccounts ?_
  intro kind key hkey
  obtain ⟨value, hvalue⟩ := haccounts.exists_runtime hkey
  rw [hvalue]
  exact h.runtime kind key value hvalue

/-- What `Prepare` does to a registry: everything is given back, or a candidate
owns what was acquired. -/
theorem World.Consistent.prepareCall_restored (h : world.Consistent) {platform : Platform}
    {resources : Model.ResourceSet} {result : Except PrepareError Nat}
    (hcall : world.prepareCall platform resources = some (next, result)) :
    next.leases = world.leases ∧
      match result with
      | .error _ => world.registry.Restored next.registry
      | .ok index => ∃ candidate, next.candidates[index]? = some candidate ∧
          candidate.phase = .prepared ∧
          world.registry.Acquired world.holdings candidate.plans candidate.owned next.registry := by
  unfold World.prepareCall at hcall
  split at hcall
  · cases hcall
    exact ⟨rfl, .refl _⟩
  rename_i normalized _
  split at hcall
  · cases hcall
    exact ⟨rfl, .refl _⟩
  rename_i materials _
  split at hcall
  · cases hcall
    exact ⟨rfl, .refl _⟩
  obtain ⟨registry, cause, stats, cleanup, hresult, hframe, htable, hretires⟩ |
    ⟨registry, plans, owned, stats, hresult, hacquired⟩ :=
    h.owned.accounts.prepareLocked platform materials normalized
  · rw [hresult] at hcall
    cases hcall
    exact ⟨rfl, hframe, htable, hretires⟩
  · rw [hresult] at hcall
    cases hcall
    exact ⟨rfl, ⟨plans, owned, stats, .prepared⟩, by simp [World.notify], rfl, hacquired⟩

/-! ## Where a call stands -/

/-- How a call that has published nothing has affected the registry. -/
inductive Footing where
  | untouched
  | prepared (candidate : Nat)
  | rollingBack (candidate : Nat)
  | restored

/-- The registry and the candidates, for a call that began when the registry was
`base`, up to changes beside it. -/
def World.Stands (base : Registry) (held : Demand) (world : World) : Footing → Prop
  | .untouched => world.registry = base
  | .prepared index => ∃ candidate, world.candidates[index]? = some candidate ∧
      candidate.phase = .prepared ∧
      base.Acquired held candidate.plans candidate.owned world.registry
  | .rollingBack index => ∃ candidate, world.candidates[index]? = some candidate ∧
      candidate.phase = .rollingBack ∧
      base.Acquired held candidate.plans candidate.owned world.registry
  | .restored => base.Restored world.registry

theorem World.Stands.runtime {footing : Footing} (h : world.Stands base held footing)
    {value : TransportRuntime} (hvalue : runtime? base.transports key = some value) :
    runtime? world.registry.transports key = some value := by
  cases footing with
  | untouched =>
    rw [World.Stands] at h
    rwa [h]
  | prepared index =>
    obtain ⟨candidate, _, _, hacquired⟩ := h
    exact hacquired.runtime .transport key value hvalue
  | rollingBack index =>
    obtain ⟨candidate, _, _, hacquired⟩ := h
    exact hacquired.runtime .transport key value hvalue
  | restored =>
    have htable : world.registry.transports = base.transports := congrFun h.table .transport
    rwa [htable]

/-- A change beside the call moves the baseline along. -/
theorem World.Stands.beside {footing : Footing} (h : world.Stands base held footing)
    (haccounts : base.Accounts held) (change : Registry → Registry)
    {added : Multiset TransportKey} (hcandidates : next.candidates = world.candidates)
    (hnext : next.registry = change world.registry) (hbase : base.Beside (change base) added)
    (hregistry : world.registry.Beside (change world.registry) added)
    (hframe : ∀ {other : Registry}, base.SameFrame other → (change base).SameFrame (change other)) :
    next.Stands (change base) (Pi.single Kind.transport added + held) footing := by
  cases footing with
  | untouched =>
    rw [World.Stands] at h ⊢
    rw [hnext, h]
  | prepared index =>
    obtain ⟨candidate, hcandidate, hphase, hacquired⟩ := h
    rw [World.Stands, hcandidates, hnext]
    exact ⟨candidate, hcandidate, hphase,
      hacquired.beside hbase hregistry (hframe hacquired.frame)⟩
  | rollingBack index =>
    obtain ⟨candidate, hcandidate, hphase, hacquired⟩ := h
    rw [World.Stands, hcandidates, hnext]
    exact ⟨candidate, hcandidate, hphase,
      hacquired.beside hbase hregistry (hframe hacquired.frame)⟩
  | restored =>
    rw [World.Stands, hnext]
    exact Registry.Restored.beside h haccounts hbase hregistry (hframe h.frame)

/-- What a step of another thread may do: nothing to the registry, open a tunnel
on a transport that was known before the call, or close the registry. -/
inductive World.Stirs (known : Registry) (world next : World) : Prop where
  | still (hregistry : next.registry = world.registry) (hleases : next.leases = world.leases)
      (hcandidates : next.candidates = world.candidates)
  | opened (key : TransportKey) (runtime : TransportRuntime)
      (hknown : runtime? known.transports key = some runtime)
      (hregistry : next.registry = world.registry.addLease key runtime)
      (hleases : next.leases = world.leases ++ [⟨key, runtime, .held⟩])
      (hcandidates : next.candidates = world.candidates)
  | closed (hregistry : next.registry = { world.registry with closed := true })
      (hleases : next.leases = world.leases) (hcandidates : next.candidates = world.candidates)

/-- The registry that the call found, with what has changed beside it. -/
def Registry.baseline (registry : Registry) (opened : List TunnelLease) (closed : Bool) :
    Registry :=
  { registry.withLeases opened with closed := closed }

theorem withLeases_frame (registry : Registry) (opened : List TunnelLease) :
    (registry.withLeases opened).retired = registry.retired ∧
      (registry.withLeases opened).activePlanSets = registry.activePlanSets ∧
      (registry.withLeases opened).generation = registry.generation ∧
      (registry.withLeases opened).retiredRegistrations = registry.retiredRegistrations := by
  induction opened generalizing registry with
  | nil => exact ⟨rfl, rfl, rfl, rfl⟩
  | cons lease rest ih => exact ih (registry.addLease lease.key lease.runtime)

theorem runtime_baseline (opened : List TunnelLease) (closed : Bool) {value : TransportRuntime}
    (h : runtime? registry.transports key = some value) :
    runtime? (registry.baseline opened closed).transports key = some value := by
  show runtime? (registry.withLeases opened).transports key = some value
  induction opened generalizing registry with
  | nil => exact h
  | cons lease rest ih =>
    have hnext : runtime? (registry.addLease lease.key lease.runtime).transports key =
        some value := runtime?_acquire_of_some h
    exact ih hnext

/-- Where a call stands that has published nothing. -/
def World.StandsOver (before : Registry) (leases : List TunnelLease) (world : World)
    (footing : Footing) : Prop :=
  ∃ opened held, world.leases = leases ++ opened ∧
    (before.baseline opened world.registry.closed).Accounts held ∧
    world.Stands (before.baseline opened world.registry.closed) held footing

theorem World.StandsOver.stir {before : Registry} {leases : List TunnelLease} {footing : Footing}
    (h : world.StandsOver before leases footing) (hstirs : world.Stirs before next) :
    next.StandsOver before leases footing := by
  obtain ⟨opened, held, hopened, haccounts, hstands⟩ := h
  cases hstirs with
  | still hregistry hleases hcandidates =>
    refine ⟨opened, held, hleases.trans hopened, hregistry ▸ haccounts, ?_⟩
    cases footing <;> simpa only [World.Stands, hregistry, hcandidates] using hstands
  | opened key runtime hknown hregistry hleases hcandidates =>
    have hbase := Registry.beside_addLease
      (runtime_baseline opened world.registry.closed hknown)
    have hsame : before.baseline (opened ++ [⟨key, runtime, .held⟩]) next.registry.closed =
        (before.baseline opened world.registry.closed).addLease key runtime := by
      rw [hregistry]
      simp only [Registry.baseline, Registry.withLeases, List.foldl_append, List.foldl_cons,
        List.foldl_nil]
      rfl
    refine ⟨opened ++ [⟨key, runtime, .held⟩], Pi.single Kind.transport {key} + held, ?_, ?_, ?_⟩
    · rw [hleases, hopened, List.append_assoc]
    · rw [hsame]
      exact hbase.accounts held haccounts
    · rw [hsame]
      refine hstands.beside haccounts (·.addLease key runtime) hcandidates hregistry hbase
        (Registry.beside_addLease (hstands.runtime (runtime_baseline _ _ hknown))) ?_
      intro other hframe
      exact ⟨hframe.maxRetiredSnapshots, hframe.closed, hframe.activePlanSets,
        congrArg (· + 1) hframe.liveTunnelLeases, hframe.retired⟩
  | closed hregistry hleases hcandidates =>
    have hbase := (before.baseline opened world.registry.closed).beside_close true
    have hsame : before.baseline opened next.registry.closed =
        { before.baseline opened world.registry.closed with closed := true } := by
      rw [hregistry]
      rfl
    refine ⟨opened, Pi.single Kind.transport 0 + held, hleases.trans hopened, ?_, ?_⟩
    · rw [hsame]
      exact hbase.accounts held haccounts
    · rw [hsame]
      refine hstands.beside haccounts (fun registry => { registry with closed := true })
        hcandidates hregistry hbase (world.registry.beside_close true) ?_
      intro other hframe
      exact ⟨hframe.maxRetiredSnapshots, rfl, hframe.activePlanSets, hframe.liveTunnelLeases,
        hframe.retired⟩

/-! ## Steps of a call that publishes nothing -/

section StandsOver

variable {before : Registry} {leases : List TunnelLease} {world next : World} {index : Nat}

theorem World.StandsOver.restored (h : world.StandsOver before leases .untouched) :
    world.StandsOver before leases .restored := by
  obtain ⟨opened, held, hopened, haccounts, hsame⟩ := h
  have hsame : world.registry = before.baseline opened world.registry.closed := hsame
  refine ⟨opened, held, hopened, haccounts, ?_⟩
  show (before.baseline opened world.registry.closed).Restored world.registry
  rw [← hsame]
  exact .refl _

theorem World.StandsOver.prepareCall (h : world.StandsOver before leases .untouched)
    (hconsistent : world.Consistent) {platform : Platform} {resources : Model.ResourceSet}
    {result : Except PrepareError Nat}
    (hcall : world.prepareCall platform resources = some (next, result)) :
    match result with
    | .error _ => next.StandsOver before leases .restored
    | .ok candidate => next.StandsOver before leases (.prepared candidate) := by
  obtain ⟨opened, held, hopened, -, hsame⟩ := h
  have hsame : world.registry = before.baseline opened world.registry.closed := hsame
  obtain ⟨hleases, hresult⟩ := hconsistent.prepareCall_restored hcall
  have hbase : world.registry.SameFrame next.registry →
      before.baseline opened next.registry.closed = world.registry := by
    intro hframe
    rw [hframe.closed, ← hsame]
  have haccounts := hconsistent.owned.accounts
  cases result with
  | error cause =>
    have hrestored : world.registry.Restored next.registry := hresult
    refine ⟨opened, world.holdings, hleases.trans hopened, ?_, ?_⟩
    · rwa [hbase hrestored.frame]
    · rwa [hbase hrestored.frame]
  | ok index =>
    obtain ⟨candidate, hcandidate, hphase, hacquired⟩ := hresult
    refine ⟨opened, world.holdings, hleases.trans hopened, ?_, ?_⟩
    · rwa [hbase hacquired.frame]
    · rw [hbase hacquired.frame]
      exact ⟨candidate, hcandidate, hphase, hacquired⟩

theorem World.StandsOver.not_done (h : world.StandsOver before leases (.prepared index)) :
    ∃ candidate, world.candidates[index]? = some candidate ∧ candidate.done = false := by
  obtain ⟨_, _, _, _, candidate, hcandidate, hphase, _⟩ := h
  exact ⟨candidate, hcandidate, by rw [Candidate.done, hphase]; rfl⟩

theorem World.StandsOver.rollback (h : world.StandsOver before leases (.prepared index))
    (hstep : world.rollback index = .next next) :
    next.StandsOver before leases (.rollingBack index) := by
  obtain ⟨candidate, hcandidate, hdone⟩ := h.not_done
  obtain ⟨opened, held, hopened, haccounts, found, hfound, -, hacquired⟩ := h
  obtain rfl := Option.some.inj (hcandidate.symm.trans hfound)
  unfold World.rollback at hstep
  simp only [hcandidate, hdone, Bool.false_eq_true, if_false] at hstep
  cases hstep
  refine ⟨opened, held, hopened, haccounts, { candidate with phase := .rollingBack }, ?_, rfl,
    hacquired⟩
  have hlt : index < world.candidates.length := (List.getElem?_eq_some_iff.mp hcandidate).1
  simp [hlt]

theorem World.StandsOver.rollbackRelease
    (h : world.StandsOver before leases (.rollingBack index))
    (hstep : world.rollbackRelease index = .next next) :
    next.StandsOver before leases .restored := by
  obtain ⟨opened, held, hopened, haccounts, candidate, hcandidate, hphase, hacquired⟩ := h
  obtain ⟨registry, cleanup, closed, hrelease, hrestored⟩ := hacquired.rollback haccounts
  unfold World.rollbackRelease at hstep
  simp only [hcandidate, hphase, if_true, hrelease] at hstep
  cases hstep
  have hclosed : registry.closed = world.registry.closed := hrestored.frame.closed
  refine ⟨opened, held, hopened, ?_, ?_⟩
  · show (before.baseline opened registry.closed).Accounts held
    rwa [hclosed]
  · show (before.baseline opened registry.closed).Restored registry
    rwa [hclosed]

end StandsOver

/-! ## Steps of other threads -/

/-- A reaper pass that finds no set drained changes nothing. -/
theorem reapNow_of_filter_eq_nil {drained : List Nat}
    (h : world.registry.retired.filter (world.finalizes drained) = [])
    (hstep : world.reapNow drained = .next next) : next = world := by
  have hkept : (world.registry.retired.filter fun index => !world.finalizes drained index) =
      world.registry.retired := by
    rw [List.filter_eq_self]
    intro index hindex
    simpa using List.filter_eq_nil_iff.mp h index hindex
  unfold World.reapNow at hstep
  split at hstep
  · simp only [h, hkept, World.finalizeAll, if_true] at hstep
    exact (Library.Transition.Outcome.next.inj hstep).symm
  · contradiction

/-- The steps that only count references to plan sets leave the registry alone. -/
theorem stirs_of_counting {known : Registry} {platform : Platform} {action : Action}
    (haction : action.counting = true) (hstep : world.step platform action = .next next) :
    world.Stirs known next := by
  cases action with
  | tryAcquire | releaseLoad | releaseSwap =>
    simp only [World.step, World.tryAcquire, World.releaseLoad, World.releaseSwap] at hstep
    repeat' split at hstep
    all_goals first | contradiction | (cases hstep; exact .still rfl rfl rfl)
  | _ => exact absurd haction Bool.false_ne_true

theorem stirs_of_acquireTunnelLease {known : Registry} {runtime : TransportRuntime}
    (hknown : runtime? known.transports key = some runtime)
    (hstep : world.acquireTunnelLease key runtime = .next next) : world.Stirs known next := by
  unfold World.acquireTunnelLease at hstep
  split at hstep
  · cases hstep
    exact .still rfl rfl rfl
  split_ifs at hstep
  · cases hstep
    exact .still rfl rfl rfl
  · cases hstep
    exact .opened key runtime hknown rfl rfl rfl

end GGateway.Upstream
