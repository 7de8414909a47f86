import GGateway.Telemetry.Generations

/-!
# The balance of transport generations

What the registry reports along a run, and what the telemetry has counted of it
once every notification has been delivered.  The difference between creations and
retirements is the number of live transports, plus the creations of the candidates
that were prepared and then rolled back: those are reported twice.
-/

set_option linter.dupNamespace false

namespace GGateway.Telemetry

open Model Library Library.RefTable Library.Transition
open GGateway.Upstream (GenerationAction TransportGenerationDelta addTransportGenerationDelta
  PrepareStats CleanupStats Notification Platform Preparing Registry ResourceRefs
  TransportKey World KnownProtocol)

/-! ## Along a run -/

/-- The deltas of a notification that the telemetry counts. -/
def deltas : Notification → List TransportGenerationDelta
  | .prepared stats => stats.transportGenerations
  | .rolledBack stats => stats.transportGenerations
  | .cleaned stats => stats.transportGenerations
  | .retired _ | .failed _ => []

/-- Creations less retirements. -/
def balance (notification : Notification) : Int :=
  reported .create (deltas notification) - reported .retire (deltas notification)

/-- The statistics of a preparation report its creations and nothing as retired. -/
structure Reports (stats : PrepareStats) : Prop where
  creates : reported .create stats.transportGenerations = stats.createdTransports
  retires : reported .retire stats.transportGenerations = 0
  countable : Countable stats.transportGenerations

theorem Reports.balance_prepared {stats : PrepareStats} (h : Reports stats) :
    balance (.prepared stats) = stats.createdTransports := by
  rw [balance, deltas, h.creates, h.retires, sub_zero]

theorem Reports.balance_rolledBack {stats : PrepareStats} (h : Reports stats) :
    balance (.rolledBack stats) = stats.createdTransports :=
  h.balance_prepared

theorem Cleaned.balance_cleaned {registry next : Registry} {cleanup : CleanupStats}
    (h : Cleaned registry next cleanup.transportGenerations) :
    balance (.cleaned cleanup) = Telemetry.live next - Telemetry.live registry := by
  rw [balance, deltas, h.creates, h.live]
  ring

structure Tracked (world : World) : Prop where
  known : Known world.registry
  candidates : ∀ candidate ∈ world.candidates, Reports candidate.stats
  delivered : ∀ notification ∈ world.delivered, Countable (deltas notification)
  pending : ∀ notification ∈ world.pending, Countable (deltas notification)

/-- By how much the notifications, delivered or not, exceed the live transports. -/
def surplus (world : World) : Int :=
  total balance world.delivered + total balance world.pending - live world.registry

/-- The creations that a step reports a second time. -/
def repeats (world : World) : Upstream.Action → Nat
  | .rollbackRelease index =>
    match world.candidates[index]? with
    | none => 0
    | some candidate => candidate.stats.createdTransports
  | _ => 0

theorem total_append {α : Type*} (f : α → Int) (first second : List α) :
    total f (first ++ second) = total f first + total f second := by
  simp [total]

variable {world next : World} {index : Nat}

/-- What a step changes, in terms of the notifications it adds. -/
theorem Tracked.advance (h : Tracked world) (added : List Notification) {extra : Int}
    (hknown : Known next.registry)
    (hcandidates : ∀ candidate ∈ next.candidates, Reports candidate.stats)
    (hdelivered : next.delivered = world.delivered)
    (hpending : next.pending = world.pending ++ added)
    (hadded : ∀ notification ∈ added, Countable (deltas notification))
    (hlive : live next.registry + extra = live world.registry + total balance added) :
    Tracked next ∧ surplus next = surplus world + extra := by
  refine ⟨⟨hknown, hcandidates, hdelivered ▸ h.delivered, ?_⟩, ?_⟩
  · rw [hpending]
    intro notification hmem
    rcases List.mem_append.mp hmem with hmem | hmem
    · exact h.pending notification hmem
    · exact hadded notification hmem
  · rw [surplus, surplus, hdelivered, hpending, total_append]
    omega

/-- A step that leaves the transports and the statistics alone. -/
theorem Tracked.quiet (h : Tracked world)
    (htransports : next.registry.transports = world.registry.transports)
    (hcandidates : next.candidates = world.candidates)
    (hdelivered : next.delivered = world.delivered) {added : List Notification}
    (hpending : next.pending = world.pending ++ added)
    (hadded : ∀ notification ∈ added, deltas notification = []) :
    Tracked next ∧ surplus next = surplus world + 0 := by
  have hknown : Known next.registry := by
    unfold Known
    rw [htransports]
    exact h.known
  refine h.advance added hknown (hcandidates ▸ h.candidates) hdelivered hpending ?_ ?_
  · intro notification hmem
    rw [hadded notification hmem]
    simp [Countable]
  · have hzero : total balance added = 0 := by
      apply total_eq_zero
      intro notification hmem
      rw [balance, hadded notification hmem]
      rfl
    rw [hzero, Telemetry.live, Telemetry.live, htransports]

/-- A step that changes neither the transports nor any notification, and no
statistics of a candidate. -/
theorem Tracked.same (h : Tracked world)
    (htransports : next.registry.transports = world.registry.transports)
    (hcandidates : next.candidates = world.candidates)
    (hdelivered : next.delivered = world.delivered) (hpending : next.pending = world.pending) :
    Tracked next ∧ surplus next = surplus world + 0 :=
  h.quiet htransports hcandidates hdelivered (hpending.trans (List.append_nil _).symm) (by simp)

/-! ## Steps of the registry -/

theorem Tracked.prepareCall {platform : Platform} (h : Tracked world) {resources : ResourceSet}
    {result : Except Upstream.PrepareError Nat}
    (hcall : world.prepareCall platform resources = some (next, result)) :
    Tracked next ∧ surplus next = surplus world + 0 := by
  unfold World.prepareCall at hcall
  split at hcall
  · cases hcall
    exact h.quiet rfl rfl rfl rfl (by simp [deltas])
  rename_i normalized hnormalized
  split at hcall
  · cases hcall
    exact h.quiet rfl rfl rfl rfl (by simp [deltas])
  rename_i materials _
  split at hcall
  · cases hcall
    exact h.quiet rfl rfl rfl rfl (by simp [deltas])
  -- The critical section: what was taken, then either kept or released.
  have htallied := tallied_of_takesAll (Upstream.preparePlans_takes platform materials 0
    normalized ⟨world.registry, .empty, .zero⟩)
  have howned : ∀ key ∈ (Upstream.preparePlans platform materials 0 normalized
      ⟨world.registry, .empty, .zero⟩).1.owned.transportKeys, KnownProtocol key.protocol :=
    known_preparePlans (Upstream.normalize_knownProtocol hnormalized)
      (by simp [ResourceRefs.empty])
  simp only [Registry.prepareLocked] at hcall
  generalize Upstream.preparePlans platform materials 0 normalized
    ⟨world.registry, .empty, .zero⟩ = prepared at hcall htallied howned
  obtain ⟨p, outcome⟩ := prepared
  have hknown : Known p.registry := by
    intro key hkey
    rcases htallied.keys key hkey with hbefore | htaken
    · exact h.known key hbefore
    · exact howned key htaken
  have hreports : ∀ current, Reports { p.stats with current := current } := fun _ =>
    ⟨htallied.creates, htallied.retires, htallied.countable howned⟩
  have hlive : live p.registry = live world.registry + p.stats.createdTransports :=
    htallied.live
  cases outcome with
  | error cause =>
    cases hrelease : p.registry.releaseRefsLocked p.owned with
    | none => simp [hrelease] at hcall
    | some released =>
      obtain ⟨registry, cleanup, closed⟩ := released
      have hcleaned := cleaned_releaseRefsLocked hrelease
      simp only [hrelease] at hcall
      cases hcall
      have hstats := hreports cleanup.current
      apply h.advance [.cleaned cleanup,
        .rolledBack { p.stats with current := cleanup.current }, .failed cause]
      · exact fun key hkey => hknown key (hcleaned.keys hkey)
      · exact h.candidates
      · rfl
      · rfl
      · simp only [List.forall_mem_cons]
        exact ⟨hcleaned.countable hknown, hstats.countable, by simp [Countable, deltas],
          by simp⟩
      · have hfailed : balance (.failed cause) = 0 := rfl
        show live registry + 0 = live world.registry + _
        simp only [total, List.map_cons, List.sum_cons, List.map_nil, List.sum_nil,
          hcleaned.balance_cleaned, hstats.balance_rolledBack, hfailed]
        omega
  | ok plans =>
    cases hcall
    have hstats := hreports p.registry.statsLocked
    apply h.advance [.prepared { p.stats with current := p.registry.statsLocked }]
    · exact hknown
    · exact forall_mem_concat h.candidates hstats
    · rfl
    · rfl
    · simpa [deltas] using hstats.countable
    · show live p.registry + 0 = live world.registry + _
      simp only [total, List.map_cons, List.sum_cons, List.map_nil, List.sum_nil,
        hstats.balance_prepared]
      omega

theorem Tracked.commit (h : Tracked world) (hstep : world.commit index = .next next) :
    Tracked next ∧ surplus next = surplus world + 0 := by
  unfold World.commit at hstep
  split at hstep
  · contradiction
  rename_i candidate hcandidate
  split_ifs at hstep
  · cases hstep
    exact h.same rfl rfl rfl rfl
  cases hstep
  apply h.advance []
  · exact h.known
  · exact forall_mem_set h.candidates
      (h.candidates candidate (List.mem_of_getElem? hcandidate))
  · rfl
  · exact (List.append_nil _).symm
  · simp
  · rfl

theorem Tracked.rollback (h : Tracked world) (hstep : world.rollback index = .next next) :
    Tracked next ∧ surplus next = surplus world + 0 := by
  unfold World.rollback at hstep
  split at hstep
  · contradiction
  rename_i candidate hcandidate
  split_ifs at hstep
  · cases hstep
    exact h.same rfl rfl rfl rfl
  cases hstep
  apply h.advance []
  · exact h.known
  · exact forall_mem_set h.candidates
      (h.candidates candidate (List.mem_of_getElem? hcandidate))
  · rfl
  · exact (List.append_nil _).symm
  · simp
  · rfl

/-- A rollback reports the creations of the candidate once more. -/
theorem Tracked.rollbackRelease (h : Tracked world)
    (hstep : world.rollbackRelease index = .next next) :
    Tracked next ∧ surplus next = surplus world + repeats world (.rollbackRelease index) := by
  unfold World.rollbackRelease at hstep
  split at hstep
  · contradiction
  rename_i candidate hcandidate
  have hreports := h.candidates candidate (List.mem_of_getElem? hcandidate)
  by_cases hphase : candidate.phase = .rollingBack
  · rw [if_pos hphase] at hstep
    split at hstep
    · contradiction
    rename_i registry cleanup closed hrelease
    have hcleaned := cleaned_releaseRefsLocked hrelease
    have hstats : Reports { candidate.stats with current := cleanup.current } :=
      ⟨hreports.creates, hreports.retires, hreports.countable⟩
    cases hstep
    apply h.advance [.cleaned cleanup,
      .rolledBack { candidate.stats with current := cleanup.current }]
    · exact fun key hkey => h.known key (hcleaned.keys hkey)
    · exact forall_mem_set h.candidates hstats
    · rfl
    · rfl
    · simp only [List.forall_mem_cons]
      exact ⟨hcleaned.countable h.known, hstats.countable, by simp⟩
    · show live registry + _ = live world.registry + _
      simp only [repeats, hcandidate, total, List.map_cons, List.sum_cons, List.map_nil,
        List.sum_nil, hcleaned.balance_cleaned, hstats.balance_rolledBack]
      omega
  · rw [if_neg hphase] at hstep
    contradiction

/-- The loop of `reapNow` adds up what its releases report. -/
theorem cleaned_finalizeAll {indices : List Nat} {cleanup result : CleanupStats}
    (h : World.finalizeAll indices world cleanup = some (next, result))
    (hknown : Known world.registry) {start : Registry}
    (hcleanup : Cleaned start world.registry cleanup.transportGenerations)
    (hcountable : Countable cleanup.transportGenerations) :
    Cleaned start next.registry result.transportGenerations ∧
      Countable result.transportGenerations ∧ next.candidates = world.candidates ∧
      next.pending = world.pending ∧ next.delivered = world.delivered := by
  induction indices generalizing world cleanup with
  | nil =>
    cases h
    exact ⟨hcleanup, hcountable, rfl, rfl, rfl⟩
  | cons index rest ih =>
    simp only [World.finalizeAll] at h
    split at h
    · contradiction
    split at h
    · contradiction
    rename_i registry released closed hrelease
    have hcleaned := cleaned_releaseRefsLocked hrelease
    have hreleased := hcleaned.countable hknown
    have hadd : ∀ action, reported action (cleanup.add released).transportGenerations =
        reported action cleanup.transportGenerations +
          reported action released.transportGenerations :=
      reported_foldl_add hreleased _
    have hboth : Countable (cleanup.add released).transportGenerations :=
      hreleased.foldl_add hcountable
    have hknown' : Known registry := fun key hkey => hknown key (hcleaned.keys hkey)
    have hsum : Cleaned start registry (cleanup.add released).transportGenerations := by
      refine ⟨?_, ?_, hcleaned.keys.trans hcleanup.keys, fun _ => hboth⟩
      · rw [hadd, hcleanup.live, hcleaned.live]
        ring
      · rw [hadd, hcleanup.creates, hcleaned.creates, add_zero]
    have hrest := ih h hknown' hsum hboth
    exact hrest

theorem Tracked.reapNow (h : Tracked world) {drained : List Nat}
    (hstep : world.reapNow drained = .next next) :
    Tracked next ∧ surplus next = surplus world + 0 := by
  unfold World.reapNow at hstep
  split at hstep
  · dsimp only at hstep
    split at hstep
    · contradiction
    rename_i final cleanup hfinal
    have hnone : Countable CleanupStats.zero.transportGenerations := by
      simp [Countable, CleanupStats.zero]
    have hstart : Cleaned world.registry { world.registry with
        retired := world.registry.retired.filter fun index => !world.finalizes drained index }
        CleanupStats.zero.transportGenerations := by
      refine ⟨?_, rfl, Finset.Subset.refl _, fun _ => hnone⟩
      simp [Telemetry.live, CleanupStats.zero, reported]
    obtain ⟨hcleaned, hcountable, hcandidates, hpending, hdelivered⟩ :=
      cleaned_finalizeAll hfinal h.known hstart hnone
    have hknown : Known final.registry := fun key hkey => h.known key (hcleaned.keys hkey)
    have hreports : ∀ candidate ∈ final.candidates, Reports candidate.stats := by
      rw [hcandidates]
      exact h.candidates
    split_ifs at hstep with hidle
    · -- Nothing was finalized: the loop did not run.
      rw [hidle] at hfinal
      cases hfinal
      cases hstep
      exact h.same rfl rfl rfl rfl
    · cases hstep
      apply h.advance [.cleaned { cleanup with current := final.registry.statsLocked }]
      · exact hknown
      · exact hreports
      · exact hdelivered
      · rw [World.notify, hpending]
      · simpa [deltas] using hcountable
      · have hbalance : balance (.cleaned { cleanup with
            current := final.registry.statsLocked }) =
            live final.registry - live world.registry := Cleaned.balance_cleaned hcleaned
        show live final.registry + 0 = live world.registry + _
        simp only [total, List.map_cons, List.sum_cons, List.map_nil, List.sum_nil, hbalance]
        omega
  · contradiction

theorem Tracked.acquireTunnelLease (h : Tracked world) {key : TransportKey}
    {runtime : Upstream.TransportRuntime}
    (hstep : world.acquireTunnelLease key runtime = .next next) :
    Tracked next ∧ surplus next = surplus world + 0 := by
  unfold World.acquireTunnelLease at hstep
  split at hstep
  · cases hstep
    exact h.same rfl rfl rfl rfl
  rename_i entry hentry
  split_ifs at hstep
  · cases hstep
    exact h.same rfl rfl rfl rfl
  -- The transport is already there, so only its count changes.
  have hkey : key ∈ world.registry.transports.keys :=
    Finmap.mem_keys.mpr (Finmap.mem_of_lookup_eq_some hentry)
  have hkeys : (world.registry.addLease key runtime).transports.keys =
      world.registry.transports.keys :=
    (keys_acquire key runtime).trans (Finset.insert_eq_of_mem hkey)
  cases hstep
  apply h.advance []
  · intro other hother
    exact h.known other (hkeys ▸ hother)
  · exact h.candidates
  · rfl
  · exact (List.append_nil _).symm
  · simp
  · simp only [Telemetry.live, hkeys]
    rfl

theorem Tracked.releaseLeaseLocked (h : Tracked world)
    (hstep : world.releaseLeaseLocked index = .next next) :
    Tracked next ∧ surplus next = surplus world + 0 := by
  unfold World.releaseLeaseLocked at hstep
  split at hstep
  · contradiction
  rename_i lease hlease
  split_ifs at hstep
  split at hstep
  · contradiction
  rename_i transports dropped hrelease
  obtain ⟨hkey, hkeys⟩ := keys_release hrelease
  cases hstep
  have hcleaned : Cleaned world.registry (world.registry.dropLease transports)
      (Upstream.leaseCleanup lease.key dropped
        (world.registry.dropLease transports).statsLocked).transportGenerations := by
    cases dropped with
    | none =>
      have hsame : (world.registry.dropLease transports).transports.keys =
          world.registry.transports.keys := hkeys
      refine ⟨?_, rfl, hsame.subset, fun _ => by simp [Upstream.leaseCleanup, Countable]⟩
      simp [Telemetry.live, hsame, Upstream.leaseCleanup, reported]
    | some value =>
      have herase : (world.registry.dropLease transports).transports.keys =
          world.registry.transports.keys.erase lease.key := hkeys
      have hcard := Finset.card_erase_add_one hkey
      refine ⟨?_, ?_, herase ▸ Finset.erase_subset _ _, fun hknown => ?_⟩
      · simp only [Upstream.leaseCleanup, Option.isSome_some, if_true,
          reported_add _ _ _ _ _ (show (0 : Int) < 1 by omega), Telemetry.live, herase]
        simp only [reported, total_nil]
        omega
      · simp only [Upstream.leaseCleanup, Option.isSome_some, if_true,
          reported_add _ _ _ _ _ (show (0 : Int) < 1 by omega)]
        simp [reported]
      · have hempty : Countable [] := by simp [Countable]
        simp only [Upstream.leaseCleanup, Option.isSome_some, if_true]
        exact hempty.add _ _ (hknown lease.key hkey) _
  apply h.advance [.cleaned (Upstream.leaseCleanup lease.key dropped
    (world.registry.dropLease transports).statsLocked)]
  · exact fun key hmem => h.known key (hcleaned.keys hmem)
  · exact h.candidates
  · rfl
  · rfl
  · simpa [deltas] using hcleaned.countable h.known
  · show live (world.registry.dropLease transports) + 0 = live world.registry + _
    simp only [total, List.map_cons, List.sum_cons, List.map_nil, List.sum_nil,
      hcleaned.balance_cleaned]
    omega

/-- Delivering a notification moves its balance from pending to delivered. -/
theorem Tracked.deliver (h : Tracked world) {notification : Notification}
    (hpending : world.pending[index]? = some notification) :
    Tracked { world with
        pending := world.pending.eraseIdx index
        delivered := world.delivered ++ [notification] } ∧
      surplus { world with
        pending := world.pending.eraseIdx index
        delivered := world.delivered ++ [notification] } = surplus world + 0 := by
  obtain ⟨hlt, rfl⟩ := List.getElem?_eq_some_iff.mp hpending
  refine ⟨⟨h.known, h.candidates, ?_, ?_⟩, ?_⟩
  · exact forall_mem_concat h.delivered (h.pending _ (List.getElem_mem hlt))
  · exact fun other hother => h.pending other (List.mem_of_mem_eraseIdx hother)
  · have hperm := (List.getElem_cons_eraseIdx_perm hlt).map balance
    have hsum := hperm.sum_eq
    simp only [List.map_cons, List.sum_cons] at hsum
    simp only [surplus, total_concat]
    simp only [total] at hsum ⊢
    omega

/-- Only a rollback moves the surplus, by what it reports again. -/
theorem Tracked.step {platform : Platform} {action : Upstream.Action} (h : Tracked world)
    (hstep : world.step platform action = .next next) :
    Tracked next ∧ surplus next = surplus world + repeats world action := by
  cases action with
  | prepareAllowed =>
    simp only [World.step, World.prepareAllowed] at hstep
    split at hstep <;> cases hstep
    · exact h.quiet rfl rfl rfl rfl (by simp [deltas])
    · exact h.same rfl rfl rfl rfl
  | prepare resources =>
    simp only [World.step, World.prepare] at hstep
    split at hstep
    · contradiction
    rename_i hcall
    cases hstep
    exact h.prepareCall hcall
  | commit candidate => exact h.commit hstep
  | rollback candidate => exact h.rollback hstep
  | rollbackRelease candidate => exact h.rollbackRelease hstep
  | reapNow drained => exact h.reapNow hstep
  | acquireTunnelLease key runtime => exact h.acquireTunnelLease hstep
  | releaseLeaseLocked lease => exact h.releaseLeaseLocked hstep
  | close =>
    cases hstep
    exact h.same rfl rfl rfl rfl
  | deliver index =>
    simp only [World.step] at hstep
    split at hstep
    · contradiction
    rename_i hpending
    cases hstep
    exact h.deliver hpending
  | registerRetired set =>
    simp only [World.step, World.registerRetired] at hstep
    split at hstep
    · contradiction
    split_ifs at hstep
    cases hstep
    exact h.quiet rfl rfl rfl rfl (by simp [deltas])
  | countCommitted | tryAcquire | releaseLoad | releaseSwap | retire | ownerLoad | ownerSwap
  | releaseLease =>
    simp only [World.step, World.countCommitted, World.tryAcquire, World.releaseLoad,
      World.releaseSwap, World.retire, World.ownerLoad, World.ownerSwap, World.releaseLease] at hstep
    repeat' split at hstep
    all_goals first | contradiction | (cases hstep; exact h.same rfl rfl rfl rfl)

theorem initial_tracked (maxRetiredSnapshots : Nat) :
    Tracked (World.initial maxRetiredSnapshots) ∧
      surplus (World.initial maxRetiredSnapshots) = 0 := by
  refine ⟨⟨?_, ?_, ?_, ?_⟩, rfl⟩
  · intro key hkey
    simp [World.initial, Registry.initial] at hkey
  all_goals simp [World.initial]

/-- Along a run the surplus is at least what it was, and it stays exactly when no
step reports anything again. -/
theorem surplus_runAll {platform : Platform} {actions : List Upstream.Action}
    {start finish : World} (h : Tracked start)
    (hrun : runAll (World.step platform) actions start = some finish) :
    Tracked finish ∧ surplus start ≤ surplus finish ∧
      (surplus finish = surplus start ↔
        ∀ before action rest middle, actions = before ++ action :: rest →
          runAll (World.step platform) before start = some middle → repeats middle action = 0) := by
  induction actions generalizing start with
  | nil =>
    cases hrun
    refine ⟨h, le_rfl, fun _ before action rest middle hsplit => ?_, fun _ => rfl⟩
    simp at hsplit
  | cons action rest ih =>
    simp only [runAll] at hrun
    split at hrun
    · rename_i next hnext
      obtain ⟨htracked, hsurplus⟩ := h.step hnext
      obtain ⟨hfinish, hle, hiff⟩ := ih htracked hrun
      refine ⟨hfinish, by omega, ?_, ?_⟩
      · intro hsame before other others middle hsplit hbefore
        cases before with
        | nil =>
          cases hsplit
          cases hbefore
          omega
        | cons first before =>
          obtain ⟨rfl, htail⟩ := List.cons.inj hsplit
          simp only [runAll, hnext] at hbefore
          exact hiff.mp (by omega) before other others middle htail hbefore
      · intro hzero
        have hfirst := hzero [] action rest start rfl rfl
        have hrest := hiff.mpr fun before other others middle hsplit hbefore =>
          hzero (action :: before) other others middle (by rw [hsplit]; rfl)
            (by simp only [runAll, hnext, hbefore])
        omega
    · contradiction

/-- The telemetry has counted what was delivered. -/
theorem events_observed (h : Tracked world) (action : GenerationAction) :
    (observed world).events action =
      total (fun notification => reported action (deltas notification)) world.delivered := by
  have hall : ∀ (notifications : List Notification) (telemetry : Telemetry),
      (∀ notification ∈ notifications, Countable (deltas notification)) →
      (notifications.foldl Telemetry.observe telemetry).events action =
        telemetry.events action +
          total (fun notification => reported action (deltas notification)) notifications := by
    intro notifications
    induction notifications with
    | nil => simp
    | cons notification rest ih =>
      intro telemetry hcountable
      obtain ⟨hfirst, hrest⟩ := List.forall_mem_cons.mp hcountable
      have hone : (telemetry.observe notification).events action =
          telemetry.events action + reported action (deltas notification) := by
        cases notification with
        | retired stats => simp [Telemetry.observe, deltas, reported]
        | failed cause => simp [Telemetry.observe, deltas, reported]
        | _ => exact events_addTransportGenerations hfirst telemetry action
      rw [List.foldl_cons, ih _ hrest, hone]
      simp only [total, List.map_cons, List.sum_cons]
      ring
  rw [observed, hall _ _ h.delivered]
  simp [Telemetry.events, Telemetry.initial]

/-- Once everything is delivered, the creations less the retirements that the
telemetry has counted are the live transports exactly when the run has rolled back
only candidates whose preparation had created no transport. -/
theorem generations_balance_iff (platform : Platform) (maxRetiredSnapshots : Nat)
    (actions : List Upstream.Action) (world : World)
    (hrun : runAll (World.step platform) actions (World.initial maxRetiredSnapshots) = some world)
    (hdelivered : world.pending = []) :
    (observed world).events .create - (observed world).events .retire =
        world.registry.transports.keys.card ↔
      ∀ before index rest middle candidate, actions = before ++ .rollbackRelease index :: rest →
        runAll (World.step platform) before (World.initial maxRetiredSnapshots) = some middle →
        middle.candidates[index]? = some candidate → candidate.stats.createdTransports = 0 := by
  obtain ⟨hinitial, hzero⟩ := initial_tracked maxRetiredSnapshots
  obtain ⟨htracked, _, hiff⟩ := surplus_runAll hinitial hrun
  have hsurplus : (observed world).events .create - (observed world).events .retire -
      world.registry.transports.keys.card = surplus world := by
    rw [events_observed htracked, events_observed htracked, surplus, hdelivered]
    have hsplit : ∀ notifications : List Notification, total balance notifications =
        total (fun notification => reported .create (deltas notification)) notifications -
          total (fun notification => reported .retire (deltas notification)) notifications := by
      intro notifications
      induction notifications with
      | nil => rfl
      | cons notification rest ih =>
        simp only [total, balance, List.map_cons, List.sum_cons] at ih ⊢
        omega
    rw [hsplit, total_nil, add_zero, Telemetry.live]
  rw [hzero] at hiff
  constructor
  · intro hbalance before index rest middle candidate hsplit hbefore hcandidate
    have hnone := hiff.mp (by omega) before _ rest middle hsplit hbefore
    simpa only [repeats, hcandidate] using hnone
  · intro hnone
    have hsame : surplus world = 0 := by
      apply hiff.mpr
      intro before action rest middle hsplit hbefore
      cases action with
      | rollbackRelease index =>
        simp only [repeats]
        split
        · rfl
        · rename_i candidate hcandidate
          exact hnone before index rest middle candidate hsplit hbefore hcandidate
      | _ => rfl
    omega

/-- A preparation that succeeds and is rolled back leaves one creation too many. -/
theorem generations_balance_fails :
    ∃ world, runAll (World.step Upstream.samplePlatform)
        [.prepare Upstream.sampleResources, .rollback 0, .rollbackRelease 0, .deliver 0, .deliver 0,
          .deliver 0] (World.initial 4) = some world ∧
      world.pending.length = 0 ∧ (observed world).events .create = 2 ∧
      (observed world).events .retire = 1 ∧ world.registry.transports.keys.card = 0 := by
  have hrun : (runAll (World.step Upstream.samplePlatform)
      [.prepare Upstream.sampleResources, .rollback 0, .rollbackRelease 0, .deliver 0, .deliver 0,
        .deliver 0] (World.initial 4)).map (fun world =>
        (world.pending.length, (observed world).events .create, (observed world).events .retire,
          world.registry.transports.keys.card)) = some (0, 2, 1, 0) := by
    decide +kernel
  obtain ⟨world, hworld, hshape⟩ := Option.map_eq_some_iff.mp hrun
  simp only [Prod.mk.injEq] at hshape
  exact ⟨world, hworld, hshape⟩

/-- A preparation that is committed balances. -/
theorem generations_balance_iff_committed :
    ∃ world, runAll (World.step Upstream.samplePlatform)
        [.prepare Upstream.sampleResources, .commit 0, .countCommitted 0, .deliver 0]
        (World.initial 4) = some world ∧ world.pending = [] ∧
      (observed world).events .create - (observed world).events .retire =
        world.registry.transports.keys.card := by
  have hrun : (runAll (World.step Upstream.samplePlatform)
      [.prepare Upstream.sampleResources, .commit 0, .countCommitted 0, .deliver 0]
      (World.initial 4)).map (fun world => world.pending.length) = some 0 := by
    decide +kernel
  obtain ⟨world, hworld, hlength⟩ := Option.map_eq_some_iff.mp hrun
  have hpending : world.pending = [] := List.length_eq_zero_iff.mp hlength
  refine ⟨world, hworld, hpending, ?_⟩
  apply (generations_balance_iff Upstream.samplePlatform 4 _ world hworld hpending).mpr
  intro before index rest middle candidate hsplit
  have hmem : Upstream.Action.rollbackRelease index ∈
      [.prepare Upstream.sampleResources, .commit 0, .countCommitted 0, .deliver 0] := by
    rw [hsplit]
    simp
  simp at hmem

end GGateway.Telemetry
