import GGateway.Runtime.Publication
import GGateway.Upstream.Restoration

/-!
# Rejected configurations

While `Apply` runs, other threads acquire and release snapshots, open tunnels and
deliver notifications.  When `Apply` then returns an error, what it took from the
registry has been given back: the registry is the one from before the call, with
the tunnels opened meanwhile, except for the generation counter, and every health
registration that the call made is retired.
-/

set_option linter.dupNamespace false

namespace GGateway.Runtime

open Text Model Library.Transition Library.RefTable
open GGateway.Upstream (Footing Registry TunnelLease World second)

/-! ## Steps of other threads -/

/-- What may happen while the call runs: everything but the release of tunnels,
and passes of the reaper that find a released plan set.  A tunnel is opened for a
selection of a published plan, so on a transport that was there before the call. -/
def Action.Permitted (before manager : Manager) : Action → Prop
  | .background (.reapNow drained) =>
    manager.world.registry.retired.filter (manager.world.finalizes drained) = []
  | .background (.acquireTunnelLease key runtime) =>
    runtime? before.world.registry.transports key = some runtime
  | .background (.releaseLease _) | .background (.releaseLeaseLocked _) => False
  | _ => True

/-- A run of permitted steps while somebody owns `applyMu`. -/
def During (env : Environment) (before : Manager) : Manager → Manager → Prop :=
  Relation.ReflTransGen fun manager next => manager.owner.isSome ∧
    ∃ action : Action, action.Permitted before manager ∧
      manager.step env action = .next next

variable {manager next before : Manager} {index : Nat} {env : Environment} {current : Int}

theorem Manager.Beside.stirs {action : Action} (h : manager.Beside env action next)
    (hpermitted : action.Permitted before manager) :
    manager.world.Stirs before.world.registry next.world := by
  rcases h.world with hworld | ⟨inner, hstep, hcounting | ⟨rfl, hallowed⟩⟩
  · rw [hworld]
    exact .still rfl rfl rfl
  · exact Upstream.stirs_of_counting hcounting hstep
  · generalize next.world = world at hstep ⊢
    cases inner with
    | reapNow drained =>
      rw [Upstream.reapNow_of_filter_eq_nil hpermitted hstep]
      exact .still rfl rfl rfl
    | acquireTunnelLease key runtime =>
      exact Upstream.stirs_of_acquireTunnelLease hpermitted hstep
    | releaseLease | releaseLeaseLocked => exact hpermitted.elim
    | deliver index =>
      simp only [World.step] at hstep
      split at hstep <;> cases hstep
      exact .still rfl rfl rfl
    | close =>
      cases hstep
      exact .closed rfl rfl rfl
    | _ => simp [Manager.allows] at hallowed

/-! ## Steps of the call -/

/-- The footing of a call at each stage; `none` once it has been accepted. -/
def ApplyStage.footing : ApplyStage → Option Footing
  | .locked | .checked | .allowed => some .untouched
  | .building candidate | .committing candidate _ | .finishing candidate (some _) =>
    some (.prepared candidate)
  | .releasing candidate (some _) => some (.rollingBack candidate)
  | .returning (some _) => some .restored
  | .counting _ _ _ | .publishing _ _ _ | .retiring _ _ _ | .finishing _ none
  | .releasing _ none | .returning none => none

def Manager.Accepted (before manager : Manager) : Prop :=
  match manager.owner with
  | none => manager.results = before.results ++ [none]
  | some (.apply call) => manager.results = before.results ∧ call.stage.footing = none
  | some (.close _) => False

/-- The call has not been accepted and is at this footing. -/
def Manager.At (before manager : Manager) (footing : Footing) : Prop :=
  match manager.owner with
  | none => footing = .restored ∧ ∃ cause, manager.results = before.results ++ [some cause]
  | some (.apply call) => manager.results = before.results ∧ call.stage.footing = some footing
  | some (.close _) => False

/-- The call has not been accepted, and what it has done can be undone. -/
structure Manager.Standing (before manager : Manager) : Prop where
  active : manager.active = before.active
  snapshots : manager.snapshots = before.snapshots
  footing : ∃ footing, before.At manager footing ∧
    manager.world.StandsOver before.world.registry before.world.leases footing

theorem Manager.Accepted.aside (h : before.Accepted manager) (hsame : manager.SameOwned next) :
    before.Accepted next := by
  unfold Manager.Accepted at h ⊢
  rw [hsame.owner, hsame.results]
  exact h

theorem Manager.Standing.aside (h : before.Standing manager) (hsame : manager.SameOwned next)
    (hstirs : manager.world.Stirs before.world.registry next.world) : before.Standing next := by
  obtain ⟨footing, hat, hstands⟩ := h.footing
  refine ⟨hsame.active.trans h.active, hsame.snapshots.trans h.snapshots, footing, ?_,
    hstands.stir hstirs⟩
  unfold Manager.At at hat ⊢
  rw [hsame.owner, hsame.results]
  exact hat

/-- Once it has been accepted, the call goes on to return no error. -/
theorem Manager.Accepted.applyStep {call : ApplyCall} (h : before.Accepted manager)
    (howner : manager.owner = some (.apply call))
    (hstep : manager.applyStep env call current = .next next) : before.Accepted next := by
  obtain ⟨hresults, hfooting⟩ : manager.results = before.results ∧ call.stage.footing = none := by
    simpa only [Manager.Accepted, howner] using h
  have hresume : ∀ (candidate old : Nat) (stage : Option RetireStage) (other : Manager),
      other.results = before.results →
      other.owner = some (retireInApply call candidate old stage) → before.Accepted other := by
    intro candidate old stage other hother howner
    unfold Manager.Accepted
    rw [howner]
    cases stage <;> exact ⟨hother, rfl⟩
  obtain ⟨revision, resources, now, stage⟩ := call
  unfold Manager.applyStep at hstep
  cases stage with
  | locked | checked | allowed | building candidate | committing candidate snapshot =>
    simp [ApplyStage.footing] at hfooting
  | counting candidate snapshot plans =>
    obtain ⟨world, -, rfl⟩ := perform_next hstep
    exact ⟨hresults, rfl⟩
  | publishing candidate snapshot plans =>
    cases hstep
    cases hold : manager.active.bind manager.plansOf with
    | none =>
      refine hresume candidate 0 none _ hresults ?_
      simp [Manager.publish, hold, Manager.publish.retireFrom]
    | some old =>
      refine hresume candidate old (some .start) _ hresults ?_
      simp [Manager.publish, hold, Manager.publish.retireFrom]
  | retiring candidate old stage =>
    unfold Manager.retireStep at hstep
    cases stage with
    | start =>
      obtain ⟨world, -, rfl⟩ := perform_next hstep
      exact hresume candidate old _ _ hresults rfl
    | register =>
      obtain ⟨world, -, rfl⟩ := perform_next hstep
      exact hresume candidate old _ _ hresults rfl
    | drop =>
      dsimp only at hstep
      by_cases hload : current ≤ 0
      · rw [if_pos hload] at hstep
        obtain ⟨world, -, rfl⟩ := perform_next hstep
        exact h.aside ⟨rfl, rfl, rfl, rfl⟩
      · rw [if_neg hload] at hstep
        obtain ⟨world, -, rfl⟩ := perform_next hstep
        exact hresume candidate old _ _ hresults rfl
  | finishing candidate result =>
    obtain ⟨world, -, rfl⟩ := perform_next hstep
    cases result with
    | some cause => simp [ApplyStage.footing] at hfooting
    | none =>
      refine ⟨hresults, ?_⟩
      split_ifs <;> rfl
  | releasing candidate result =>
    obtain ⟨world, -, rfl⟩ := perform_next hstep
    cases result with
    | some cause => simp [ApplyStage.footing] at hfooting
    | none => exact ⟨hresults, rfl⟩
  | returning result =>
    cases hstep
    cases result with
    | some cause => simp [ApplyStage.footing] at hfooting
    | none =>
      show manager.results ++ [none] = _
      rw [hresults]

/-- The call moves on, with the world it has reached. -/
theorem Manager.Standing.move (h : before.Standing manager) {call : ApplyCall}
    {stage : ApplyStage} {footing : Footing} (hresults : manager.results = before.results)
    {world : World} (hnext : next = { manager with world := world }.withStage call stage)
    (hfooting : stage.footing = some footing)
    (hstands : world.StandsOver before.world.registry before.world.leases footing) :
    before.Standing next := by
  subst hnext
  exact ⟨h.active, h.snapshots, footing, ⟨hresults, hfooting⟩, hstands⟩

/-- Until then, each step keeps or restores what the call found. -/
theorem Manager.Standing.applyStep {call : ApplyCall} (hsound : manager.Sound)
    (h : before.Standing manager) (howner : manager.owner = some (.apply call))
    (hstep : manager.applyStep env call current = .next next) :
    before.Standing next ∨ before.Accepted next := by
  obtain ⟨footing, hat, hstands⟩ := h.footing
  obtain ⟨hresults, hfooting⟩ :
      manager.results = before.results ∧ call.stage.footing = some footing := by
    simpa only [Manager.At, howner] using hat
  obtain ⟨revision, resources, now, stage⟩ := call
  unfold Manager.applyStep at hstep
  cases stage with
  | locked =>
    cases hfooting
    dsimp only at hstep
    split at hstep
    · exact Or.inl (h.move hresults (Outcome.next.inj hstep).symm rfl hstands.restored)
    · exact Or.inl (h.move hresults (Outcome.next.inj hstep).symm rfl hstands)
  | checked =>
    cases hfooting
    obtain ⟨world, hworld, rfl⟩ := perform_next hstep
    have hkept : manager.world.Stirs before.world.registry world := by
      simp only [World.step, World.prepareAllowed] at hworld
      split at hworld <;> cases hworld <;> exact .still rfl rfl rfl
    split
    · exact Or.inl (h.move hresults rfl rfl (hstands.stir hkept).restored)
    · exact Or.inl (h.move hresults rfl rfl (hstands.stir hkept))
  | allowed =>
    cases hfooting
    dsimp only at hstep
    split at hstep
    · contradiction
    · rename_i world cause hcall
      exact Or.inl (h.move hresults (Outcome.next.inj hstep).symm rfl
        (hstands.prepareCall hsound.consistent hcall))
    · rename_i world candidate hcall
      exact Or.inl (h.move hresults (Outcome.next.inj hstep).symm rfl
        (hstands.prepareCall hsound.consistent hcall))
  | building candidate =>
    cases hfooting
    dsimp only at hstep
    split at hstep
    · contradiction
    refine Or.inl (h.move hresults (Outcome.next.inj hstep).symm ?_ hstands)
    unfold afterBuild
    split
    · rfl
    · split_ifs <;> rfl
  | committing candidate snapshot =>
    cases hfooting
    obtain ⟨found, hfound, hdone⟩ := hstands.not_done
    obtain ⟨world, -, rfl⟩ := perform_next hstep
    right
    rw [candidateDone, hfound, if_neg (by simp [hdone])]
    exact ⟨hresults, rfl⟩
  | counting candidate snapshot plans => simp [ApplyStage.footing] at hfooting
  | publishing candidate snapshot plans => simp [ApplyStage.footing] at hfooting
  | retiring candidate old stage => simp [ApplyStage.footing] at hfooting
  | finishing candidate result =>
    cases result with
    | none => simp [ApplyStage.footing] at hfooting
    | some cause =>
      cases hfooting
      obtain ⟨found, hfound, hdone⟩ := hstands.not_done
      obtain ⟨world, hworld, rfl⟩ := perform_next hstep
      rw [candidateDone, hfound, if_neg (by simp [hdone])]
      exact Or.inl (h.move hresults rfl rfl (hstands.rollback hworld))
  | releasing candidate result =>
    cases result with
    | none => simp [ApplyStage.footing] at hfooting
    | some cause =>
      cases hfooting
      obtain ⟨world, hworld, rfl⟩ := perform_next hstep
      exact Or.inl (h.move hresults rfl rfl (hstands.rollbackRelease hworld))
  | returning result =>
    cases result with
    | none => simp [ApplyStage.footing] at hfooting
    | some cause =>
      cases hfooting
      cases hstep
      refine Or.inl ⟨h.active, h.snapshots, .restored, ⟨rfl, cause, ?_⟩, hstands⟩
      show manager.results ++ [some cause] = _
      rw [hresults]

/-- The call stands or has been accepted, at every point of the run. -/
theorem During.standing_or_accepted {locked : Manager}
    (h : During env before locked manager) (hsound : locked.Sound)
    (hlocked : before.Standing locked) :
    manager.Sound ∧ (before.Standing manager ∨ before.Accepted manager) := by
  induction h with
  | refl => exact ⟨hsound, Or.inl hlocked⟩
  | @tail manager next _ hstep ih =>
    obtain ⟨hsound, hwhere⟩ := ih
    obtain ⟨howned, action, hpermitted, hnext⟩ := hstep
    have hafter : next.Sound := by
      have hensures := hsound.step env action
      rwa [hnext] at hensures
    refine ⟨hafter, ?_⟩
    cases turn_of_step hnext with
    | lockApply hfree | lockClose hfree => simp [hfree] at howned
    | apply howner hstep =>
      rcases hwhere with hstanding | haccepted
      · exact hstanding.applyStep hsound howner hstep
      · exact Or.inr (haccepted.applyStep howner hstep)
    | close howner hstep =>
      rcases hwhere with hstanding | haccepted
      · obtain ⟨footing, hat, _⟩ := hstanding.footing
        simp [Manager.At, howner] at hat
      · simp [Manager.Accepted, howner] at haccepted
    | beside hbeside =>
      rcases hwhere with hstanding | haccepted
      · exact Or.inl (hstanding.aside hbeside.owned (hbeside.stirs hpermitted))
      · exact Or.inr (haccepted.aside hbeside.owned)

/-- A call of `Apply` that returns an error, from any reachable state, whatever
other threads do meanwhile short of releasing: the active pointer and the
published snapshots are as before; every table of the registry is as before, up to
the references of the tunnels `opened` meanwhile; the retired plan sets and the
counters are as before; the generation counter has not gone back, and every
registration made since is retired. -/
theorem apply_error_restores (env : Environment) (maxRetiredSnapshots : Nat)
    (before locked after : Manager) (revision : Nat) (resources : ResourceSet) (now : Int)
    (cause : BuildError) (hbefore : Manager.Reachable env maxRetiredSnapshots before)
    (hlock : before.step env (.lockApply revision resources now) = .next locked)
    (hrun : During env before locked after) (hreturned : after.owner = none)
    (hresult : after.results = before.results ++ [some cause]) :
    after.active = before.active ∧ after.snapshots = before.snapshots ∧
    ∃ opened, after.world.leases = before.world.leases ++ opened ∧
      (∀ kind, after.world.registry.table kind =
        (before.world.registry.withLeases opened).table kind) ∧
      after.world.registry.liveTunnelLeases =
        (before.world.registry.withLeases opened).liveTunnelLeases ∧
      after.world.registry.retired = before.world.registry.retired ∧
      after.world.registry.activePlanSets = before.world.registry.activePlanSets ∧
      before.world.registry.Retires after.world.registry := by
  have hsound := hbefore.sound
  have hlocked : locked.Sound ∧ before.Standing locked := by
    have hensures := hsound.step env (.lockApply revision resources now)
    rw [hlock] at hensures
    refine ⟨hensures, ?_⟩
    simp only [Manager.step] at hlock
    split at hlock
    · contradiction
    cases hlock
    exact ⟨rfl, rfl, .untouched, ⟨rfl, rfl⟩, [], before.world.holdings,
      (List.append_nil _).symm, hsound.consistent.owned.accounts, rfl⟩
  obtain ⟨_, hstanding | haccepted⟩ := hrun.standing_or_accepted hlocked.1 hlocked.2
  · obtain ⟨footing, hat, opened, held, hopened, _, hstands⟩ := hstanding.footing
    simp only [Manager.At, hreturned] at hat
    obtain ⟨rfl, _⟩ := hat
    have hrestored : (before.world.registry.baseline opened
      after.world.registry.closed).Restored after.world.registry := hstands
    obtain ⟨hretired, hactive, hgeneration, hregistrations⟩ :=
      Upstream.withLeases_frame before.world.registry opened
    refine ⟨hstanding.active, hstanding.snapshots, opened, hopened, ?_,
      hrestored.frame.liveTunnelLeases, hrestored.frame.retired.trans hretired,
      hrestored.frame.activePlanSets.trans hactive, ?_⟩
    · intro kind
      rw [hrestored.table]
      exact congrFun (Registry.table_congr rfl rfl rfl rfl rfl) kind
    · have hretires := hrestored.retires
      exact ⟨hgeneration ▸ hretires.generation, hregistrations ▸ hretires.kept,
        hgeneration ▸ hretires.created⟩
  · simp only [Manager.Accepted, hreturned, hresult] at haccepted
    simp at haccepted

theorem during_of_owner {steps : Nat}
    (h : runAll (Manager.step env) (List.replicate steps (.owner 0)) manager = some next) :
    During env before manager next := by
  induction steps generalizing manager with
  | zero =>
    cases h
    exact .refl
  | succ steps ih =>
    simp only [List.replicate_succ, runAll] at h
    split at h
    · rename_i after hafter
      refine Relation.ReflTransGen.head ⟨?_, .owner 0, trivial, hafter⟩ (ih h)
      simp only [Manager.step] at hafter
      split at hafter <;> simp_all
    · contradiction

/-- The sample upstream with another health check, and a route that names none. -/
def rejectedConfiguration : ResourceSet :=
  { sampleConfiguration with
    upstreams := [{ Upstream.sampleUpstream with
      health := ⟨some ⟨.tcp, second, second, second, 2, 0, 1, 1, [], [], [], []⟩, none⟩ }]
    routes := [⟨ascii "all", 0, ⟨[], ascii "/*", [ascii "GET"], [], []⟩, [], ascii "gone", [],
      ⟨none, none, none, none⟩, ⟨none, none⟩⟩] }

/-- A configuration that fails after its upstreams were prepared: the health
registration it made is retired. -/
theorem apply_error_restores_unknown_upstream :
    ∃ before after : Manager, Manager.Reachable sampleEnvironment 4 before ∧
      (before.active, before.world.registry.generation) = (some 0, 1) ∧
      (after.active, after.world.registry.generation) = (some 0, 2) ∧
      before.world.registry.Retires after.world.registry := by
  have hrun : ((runAll (Manager.step sampleEnvironment) (publishFirst 1)
      (Manager.initial 4)).bind fun before =>
        (runAll (Manager.step sampleEnvironment) [.lockApply 2 rejectedConfiguration 0]
          before).bind fun locked =>
        (runAll (Manager.step sampleEnvironment) (List.replicate 7 (.owner 0)) locked).map
          fun after => ((before.results.map Option.isSome, before.active,
            before.world.registry.generation), (after.owner.isSome,
            after.results.map Option.isSome, after.active, after.world.registry.generation))) =
      some (([false], some 0, 1), (false, [false, true], some 0, 2)) := by
    decide +kernel
  obtain ⟨before, hbefore, hrest⟩ := Option.bind_eq_some_iff.mp hrun
  obtain ⟨locked, hlocked, hrest⟩ := Option.bind_eq_some_iff.mp hrest
  obtain ⟨after, hafter, hshape⟩ := Option.map_eq_some_iff.mp hrest
  simp only [Prod.mk.injEq, List.map_eq_cons_iff, List.map_eq_nil_iff] at hshape
  obtain ⟨⟨⟨published, _, hresults, hpublished, rfl⟩, hactive, hgeneration⟩, howner,
    ⟨first, _, hresults', hfirst, last, _, rfl, hlast, rfl⟩, hactive', hgeneration'⟩ := hshape
  obtain ⟨cause, rfl⟩ := Option.isSome_iff_exists.mp hlast
  obtain rfl : published = none := by simpa using hpublished
  obtain rfl : first = none := by simpa using hfirst
  have hlock : before.step sampleEnvironment (.lockApply 2 rejectedConfiguration 0) =
      .next locked := by
    simp only [runAll] at hlocked
    split at hlocked
    · rename_i next hnext
      rw [hnext, Option.some.inj hlocked]
    · contradiction
  have hreach : Manager.Reachable sampleEnvironment 4 before := runs_of_runAll hbefore
  have hrestored := apply_error_restores sampleEnvironment 4 before locked after 2
    rejectedConfiguration 0 cause hreach hlock (during_of_owner hafter) (by simpa using howner)
    (by rw [hresults, hresults']; rfl)
  obtain ⟨_, _, _, _, _, _, _, _, hretires⟩ := hrestored
  exact ⟨before, after, hreach, by rw [hactive, hgeneration], by rw [hactive', hgeneration'],
    hretires⟩

end GGateway.Runtime
