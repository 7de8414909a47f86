import GGateway.Library.Stamps
import GGateway.Upstream.Acquisition
import GGateway.Upstream.Lifecycle

/-!
# Numbers are given once

The address of a transport and the generation of a health tracker are numbers that no
other transport or tracker has, before or after.  `Registry.Grows` is what every step
does to the registered transports and trackers.
-/

namespace GGateway.Upstream

open Text Model Library Library.RefTable Library.Transition

structure Registry.Grows (before after : Registry) : Prop where
  transports : Stamps.Grows TransportRuntime.id before.transports before.allocated
    after.transports after.allocated
  health : Stamps.Grows HealthRuntime.generation before.health (before.generation + 1)
    after.health (after.generation + 1)

structure Registry.Distinct (registry : Registry) : Prop where
  transports : Stamps.Distinct TransportRuntime.id registry.transports registry.allocated
  health : Stamps.Distinct HealthRuntime.generation registry.health (registry.generation + 1)

namespace Registry.Grows

variable {first second third : Registry}

theorem of_same (htransports : second.transports = first.transports)
    (hallocated : second.allocated = first.allocated) (hhealth : second.health = first.health)
    (hgeneration : second.generation = first.generation) : first.Grows second := by
  constructor
  · rw [htransports, hallocated]
    exact .refl
  · rw [hhealth, hgeneration]
    exact .refl

theorem refl (registry : Registry) : registry.Grows registry :=
  .of_same rfl rfl rfl rfl

theorem trans (h : first.Grows second) (h' : second.Grows third) : first.Grows third :=
  ⟨h.transports.trans h'.transports, h.health.trans h'.health⟩

theorem distinct (h : first.Grows second) (hfirst : first.Distinct) : second.Distinct :=
  ⟨h.transports.distinct hfirst.transports, h.health.distinct hfirst.health⟩

/-- The address counter moves with every allocation, the generation only with a tracker. -/
theorem of_takes {p q : Preparing} (h : Takes p q) : p.registry.Grows q.registry := by
  have hmoved : ∀ registry : Registry, registry.transports = p.registry.transports →
      registry.allocated = p.registry.allocated + 1 → registry.health = p.registry.health →
      registry.generation = p.registry.generation → p.registry.Grows registry := by
    intro registry htransports hallocated hhealth hgeneration
    constructor
    · rw [htransports, hallocated]
      exact Stamps.grows_counter (Nat.le_succ _)
    · rw [hhealth, hgeneration]
      exact .refl
  cases h with
  | transport key =>
    constructor
    · exact Stamps.grows_acquire (Nat.le_succ _) fun _ => ⟨rfl, Nat.lt_succ_self _⟩
    · exact .refl
  | selection key => exact hmoved _ rfl rfl rfl rfl
  | endpoint identity target => exact hmoved _ rfl rfl rfl rfl
  | budget key policy => exact hmoved _ rfl rfl rfl rfl
  | count plan => exact .of_same rfl rfl rfl rfl
  | health key policy endpoint transport =>
    have hgeneration : (p.takeHealth key policy endpoint transport).1.registry.generation =
        if (p.registry.health.lookup key).isNone then p.registry.generation + 1
        else p.registry.generation := rfl
    constructor
    · exact .refl
    · apply Stamps.grows_acquire
      · rw [hgeneration]
        split_ifs <;> omega
      · intro hnone
        have hlookup : (p.registry.health.lookup key).isNone = true := by
          rw [Option.isNone_iff_eq_none]
          exact Option.map_eq_none_iff.mp hnone
        rw [hgeneration, if_pos hlookup]
        exact ⟨rfl, Nat.lt_succ_self _⟩

theorem of_takesAll {p q : Preparing} (h : TakesAll p q) : p.registry.Grows q.registry := by
  induction h with
  | refl => exact .refl _
  | tail _ hstep ih => exact ih.trans (of_takes hstep)

theorem of_release {registry next : Registry} {owned : ResourceRefs} {cleanup : CleanupStats}
    {closed : List TransportRuntime}
    (h : registry.releaseRefsLocked owned = some (next, cleanup, closed)) :
    registry.Grows next := by
  simp only [Registry.releaseRefsLocked, Option.bind_eq_bind, Option.bind_eq_some_iff] at h
  obtain ⟨_, _, ⟨transports, _⟩, htransports, _, _, ⟨health, _⟩, hhealth, _, _, hnext⟩ := h
  cases hnext
  constructor
  · exact Stamps.grows_of_subset fun _ _ => runtime?_of_releaseAll htransports
  · exact Stamps.grows_of_subset fun _ _ => runtime?_of_releaseAll hhealth

end Registry.Grows

/-! ## Steps -/

variable {platform : Platform} {world next : World}

theorem prepareLocked_grows {materials : MaterialIndex} {normalized : List Upstream}
    {registry next : Registry} {prepared : Prepared}
    (h : registry.prepareLocked platform materials normalized = some (next, prepared)) :
    registry.Grows next := by
  have hgrows := Registry.Grows.of_takesAll
    (preparePlans_takes platform materials 0 normalized ⟨registry, .empty, .zero⟩)
  simp only [Registry.prepareLocked] at h
  split at h
  · rename_i p cause hp
    rw [hp] at hgrows
    split at h
    · contradiction
    rename_i released cleanup closed hrelease
    cases h
    exact hgrows.trans (.of_release hrelease)
  · rename_i p plans hp
    rw [hp] at hgrows
    cases h
    exact hgrows

theorem prepareCall_grows {resources : ResourceSet} {result : Except PrepareError Nat}
    (h : world.prepareCall platform resources = some (next, result)) :
    world.registry.Grows next.registry := by
  unfold World.prepareCall at h
  split at h
  · cases h
    exact .refl _
  split at h
  · cases h
    exact .refl _
  split at h
  · cases h
    exact .refl _
  split at h
  · contradiction
  · rename_i registry cause stats cleanup hprepared
    cases h
    exact prepareLocked_grows hprepared
  · rename_i registry plans owned stats hprepared
    cases h
    exact prepareLocked_grows hprepared

theorem finalizeAll_grows {indices : List Nat} {cleanup total : CleanupStats}
    (h : World.finalizeAll indices world cleanup = some (next, total)) :
    world.registry.Grows next.registry := by
  induction indices generalizing world cleanup with
  | nil =>
    cases h
    exact .refl _
  | cons first rest ih =>
    simp only [World.finalizeAll] at h
    split at h
    · contradiction
    split at h
    · contradiction
    · rename_i registry released closed hrelease
      exact (Registry.Grows.of_release hrelease).trans (ih h)

theorem grows_step {action : Action} (h : world.step platform action = .next next) :
    world.registry.Grows next.registry := by
  cases action with
  | prepare resources =>
    simp only [World.step, World.prepare] at h
    split at h
    · contradiction
    rename_i reached result hreached
    cases h
    exact prepareCall_grows hreached
  | rollbackRelease index =>
    simp only [World.step, World.rollbackRelease] at h
    repeat' split at h
    all_goals first
      | contradiction
      | (rename_i hrelease
         cases h
         exact .of_release hrelease)
  | reapNow drained =>
    simp only [World.step, World.reapNow] at h
    split at h
    · split at h
      · contradiction
      rename_i reaped cleanup hreaped
      have hgrows := finalizeAll_grows hreaped
      split at h <;>
        (obtain rfl := Outcome.next.inj h
         exact ⟨hgrows.transports, hgrows.health⟩)
    · contradiction
  | acquireTunnelLease key runtime =>
    simp only [World.step, World.acquireTunnelLease] at h
    split at h
    · cases h
      exact .refl _
    rename_i entry hentry
    split_ifs at h
    · cases h
      exact .refl _
    cases h
    constructor
    · apply Stamps.grows_acquire le_rfl
      intro hnone
      rw [runtime?, hentry] at hnone
      contradiction
    · exact .refl
  | releaseLeaseLocked index =>
    simp only [World.step, World.releaseLeaseLocked] at h
    repeat' split at h
    all_goals first
      | contradiction
      | (rename_i hrelease
         cases h
         exact ⟨Stamps.grows_of_subset fun _ _ => runtime?_of_release hrelease, .refl⟩)
  | prepareAllowed | commit | rollback | countCommitted | tryAcquire | releaseLoad | releaseSwap
  | retire | registerRetired | ownerLoad | ownerSwap | releaseLease | close | deliver =>
    simp only [World.step, World.prepareAllowed, World.commit, World.rollback,
      World.countCommitted, World.tryAcquire, World.releaseLoad, World.releaseSwap, World.retire,
      World.registerRetired, World.ownerLoad, World.ownerSwap, World.releaseLease] at h
    repeat' split at h
    all_goals first
      | contradiction
      | (obtain rfl := Outcome.next.inj h
         exact .of_same rfl rfl rfl rfl)

theorem runs_grows (h : Runs (World.step platform) world next) :
    world.registry.Grows next.registry := by
  induction h with
  | refl => exact .refl _
  | tail _ hlast ih =>
    obtain ⟨_, hstep⟩ := hlast
    exact ih.trans (grows_step hstep)

theorem World.Reachable.distinct {maxRetiredSnapshots : Nat}
    (h : World.Reachable platform maxRetiredSnapshots world) : world.registry.Distinct :=
  (runs_grows h).distinct ⟨Stamps.distinct_empty, Stamps.distinct_empty⟩

end GGateway.Upstream
