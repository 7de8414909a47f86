import GGateway.Upstream.Completeness
import GGateway.Upstream.Numbering

/-!
# Which tracker a plan gets

Every tracker has a generation of its own, drawn when it is made.  `Ages` says what
a step does to the trackers of a registry: one that is registered after it was so
before, or is newer than all that were made before.  So a plan gets a new tracker
exactly if nobody held the key when it was prepared.
-/

namespace GGateway.Upstream

open Text Model Library Library.RefTable Library.Transition

/-! ## The trackers of a registry -/

structure Registry.Ages (before after : Registry) : Prop where
  generation : before.generation ≤ after.generation
  trackers : ∀ key tracker, runtime? after.health key = some tracker →
    runtime? before.health key = some tracker ∨
      before.generation < tracker.generation ∧ tracker.generation ≤ after.generation

/-- No registered tracker is newer than the counter. -/
def Registry.Bounded (registry : Registry) : Prop :=
  ∀ key tracker, runtime? registry.health key = some tracker →
    tracker.generation ≤ registry.generation

namespace Registry.Ages

variable {first second third : Registry}

theorem of_same (hgeneration : second.generation = first.generation)
    (hhealth : second.health = first.health) : first.Ages second :=
  ⟨hgeneration.ge, fun _ _ h => Or.inl (hhealth ▸ h)⟩

theorem trans (h : first.Ages second) (h' : second.Ages third) : first.Ages third := by
  refine ⟨h.generation.trans h'.generation, fun key tracker hthird => ?_⟩
  rcases h'.trackers key tracker hthird with hsecond | ⟨hnewer, hbound⟩
  · rcases h.trackers key tracker hsecond with hfirst | ⟨hnewer, hbound⟩
    · exact Or.inl hfirst
    · exact Or.inr ⟨hnewer, hbound.trans h'.generation⟩
  · exact Or.inr ⟨h.generation.trans_lt hnewer, hbound⟩

theorem bounded (h : first.Ages second) (hfirst : first.Bounded) : second.Bounded := by
  intro key tracker htracker
  rcases h.trackers key tracker htracker with hold | ⟨_, hbound⟩
  · exact (hfirst key tracker hold).trans h.generation
  · exact hbound

/-- Trackers that are made have new generations. -/
theorem of_grows (h : first.Grows second) : first.Ages second := by
  have hmono := h.health.mono
  constructor
  · omega
  · intro key tracker htracker
    rcases h.health.runtimes key tracker htracker with hold | ⟨hnewer, hbound⟩
    · exact Or.inl hold
    · right
      omega

end Registry.Ages

/-! ## What steps leave of plans -/

def trackersOf (plans : List (Bytes × Plan)) : List HealthRuntime :=
  plans.flatMap fun entry => entry.2.endpoints.filterMap PlanEndpoint.health

theorem mem_trackersOf {plans : List (Bytes × Plan)} {tracker : HealthRuntime} :
    tracker ∈ trackersOf plans ↔
      ∃ entry ∈ plans, ∃ endpoint ∈ entry.2.endpoints, endpoint.health = some tracker := by
  simp [trackersOf]

/-- No tracker of the plans is newer than a generation. -/
def OldPlans (plans : List (Bytes × Plan)) (generation : Nat) : Prop :=
  ∀ tracker ∈ trackersOf plans, tracker.generation ≤ generation

/-- What a step does to the trackers and plans of a world: plan sets and candidates
keep their plans, `Commit` adds a plan set with those of a candidate, and `Prepare`
a candidate. -/
structure World.Frame (before after : World) : Prop where
  ages : before.registry.Ages after.registry
  sets : after.sets.map PlanSet.plans = before.sets.map PlanSet.plans ∨
    ∃ candidate ∈ before.candidates,
      after.sets.map PlanSet.plans = before.sets.map PlanSet.plans ++ [candidate.plans]
  candidates : after.candidates.map Candidate.plans = before.candidates.map Candidate.plans ∨
    ∃ plans, after.candidates.map Candidate.plans =
        before.candidates.map Candidate.plans ++ [plans] ∧
      (before.registry.Bounded → OldPlans plans after.registry.generation)

theorem map_set_same {α β : Type*} {f : α → β} {objects : List α} {index : Nat}
    {object changed : α} (h : objects[index]? = some object) (hsame : f changed = f object) :
    (objects.set index changed).map f = objects.map f := by
  refine List.ext_getElem? fun other => ?_
  rw [List.getElem?_map, List.getElem?_map]
  by_cases hother : other = index
  · subst hother
    have hlt := (List.getElem?_eq_some_iff.mp h).1
    rw [List.getElem?_set_self hlt, h, Option.map_some, Option.map_some, hsame]
  · rw [List.getElem?_set_ne (Ne.symm hother)]

/-- Steps that only touch what plans do not depend on. -/
theorem World.Frame.of_same {before after : World}
    (hages : before.registry.Ages after.registry)
    (hsets : after.sets.map PlanSet.plans = before.sets.map PlanSet.plans)
    (hcandidates : after.candidates.map Candidate.plans =
      before.candidates.map Candidate.plans) : before.Frame after :=
  ⟨hages, Or.inl hsets, Or.inl hcandidates⟩

theorem World.Frame.refl (world : World) : world.Frame world :=
  .of_same (.of_same rfl rfl) rfl rfl

/-! ## Preparing -/

/-- A new plan has the positive-weight endpoints of its upstream, each with a tracker exactly
if the upstream is probed; and the tracker is new exactly if its key was not held. -/
def Distinguishes (platform : Platform) (upstreams : List Upstream) (generation : Nat)
    (held : Multiset HealthKey) (plans : List (Bytes × Plan)) : Prop :=
  ∀ entry ∈ plans, ∃ resource ∈ upstreams, entry.1 = resource.id ∧
    entry.2.endpoints.map (fun endpoint => (endpoint.identity, endpoint.weight)) =
      servedEndpoints resource ∧
    ∀ endpoint ∈ entry.2.endpoints, (endpoint.health = none ↔ resource.health.active = none) ∧
      ∀ tracker, endpoint.health = some tracker → (generation < tracker.generation ↔
        makeHealthKey platform endpoint.identity resource.health entry.2.transportKey ∉ held)

variable {platform : Platform} {world next : World}

theorem preparePlans_distinguishes {materials : MaterialIndex} {resources : List Upstream}
    {registry : Registry} {held : Demand} {p : Preparing} {plans : List (Bytes × Plan)}
    (h : preparePlans platform materials 0 resources ⟨registry, .empty, .zero⟩ = (p, .ok plans))
    (haccounts : registry.Accounts held) (hbounded : registry.Bounded) :
    Distinguishes platform resources registry.generation (held .health) plans ∧
      OldPlans plans p.registry.generation := by
  have htakes := preparePlans_takes platform materials 0 resources ⟨registry, .empty, .zero⟩
  rw [h] at htakes
  have hages := Registry.Ages.of_grows (.of_takesAll htakes)
  have hserves := preparePlans_serves h
  constructor
  · intro entry hentry
    obtain ⟨resource, hresource, hid, hplan⟩ := hserves entry hentry
    refine ⟨resource, hresource, hid, hplan.endpoints, fun endpoint hendpoint =>
      ⟨(hplan.health endpoint hendpoint).1, fun tracker htracker => ?_⟩⟩
    have hpinned := ((hplan.health endpoint hendpoint).2 tracker htracker).2
    constructor
    · -- A key that was held keeps its tracker, and that one is old.
      intro hnew hheld
      obtain ⟨value, hvalue⟩ := haccounts.exists_runtime hheld
      have hkept := htakes.runtime hvalue
      rw [hpinned] at hkept
      cases hkept
      have hold : tracker.generation ≤ registry.generation := hbounded _ tracker hvalue
      omega
    · intro hfree
      rcases hages.trackers _ tracker hpinned with hold | ⟨hnewer, _⟩
      · have hnone := (haccounts .health).lookup_eq_none_iff.mpr hfree
        rw [runtime?] at hold
        obtain ⟨entry, hlookup, _⟩ := Option.map_eq_some_iff.mp hold
        have hsome : (registry.table .health).lookup _ = some entry := hlookup
        rw [hnone] at hsome
        contradiction
      · exact hnewer
  · intro tracker htracker
    obtain ⟨entry, hentry, endpoint, hendpoint, hhealth⟩ := mem_trackersOf.mp htracker
    obtain ⟨resource, _, _, hplan⟩ := hserves entry hentry
    have hpinned := ((hplan.health endpoint hendpoint).2 tracker hhealth).2
    exact hages.bounded hbounded _ tracker hpinned

/-- A failed preparation has taken references and given them back. -/
theorem prepareLocked_ages {materials : MaterialIndex} {normalized : List Upstream}
    {registry next : Registry} {prepared : Prepared}
    (h : registry.prepareLocked platform materials normalized = some (next, prepared)) :
    registry.Ages next ∧ ∀ plans owned stats, prepared = .candidate plans owned stats →
      ∃ p, preparePlans platform materials 0 normalized ⟨registry, .empty, .zero⟩ = (p, .ok plans) ∧
        p.registry = next := by
  refine ⟨.of_grows (prepareLocked_grows h), ?_⟩
  simp only [Registry.prepareLocked] at h
  split at h
  · split at h
    · contradiction
    · cases h
      exact fun _ _ _ hcandidate => by contradiction
  · rename_i p plans hp
    cases h
    intro _ _ _ hcandidate
    obtain ⟨rfl, _⟩ := Prepared.candidate.inj hcandidate
    exact ⟨p, hp, rfl⟩

/-- A world in which only notifications are pending. -/
theorem World.Frame.notify (h : world.Frame next) (notifications : List Notification) :
    world.Frame (next.notify notifications) :=
  ⟨h.ages, h.sets, h.candidates⟩

/-- What `Prepare` does to trackers and plans. -/
theorem prepareCall_frame {resources : ResourceSet} {result : Except PrepareError Nat}
    (hconsistent : world.Consistent)
    (h : world.prepareCall platform resources = some (next, result)) :
    world.Frame next ∧ ∀ index, result = .ok index →
      ∃ normalized candidate, normalize platform resources.upstreams = .ok normalized ∧
        next.candidates[index]? = some candidate ∧ candidate.phase = .prepared ∧
        (world.registry.Bounded →
          Distinguishes platform normalized world.registry.generation (world.holdings .health)
            candidate.plans) := by
  unfold World.prepareCall at h
  split at h
  · cases h
    exact ⟨(World.Frame.refl world).notify _, fun index hindex => by contradiction⟩
  rename_i normalized hnormalized
  split at h
  · cases h
    exact ⟨(World.Frame.refl world).notify _, fun index hindex => by contradiction⟩
  rename_i materials _
  split at h
  · cases h
    exact ⟨(World.Frame.refl world).notify _, fun index hindex => by contradiction⟩
  split at h
  · contradiction
  · rename_i registry cause stats cleanup hprepared
    cases h
    have hages := (prepareLocked_ages hprepared).1
    exact ⟨.of_same hages rfl rfl, fun index hindex => by contradiction⟩
  · rename_i registry plans owned stats hprepared
    cases h
    obtain ⟨hages, hcandidate⟩ := prepareLocked_ages hprepared
    obtain ⟨p, hp, rfl⟩ := hcandidate plans owned stats rfl
    have hplans := preparePlans_distinguishes hp hconsistent.owned.accounts
    have hadded : ∀ notifications, (World.notify { world with
          registry := p.registry
          candidates := world.candidates ++ [⟨plans, owned, stats, .prepared⟩] }
        notifications).candidates.map Candidate.plans =
          world.candidates.map Candidate.plans ++ [plans] := by
      simp [World.notify]
    refine ⟨⟨hages, Or.inl rfl, Or.inr ⟨plans, hadded _, fun hbounded => (hplans hbounded).2⟩⟩,
      fun index hindex => ?_⟩
    cases hindex
    exact ⟨normalized, ⟨plans, owned, stats, .prepared⟩, hnormalized, by simp [World.notify],
      rfl, fun hbounded => (hplans hbounded).1⟩

/-! ## Steps -/

theorem finalizeAll_frame {indices : List Nat} {cleanup total : CleanupStats}
    (h : World.finalizeAll indices world cleanup = some (next, total)) :
    world.registry.Ages next.registry ∧
      next.sets.map PlanSet.plans = world.sets.map PlanSet.plans ∧
      next.candidates = world.candidates := by
  induction indices generalizing world cleanup with
  | nil =>
    cases h
    exact ⟨.of_same rfl rfl, rfl, rfl⟩
  | cons first rest ih =>
    simp only [World.finalizeAll] at h
    split at h
    · contradiction
    rename_i set hset
    split at h
    · contradiction
    rename_i registry released closed hrelease
    obtain ⟨hages, hsets, hcandidates⟩ := ih h
    refine ⟨(Registry.Ages.of_grows (.of_release hrelease)).trans hages, ?_, hcandidates⟩
    rw [hsets]
    exact map_set_same hset rfl

theorem reapNow_frame {drained : List Nat} (h : world.reapNow drained = .next next) :
    world.Frame next ∧ next.candidates = world.candidates := by
  unfold World.reapNow at h
  split_ifs at h
  dsimp only at h
  split at h
  · contradiction
  rename_i reaped cleanup hreaped
  obtain ⟨hages, hsets, hcandidates⟩ := finalizeAll_frame hreaped
  have hframe : world.Frame reaped :=
    .of_same ⟨hages.generation, hages.trackers⟩ hsets (by rw [hcandidates])
  split_ifs at h
  · cases h
    exact ⟨hframe, hcandidates⟩
  · cases h
    exact ⟨hframe.notify _, hcandidates⟩

theorem frame_step {action : Action} (hconsistent : world.Consistent)
    (h : world.step platform action = .next next) : world.Frame next := by
  cases action with
  | prepareAllowed =>
    simp only [World.step, World.prepareAllowed] at h
    split at h <;> (obtain rfl := Outcome.next.inj h)
    · exact (World.Frame.refl world).notify _
    · exact .refl world
  | prepare resources =>
    simp only [World.step, World.prepare] at h
    split at h
    · contradiction
    rename_i reached result hreached
    cases h
    exact (prepareCall_frame hconsistent hreached).1
  | commit index =>
    simp only [World.step, World.commit] at h
    split at h
    · contradiction
    rename_i candidate hcandidate
    split_ifs at h
    · cases h
      exact .refl world
    cases h
    refine ⟨.of_same rfl rfl, Or.inr ⟨candidate, List.mem_of_getElem? hcandidate, ?_⟩,
      Or.inl (map_set_same hcandidate rfl)⟩
    simp
  | rollback index =>
    simp only [World.step, World.rollback] at h
    split at h
    · contradiction
    rename_i candidate hcandidate
    split_ifs at h
    · cases h
      exact .refl world
    · cases h
      exact .of_same (.of_same rfl rfl) rfl (map_set_same hcandidate rfl)
  | rollbackRelease index =>
    simp only [World.step, World.rollbackRelease] at h
    split at h
    · contradiction
    rename_i candidate hcandidate
    split_ifs at h
    split at h
    · contradiction
    rename_i registry cleanup closed hrelease
    cases h
    exact .of_same (.of_grows (.of_release hrelease)) rfl (map_set_same hcandidate rfl)
  | reapNow drained => exact (reapNow_frame h).1
  | countCommitted index | tryAcquire index current | releaseLoad index | releaseSwap index current
  | retire index | registerRetired index | ownerLoad index | ownerSwap index current =>
    simp only [World.step, World.countCommitted, World.tryAcquire, World.releaseLoad,
      World.releaseSwap, World.retire, World.registerRetired, World.ownerLoad,
      World.ownerSwap] at h
    split at h
    · contradiction
    rename_i set hset
    repeat' split at h
    all_goals first
      | contradiction
      | (obtain rfl := Outcome.next.inj h
         exact .of_same (.of_same rfl rfl) (map_set_same hset rfl) rfl)
      | (obtain rfl := Outcome.next.inj h
         exact .refl world)
  | acquireTunnelLease key runtime | releaseLease index | releaseLeaseLocked index
  | close | deliver index =>
    simp only [World.step, World.acquireTunnelLease, World.releaseLease,
      World.releaseLeaseLocked] at h
    repeat' split at h
    all_goals first
      | contradiction
      | (obtain rfl := Outcome.next.inj h
         exact .of_same (.of_same rfl rfl) rfl rfl)

/-! ## Runs -/

/-- No tracker is newer than the counter, whoever points to it. -/
structure World.Aged (world : World) : Prop where
  registry : world.registry.Bounded
  sets : ∀ plans ∈ world.sets.map PlanSet.plans, OldPlans plans world.registry.generation
  candidates : ∀ plans ∈ world.candidates.map Candidate.plans,
    OldPlans plans world.registry.generation

theorem initial_aged (maxRetiredSnapshots : Nat) : (World.initial maxRetiredSnapshots).Aged := by
  refine ⟨fun key tracker htracker => ?_, ?_, ?_⟩
  · contradiction
  · simp [World.initial]
  · simp [World.initial]

theorem World.Frame.aged {before after : World} (h : before.Frame after) (hbefore : before.Aged) :
    after.Aged := by
  have hkept : ∀ {plans}, OldPlans plans before.registry.generation →
      OldPlans plans after.registry.generation :=
    fun hold tracker htracker => (hold tracker htracker).trans h.ages.generation
  refine ⟨h.ages.bounded hbefore.registry, fun plans hplans => ?_, fun plans hplans => ?_⟩
  · rcases h.sets with hsame | ⟨candidate, hcandidate, hadded⟩
    · exact hkept (hbefore.sets plans (hsame ▸ hplans))
    rw [hadded, List.mem_append, List.mem_singleton] at hplans
    rcases hplans with hold | rfl
    · exact hkept (hbefore.sets plans hold)
    · exact hkept (hbefore.candidates _ (List.mem_map_of_mem hcandidate))
  · rcases h.candidates with hsame | ⟨added, hadded, hnew⟩
    · exact hkept (hbefore.candidates plans (hsame ▸ hplans))
    rw [hadded, List.mem_append, List.mem_singleton] at hplans
    rcases hplans with hold | rfl
    · exact hkept (hbefore.candidates plans hold)
    · exact hnew hbefore.registry

/-- A plan set keeps its plans. -/
theorem World.Frame.set {before after : World} (h : before.Frame after) {index : Nat}
    {set : PlanSet} (hset : before.sets[index]? = some set) :
    ∃ found, after.sets[index]? = some found ∧ found.plans = set.plans := by
  have hlt := (List.getElem?_eq_some_iff.mp hset).1
  have hplans : (after.sets.map PlanSet.plans)[index]? = some set.plans := by
    rcases h.sets with hsame | ⟨candidate, _, hadded⟩
    · rw [hsame, List.getElem?_map, hset, Option.map_some]
    · rw [hadded, List.getElem?_append_left (by simpa using hlt), List.getElem?_map, hset,
        Option.map_some]
  rw [List.getElem?_map] at hplans
  exact Option.map_eq_some_iff.mp hplans

def Action.onCandidates : Action → Bool
  | .prepare _ | .commit _ | .rollback _ | .rollbackRelease _ => true
  | _ => false

theorem candidates_of_step {action : Action} (haction : action.onCandidates = false)
    (h : world.step platform action = .next next) : next.candidates = world.candidates := by
  cases action with
  | prepare | commit | rollback | rollbackRelease => contradiction
  | reapNow drained => exact (reapNow_frame h).2
  | prepareAllowed | countCommitted | tryAcquire | releaseLoad | releaseSwap | retire
  | registerRetired | ownerLoad | ownerSwap | acquireTunnelLease | releaseLease
  | releaseLeaseLocked | close | deliver =>
    simp only [World.step, World.prepareAllowed, World.countCommitted, World.tryAcquire,
      World.releaseLoad, World.releaseSwap, World.retire, World.registerRetired, World.ownerLoad,
      World.ownerSwap, World.acquireTunnelLease, World.releaseLease,
      World.releaseLeaseLocked] at h
    repeat' split at h
    all_goals first
      | contradiction
      | (obtain rfl := Outcome.next.inj h; rfl)

end GGateway.Upstream
