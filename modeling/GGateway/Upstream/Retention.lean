import GGateway.Upstream.Conservation
import GGateway.Upstream.Frames

/-!
# The retired list

What each step of the registry does to the list of retired plan sets and to the
number of active ones:

* `registerRetired` moves one set from the active ones to the list;
* `countCommitted` adds an active one;
* a pass of the reaper only takes sets off the list, and it takes off those whose
  count it found at zero;
* every other step leaves both alone.
-/

namespace GGateway.Upstream

open Text Model Library Library.RefTable Library.Transition

/-! ## Steps that retire nothing -/

/-- Nothing was added to the retired list. -/
structure Registry.Retains (before after : Registry) : Prop where
  limit : after.maxRetiredSnapshots = before.maxRetiredSnapshots
  closed : after.closed = before.closed
  active : after.activePlanSets = before.activePlanSets
  retired : after.retired.Sublist before.retired

theorem Registry.SameFrame.retains {before after : Registry} (h : before.SameFrame after) :
    before.Retains after :=
  ⟨h.maxRetiredSnapshots, h.closed, h.activePlanSets, h.retired ▸ List.Sublist.refl _⟩

theorem Registry.Retains.refl (registry : Registry) : registry.Retains registry :=
  (Registry.SameFrame.refl registry).retains

theorem releaseRefsLocked_sameFrame {registry next : Registry} {owned : ResourceRefs}
    {cleanup : CleanupStats} {closed : List TransportRuntime}
    (h : registry.releaseRefsLocked owned = some (next, cleanup, closed)) :
    registry.SameFrame next := by
  simp only [Registry.releaseRefsLocked, Option.bind_eq_bind, Option.bind_eq_some_iff] at h
  obtain ⟨_, _, _, _, _, _, _, _, _, _, hnext⟩ := h
  cases hnext
  exact ⟨rfl, rfl, rfl, rfl, rfl⟩

variable {world next : World} {platform : Platform}

theorem finalizeAll_sameFrame {indices : List Nat} {cleanup total : CleanupStats}
    (h : World.finalizeAll indices world cleanup = some (next, total)) :
    world.registry.SameFrame next.registry := by
  induction indices generalizing world cleanup with
  | nil =>
    cases h
    exact .refl _
  | cons index rest ih =>
    simp only [World.finalizeAll] at h
    split at h
    · contradiction
    split at h
    · contradiction
    · rename_i released _ hreleased
      exact (releaseRefsLocked_sameFrame hreleased).trans (ih h)

/-- A pass of the reaper keeps the sets that it does not finalize, in order. -/
theorem retired_reapNow {drained : List Nat} (h : world.reapNow drained = .next next) :
    next.registry.retired =
        world.registry.retired.filter (fun index => !world.finalizes drained index) ∧
      world.registry.Retains next.registry := by
  unfold World.reapNow at h
  split_ifs at h
  dsimp only at h
  split at h
  · contradiction
  rename_i reached cleanup hreached
  have hframe := finalizeAll_sameFrame hreached
  have hnext : next.registry = reached.registry := by
    split_ifs at h <;> (obtain rfl := Outcome.next.inj h; rfl)
  rw [hnext]
  constructor
  · exact hframe.retired
  · refine ⟨hframe.maxRetiredSnapshots, hframe.closed, hframe.activePlanSets, ?_⟩
    rw [hframe.retired]
    exact List.filter_sublist

/-- A retired set that the pass found at zero is gone. -/
theorem World.Consistent.not_mem_of_reapNow (h : world.Consistent) {drained : List Nat}
    (hstep : world.reapNow drained = .next next) {index : Nat} (hindex : index ∈ drained) :
    index ∉ next.registry.retired := by
  intro hkept
  rw [(retired_reapNow hstep).1, List.mem_filter] at hkept
  obtain ⟨hmem, hnot⟩ := hkept
  have hregisters := h.booked.registers
  rw [List.append_nil] at hregisters
  obtain ⟨set, hset, hlisted⟩ := (hregisters.mem_iff index).mp hmem
  -- A set on the list has not been finalized by an earlier pass.
  have hlive : set.finalized = false := by
    unfold PlanSet.listed at hlisted
    split at hlisted
    all_goals simp_all
  simp [World.finalizes, hset, hlive, hindex] at hnot

/-! ## The other steps -/

def Action.retains : Action → Bool
  | .countCommitted _ | .registerRetired _ | .close => false
  | _ => true

theorem World.Consistent.prepareCall_retains (h : world.Consistent) {resources : ResourceSet}
    {result : Except PrepareError Nat}
    (hcall : world.prepareCall platform resources = some (next, result)) :
    world.registry.Retains next.registry ∧
      ∀ candidate, result = .ok candidate → world.registry.prepareErrorLocked = none := by
  unfold World.prepareCall at hcall
  split at hcall
  · cases hcall
    exact ⟨.refl _, nofun⟩
  rename_i normalized _
  split at hcall
  · cases hcall
    exact ⟨.refl _, nofun⟩
  rename_i materials _
  split at hcall
  · cases hcall
    exact ⟨.refl _, nofun⟩
  rename_i hallowed
  obtain ⟨reached, cause, stats, cleanup, hresult, hframe, _⟩ |
    ⟨reached, plans, owned, stats, hresult, hacquired⟩ :=
    h.owned.accounts.prepareLocked platform materials normalized
  · rw [hresult] at hcall
    cases hcall
    exact ⟨hframe.retains, nofun⟩
  · rw [hresult] at hcall
    cases hcall
    exact ⟨hacquired.frame.retains, fun _ _ => hallowed⟩

theorem World.Consistent.retains_step (h : world.Consistent) {action : Action}
    (haction : action.retains = true) (hstep : world.step platform action = .next next) :
    world.registry.Retains next.registry := by
  cases action with
  | countCommitted | registerRetired | close => exact absurd haction Bool.false_ne_true
  | reapNow drained => exact (retired_reapNow hstep).2
  | prepare resources =>
    simp only [World.step, World.prepare] at hstep
    split at hstep
    · contradiction
    rename_i reached result hcall
    cases hstep
    exact (h.prepareCall_retains hcall).1
  | rollbackRelease candidate =>
    simp only [World.step, World.rollbackRelease] at hstep
    split at hstep
    · contradiction
    split_ifs at hstep
    split at hstep
    · contradiction
    rename_i released _ _ hreleased
    cases hstep
    exact (releaseRefsLocked_sameFrame hreleased).retains
  | acquireTunnelLease | releaseLeaseLocked =>
    -- The transports and the number of leases change, nothing else.
    simp only [World.step, World.acquireTunnelLease, World.releaseLeaseLocked] at hstep
    repeat' split at hstep
    all_goals first
      | contradiction
      | (cases hstep; exact ⟨rfl, rfl, rfl, List.Sublist.refl _⟩)
  | prepareAllowed | commit | rollback | tryAcquire | releaseLoad | releaseSwap | retire | ownerLoad
  | ownerSwap | releaseLease | deliver =>
    simp only [World.step, World.prepareAllowed, World.commit, World.rollback, World.tryAcquire,
      World.releaseLoad, World.releaseSwap, World.retire, World.ownerLoad, World.ownerSwap,
      World.releaseLease] at hstep
    repeat' split at hstep
    all_goals first | contradiction | (cases hstep; exact .refl _)

theorem registry_countCommitted {index : Nat}
    (h : world.step platform (.countCommitted index) = .next next) :
    next.registry =
      { world.registry with activePlanSets := world.registry.activePlanSets + 1 } := by
  simp only [World.step, World.countCommitted] at h
  split at h
  · contradiction
  split_ifs at h
  cases h
  rfl

theorem registry_registerRetired {index : Nat}
    (h : world.step platform (.registerRetired index) = .next next) :
    next.registry =
      { world.registry with
        activePlanSets := world.registry.activePlanSets - 1
        retired := world.registry.retired ++ [index] } := by
  simp only [World.step, World.registerRetired] at h
  split at h
  · contradiction
  split_ifs at h
  cases h
  rfl

/-! ## Phases -/

/-- The steps that `Commit` and `Retire` consist of. -/
def Action.phased : Action → Bool
  | .commit _ | .countCommitted _ | .retire _ | .registerRetired _ | .ownerSwap _ _ => true
  | _ => false

/-- Any other step leaves every plan set in its phase. -/
theorem phaseAt_of_not_phased {action : Action} (haction : action.phased = false)
    (h : world.step platform action = .next next) : next.phaseAt = world.phaseAt := by
  cases action with
  | commit | countCommitted | retire | registerRetired | ownerSwap =>
    exact absurd haction.symm Bool.false_ne_true
  | tryAcquire set current =>
    obtain ⟨view, hview, _, _, ⟨_, hturns⟩ | ⟨_, rfl⟩⟩ := look_tryAcquire h
    · exact phaseAt_of_turns hturns hview rfl
    · rfl
  | releaseSwap set current =>
    obtain ⟨view, hview, _, _, ⟨_, hturns⟩ | ⟨_, rfl⟩⟩ := look_releaseSwap h
    · exact phaseAt_of_turns hturns hview rfl
    · rfl
  | _ =>
    ext1 other
    rw [World.phaseAt, World.phaseAt, look_of_quiet rfl h]

end GGateway.Upstream
