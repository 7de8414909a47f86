import GGateway.Library.Liveness
import GGateway.Runtime.Retention

/-!
# The retired list does not block `Apply` forever

While every `Apply` is refused, nothing is retired, so the sets on the list are
held only by leases that were taken earlier and by calls of `Acquire` that had
already loaded one of their snapshots.

* `Manager.claims` counts both, a call twice since it may still become a lease.  It
  never grows while `Apply` waits, and each release lowers it.
* Hence every set on the list is drained at some time, a pass of the reaper takes
  it off, and the next `Apply` finds room.
-/

set_option linter.dupNamespace false

namespace GGateway.Runtime

open Text Model Library.Transition Library.Liveness
open GGateway.Upstream (Platform World PlanSetPhase Registry)

/-! ## While `Apply` is refused -/

/-- Stages in which `Apply` has no candidate. -/
def ApplyStage.waits : ApplyStage → Bool
  | .locked | .checked | .returning _ => true
  | _ => false

/-- Nobody owns `applyMu`, or an `Apply` that has not been admitted. -/
def Manager.Waits (manager : Manager) : Prop :=
  ∀ owner, manager.owner = some owner → ∃ call, owner = .apply call ∧ call.stage.waits = true

/-- `Prepare` has let an `Apply` pass. -/
def Manager.Admitted (manager : Manager) : Prop :=
  ∃ call, manager.owner = some (.apply call) ∧ call.stage = .allowed

/-- Nothing is published and nothing is retired. -/
structure Manager.Still (before after : Manager) : Prop where
  active : after.active = before.active
  snapshots : after.snapshots = before.snapshots
  phase : after.world.phaseAt = before.world.phaseAt
  retired : after.world.registry.retired.Sublist before.world.registry.retired

variable {action : Action} {set index first : Nat} {manager : Manager}

section Steps

variable {env : Environment} {manager next : Manager}

theorem Manager.Still.plansOf (h : manager.Still next) : next.plansOf = manager.plansOf := by
  ext1 snapshot
  rw [Manager.plansOf, Manager.plansOf, h.snapshots]

theorem Manager.Aside.still (h : manager.Aside env next) (hsound : manager.Sound) :
    manager.Still next := by
  refine ⟨h.owned.active, h.owned.snapshots, ?_, ?_⟩
  · rcases h.world with hsame | ⟨action, hstep, hphased, _⟩
    · rw [hsame]
    · exact Upstream.phaseAt_of_not_phased hphased hstep
  · rcases h.world with hsame | ⟨action, hstep, _, hretains | ⟨rfl, _⟩⟩
    · rw [hsame]
    · exact (hsound.consistent.retains_step hretains hstep).retired
    · rw [← Outcome.next.inj hstep]

/-- One step of an `Apply` that has not been admitted. -/
theorem Manager.Waits.ownerStep (hwaits : manager.Waits) (hsound : manager.Sound)
    {current : Int} (hstep : manager.step env (.owner current) = .next next) :
    manager.Still next ∧ next.calls = manager.calls ∧ next.leases = manager.leases ∧
      (next.Waits ∨ next.Admitted) := by
  simp only [Manager.step] at hstep
  split at hstep
  · contradiction
  · rename_i call howner
    obtain ⟨found, hfound, hstage⟩ := hwaits _ howner
    obtain rfl := Owner.apply.inj hfound
    obtain ⟨revision, resources, now, stage⟩ := call
    cases stage with
    | locked =>
      simp only [Manager.applyStep] at hstep
      split at hstep <;> cases hstep
      all_goals
        refine ⟨⟨rfl, rfl, rfl, List.Sublist.refl _⟩, rfl, rfl, Or.inl ?_⟩
        intro owner howner
        cases howner
        exact ⟨_, rfl, rfl⟩
    | checked =>
      obtain ⟨world, hworld, rfl⟩ := perform_next hstep
      have hretains := hsound.consistent.retains_step rfl hworld
      have hphase := Upstream.phaseAt_of_not_phased rfl hworld
      split
      · refine ⟨⟨rfl, rfl, hphase, hretains.retired⟩, rfl, rfl, Or.inl ?_⟩
        intro owner howner
        cases howner
        exact ⟨_, rfl, rfl⟩
      · exact ⟨⟨rfl, rfl, hphase, hretains.retired⟩, rfl, rfl, Or.inr ⟨_, rfl, rfl⟩⟩
    | returning result =>
      cases hstep
      refine ⟨⟨rfl, rfl, rfl, List.Sublist.refl _⟩, rfl, rfl, Or.inl ?_⟩
      intro owner howner
      contradiction
    | _ => exact absurd hstage Bool.false_ne_true
  · rename_i stage howner
    obtain ⟨call, hcall, _⟩ := hwaits _ howner
    contradiction

theorem Manager.Waits.step (hwaits : manager.Waits) (hsound : manager.Sound)
    (hstep : manager.step env action = .next next) :
    manager.Still next ∧ (next.Waits ∨ next.Admitted ∨ next.closeBegan) := by
  cases turn_of_step hstep with
  | lockApply =>
    refine ⟨⟨rfl, rfl, rfl, List.Sublist.refl _⟩, Or.inl ?_⟩
    intro owner howner
    cases howner
    exact ⟨_, rfl, rfl⟩
  | lockClose =>
    exact ⟨⟨rfl, rfl, rfl, List.Sublist.refl _⟩, Or.inr (Or.inr (Or.inr ⟨.locked, rfl⟩))⟩
  | apply | close =>
    obtain ⟨hstill, _, _, hgoes⟩ := hwaits.ownerStep hsound hstep
    exact ⟨hstill, hgoes.imp id Or.inl⟩
  | beside hbeside =>
    refine ⟨hbeside.aside.still hsound, Or.inl ?_⟩
    intro owner howner
    exact hwaits owner (hbeside.owned.owner ▸ howner)

/-! ## Claims on a plan set -/

/-- A call that has loaded a snapshot of the set may take a lease on it. -/
def Call.claim (plans : Nat → Option Nat) (set : Nat) (call : Call) : Nat :=
  match call.stage with
  | .acquiring snapshot => if plans snapshot = some set then 2 else 0
  | .loading | .rechecking _ | .refused _ | .leased _ _ => 0

def Manager.claims (manager : Manager) (set : Nat) : Nat :=
  total (Call.claim manager.plansOf set) manager.calls + manager.tokens set

/-- A lease on the set that is not released. -/
def Manager.Pins (manager : Manager) (set index : Nat) : Prop :=
  ∃ lease, manager.leases[index]? = some lease ∧ lease.phase ≠ .released ∧
    manager.plansOf lease.snapshot = some set

/-- The claims on a set do not grow, and while they stay the same so do the leases. -/
structure Manager.Settles (set : Nat) (before after : Manager) : Prop where
  claims : after.claims set ≤ before.claims set
  pins : after.claims set = before.claims set → ∀ index, before.Pins set index →
    after.Pins set index

theorem settles_of_same (hplans : next.plansOf = manager.plansOf)
    (hcalls : next.calls = manager.calls) (hleases : next.leases = manager.leases) :
    manager.Settles set next := by
  constructor
  · rw [Manager.claims, Manager.tokens, hplans, hcalls, hleases]
    exact le_rfl
  · intro _ index hpins
    rw [Manager.Pins, hplans, hleases]
    exact hpins

/-- A call changes its stage, and the claims fall if its own does. -/
theorem settles_of_call {call : Call} {stage : CallStage}
    (hcall : manager.calls[index]? = some call)
    (hclaim : Call.claim manager.plansOf set { call with stage := stage } ≤
      Call.claim manager.plansOf set call) :
    manager.Settles set (manager.withCall index call stage) := by
  obtain ⟨rest, hbefore, hafter⟩ := exists_total_set (Call.claim manager.plansOf set) hcall
  constructor
  · change total (Call.claim manager.plansOf set) (manager.calls.set index _) +
      manager.tokens set ≤ total (Call.claim manager.plansOf set) manager.calls +
        manager.tokens set
    rw [hbefore, hafter]
    omega
  · exact fun _ _ hpins => hpins

/-- A call that loads the active snapshot claims no retired set. -/
theorem Manager.Sound.settles_callLoad (hsound : manager.Sound)
    (hphase : manager.world.phaseAt set = some .released)
    (hstep : manager.callLoad index = .next next) : manager.Settles set next := by
  unfold Manager.callLoad at hstep
  split at hstep
  · contradiction
  rename_i call hcall
  split at hstep
  · rename_i hstage
    split at hstep
    · cases hstep
      exact settles_of_call hcall (Nat.zero_le _)
    rename_i snapshot hactive
    cases hstep
    refine settles_of_call hcall ?_
    obtain ⟨found, hfound, hpublished⟩ := hsound.phased.active snapshot hactive
    have hother : found ≠ set := by
      rintro rfl
      rw [hphase] at hpublished
      contradiction
    have hnone : Call.claim manager.plansOf set { call with stage := .acquiring snapshot } =
        0 := by
      simp [Call.claim, hfound, hother]
    rw [hnone]
    exact Nat.zero_le _
  · split at hstep
    · contradiction
    split_ifs at hstep <;> cases hstep
    · exact settles_of_call hcall (Nat.zero_le _)
    · exact settles_of_same rfl rfl rfl
  · split_ifs at hstep <;> cases hstep
    · exact settles_of_call hcall (Nat.zero_le _)
    · exact settles_of_call hcall (Nat.zero_le _)
  · contradiction
  · contradiction

/-- A call that takes a lease gives up a larger claim. -/
theorem settles_callSwap {current : Int}
    (hstep : manager.callSwap env index current = .next next) :
    manager.Settles set next := by
  unfold Manager.callSwap at hstep
  split at hstep
  · contradiction
  rename_i call hcall
  split at hstep
  · rename_i snapshot hstage
    split at hstep
    · contradiction
    rename_i plans hplans
    obtain ⟨world, _, rfl⟩ := perform_next hstep
    split_ifs
    · obtain ⟨rest, hbefore, hafter⟩ :=
        exists_total_set (Call.claim manager.plansOf set) hcall
      have hclaims : ∀ leases : List Lease, Manager.claims
          { manager.withCall index call (.leased snapshot manager.history.length) with
            world := world
            leases := leases } set = rest + total (Lease.weight manager.plansOf set) leases := by
        intro leases
        change total (Call.claim manager.plansOf set) (manager.calls.set index _) + _ = _
        rw [hafter]
        simp only [Call.claim, zero_add]
        rfl
      have hlease : Lease.weight manager.plansOf set ⟨snapshot, .held⟩ ≤
          Call.claim manager.plansOf set call := by
        rw [Call.claim, hstage]
        simp only [Lease.weight]
        split_ifs <;> simp_all
      constructor
      · rw [hclaims, total_concat, Manager.claims, Manager.tokens, hbefore]
        omega
      · intro _ lease hpins
        obtain ⟨found, hfound, hheld⟩ := hpins
        refine ⟨found, ?_, hheld⟩
        exact List.getElem?_append_left (List.getElem?_eq_some_iff.mp hfound).1 ▸ hfound
    · exact settles_of_same rfl rfl rfl
  all_goals contradiction

theorem settles_of_lease {lease changed : Lease} {world : World}
    (hlease : manager.leases[index]? = some lease) (hsnapshot : changed.snapshot = lease.snapshot)
    (hphase : lease.phase ≠ .released) :
    manager.Settles set
      { manager with world := world, leases := manager.leases.set index changed } := by
  obtain ⟨rest, hbefore, hafter⟩ := exists_total_set (Lease.weight manager.plansOf set) hlease
  have hchanged : changed.weight manager.plansOf set ≤ lease.weight manager.plansOf set := by
    simp only [Lease.weight, hsnapshot]
    split_ifs <;> simp_all
  have hclaims : Manager.claims
      { manager with world := world, leases := manager.leases.set index changed } set =
        total (Call.claim manager.plansOf set) manager.calls +
          (changed.weight manager.plansOf set + rest) := by
    rw [← hafter]
    rfl
  constructor
  · rw [hclaims, Manager.claims, Manager.tokens, hbefore]
    omega
  · intro hsame other hpins
    rw [hclaims, Manager.claims, Manager.tokens, hbefore] at hsame
    obtain ⟨found, hfound, hheld, hset⟩ := hpins
    by_cases hother : index = other
    · -- The changed lease still counts, so it is not released.
      subst hother
      obtain rfl := Option.some.inj (hlease.symm.trans hfound)
      refine ⟨changed, ?_, ?_, ?_⟩
      · exact List.getElem?_set_self (List.getElem?_eq_some_iff.mp hlease).1
      · intro hreleased
        simp only [Lease.weight, hsnapshot, hreleased, hset] at hsame
        simp [hheld] at hsame
      · rw [hsnapshot]
        exact hset
    · refine ⟨found, ?_, hheld, hset⟩
      exact (List.getElem?_set_ne hother).trans hfound

theorem Manager.Waits.settles (hwaits : manager.Waits) (hsound : manager.Sound)
    (hphase : manager.world.phaseAt set = some .released)
    (hstep : manager.step env action = .next next) : manager.Settles set next := by
  cases action with
  | lockApply revision resources now =>
    simp only [Manager.step] at hstep
    split at hstep <;> cases hstep
    exact settles_of_same rfl rfl rfl
  | lockClose =>
    simp only [Manager.step] at hstep
    split at hstep <;> cases hstep
    exact settles_of_same rfl rfl rfl
  | owner current =>
    obtain ⟨hstill, hcalls, hleases, _⟩ := hwaits.ownerStep hsound hstep
    exact settles_of_same hstill.plansOf hcalls hleases
  | beginAcquire =>
    cases hstep
    constructor
    · change total (Call.claim manager.plansOf set) (manager.calls ++ [_]) + _ ≤ _
      rw [total_concat]
      exact le_rfl
    · exact fun _ _ hpins => hpins
  | callLoad index => exact hsound.settles_callLoad hphase hstep
  | callSwap index current => exact settles_callSwap hstep
  | releaseLease index =>
    simp only [Manager.step, Manager.releaseLease] at hstep
    split at hstep
    · contradiction
    rename_i lease hlease
    split_ifs at hstep with hheld <;> cases hstep
    · exact settles_of_lease hlease rfl (by simp [hheld])
    · exact settles_of_same rfl rfl rfl
  | leaseLoad index =>
    simp only [Manager.step, Manager.leaseLoad] at hstep
    split at hstep
    · contradiction
    split at hstep
    · obtain ⟨world, _, rfl⟩ := perform_next hstep
      exact settles_of_same rfl rfl rfl
    · contradiction
  | leaseSwap index current =>
    simp only [Manager.step, Manager.leaseSwap] at hstep
    split at hstep
    · contradiction
    rename_i lease hlease
    split at hstep
    · rename_i plans hreleasing _
      obtain ⟨world, _, rfl⟩ := perform_next hstep
      split_ifs
      · exact settles_of_lease hlease rfl (by simp [hreleasing])
      · exact settles_of_same rfl rfl rfl
    · contradiction
  | background action =>
    simp only [Manager.step] at hstep
    split_ifs at hstep
    obtain ⟨world, _, rfl⟩ := perform_next hstep
    exact settles_of_same rfl rfl rfl

end Steps

/-! ## Unending runs -/

/-- `Apply` asks the registry whether it may prepare. -/
def Manager.Asks (manager : Manager) (action : Action) : Prop :=
  ∃ call current, manager.owner = some (.apply call) ∧ call.stage = .checked ∧
    action = .owner current

/-- A run before `Close` in which every lease is released at some time, every set
on the list that is drained is found by a pass of the reaper, and `Apply` is called
again and again. -/
structure Manager.Unending (env : Environment) (limit : Nat) (states : Nat → Manager)
    (actions : Nat → Action) : Prop where
  start : Manager.Reachable env limit (states 0)
  steps : Execution (Manager.step env) states actions
  running : ∀ time, ¬ (states time).closeBegan
  released : ∀ (time index : Nat) (lease : Lease), (states time).leases[index]? = some lease →
    ∃ (later : Nat) (found : Lease), time ≤ later ∧
      (states later).leases[index]? = some found ∧ found.phase = .released
  reaped : ∀ time index, index ∈ (states time).world.registry.retired →
    countIs (states time).world index 0 = true →
    ∃ later drained, time ≤ later ∧ actions later = .background (.reapNow drained) ∧
      index ∈ drained
  asked : ∀ time, ∃ later, time ≤ later ∧ (states later).Asks (actions later)

section Unending

variable {env : Environment} {limit : Nat} {states : Nat → Manager}
  {actions : Nat → Action}

theorem Manager.Unending.invariants (h : Manager.Unending env limit states actions)
    (time : Nat) : (states time).Sound ∧ (states time).Bounded limit :=
  Manager.Reachable.bounded (h.start.trans (h.steps.runs time))

/-- Waiting from some time on: nothing is admitted any more. -/
structure Waiting (states : Nat → Manager) (first : Nat) : Prop where
  waits : ∀ time, first ≤ time → (states time).Waits
  still : ∀ time, first ≤ time → (states time).Still (states (time + 1))

theorem Manager.Unending.waiting (h : Manager.Unending env limit states actions)
    (hfirst : (states first).Waits) (hnever : ∀ time, first ≤ time → ¬ (states time).Admitted) :
    Waiting states first := by
  have hwaits : ∀ time, first ≤ time → (states time).Waits := by
    intro time htime
    induction time, htime using Nat.le_induction with
    | base => exact hfirst
    | succ time htime ih =>
      obtain ⟨_, hwaits | hadmitted | hclose⟩ := ih.step (h.invariants time).1 (h.steps time)
      · exact hwaits
      · exact absurd hadmitted (hnever _ (by omega))
      · exact absurd hclose (h.running _)
  constructor
  · exact hwaits
  · intro time htime
    exact ((hwaits time htime).step (h.invariants time).1 (h.steps time)).1

theorem Waiting.phase (h : Waiting states first) {time : Nat} (htime : first ≤ time) :
    (states time).world.phaseAt = (states first).world.phaseAt := by
  induction time, htime using Nat.le_induction with
  | base => rfl
  | succ time htime ih => exact (h.still time htime).phase.trans ih

theorem Waiting.retired (h : Waiting states first) {time later : Nat} (htime : first ≤ time)
    (hlater : time ≤ later) :
    (states later).world.registry.retired.Sublist (states time).world.registry.retired := by
  induction later, hlater using Nat.le_induction with
  | base => exact List.Sublist.refl _
  | succ later hlater ih => exact (h.still later (htime.trans hlater)).retired.trans ih

/-- As long as the claims on a released set stay the same, so do the leases on it. -/
theorem Waiting.settles (hwaiting : Waiting states first)
    (h : Manager.Unending env limit states actions) {time : Nat} (htime : first ≤ time)
    (hphase : (states first).world.phaseAt set = some .released) {later : Nat}
    (hlater : time ≤ later) : (states time).Settles set (states later) := by
  induction later, hlater using Nat.le_induction with
  | base => exact ⟨le_rfl, fun _ _ => id⟩
  | succ later hlater ih =>
    have hfirst : first ≤ later := htime.trans hlater
    have hstep := (hwaiting.waits later hfirst).settles (h.invariants later).1
      (hwaiting.phase hfirst ▸ hphase) (h.steps later)
    constructor
    · exact hstep.claims.trans ih.claims
    · intro hsame index hpins
      have hbefore := ih.claims
      have hafter := hstep.claims
      exact hstep.pins (by omega) index (ih.pins (by omega) index hpins)

theorem exists_pins (h : manager.tokens set ≠ 0) : ∃ index, manager.Pins set index := by
  by_contra hnone
  refine h (total_eq_zero ?_)
  intro lease hlease
  obtain ⟨index, hindex⟩ := List.mem_iff_getElem?.mp hlease
  refine if_neg ?_
  intro hheld
  exact hnone ⟨index, lease, hindex, hheld⟩

/-- Every lease on the set is released at some time, and no new one is taken. -/
theorem Waiting.drains (hwaiting : Waiting states first)
    (h : Manager.Unending env limit states actions)
    (hphase : (states first).world.phaseAt set = some .released) :
    ∃ time, first ≤ time ∧ (states time).tokens set = 0 := by
  refine exists_later_of_rank (fun time => (states time).claims set) ?_
  intro time htime htokens
  obtain ⟨index, hpins⟩ := exists_pins htokens
  obtain ⟨lease, hlease, hheld, hset⟩ := hpins
  obtain ⟨later, found, hlater, hfound, hreleased⟩ := h.released time index lease hlease
  have hsettles := hwaiting.settles h htime hphase hlater
  refine ⟨later, hlater, lt_of_le_of_ne hsettles.claims ?_⟩
  intro hsame
  obtain ⟨other, hother, hunreleased, _⟩ := hsettles.pins hsame index ⟨lease, hlease, hheld, hset⟩
  obtain rfl := Option.some.inj (hfound.symm.trans hother)
  exact hunreleased hreleased

/-- The count of a set without owner reference and without leases is zero. -/
theorem Manager.Sound.countIs_zero (h : manager.Sound)
    (hphase : manager.world.phaseAt set = some .released) (htokens : manager.tokens set = 0) :
    countIs manager.world set 0 = true := by
  obtain ⟨found, hfound, hreleased⟩ := exists_set_of_phaseAt hphase
  have hholders : manager.world.holdersAt set = some found.holders := by
    simp [World.holdersAt, World.look, hfound, Upstream.PlanSet.view]
  have hnone := h.held.holders set found.holders hholders
  have hrefs := (h.consistent.wellCounted hfound).refs
  rw [Upstream.PlanSet.ownerRefs, if_pos hreleased] at hrefs
  simp only [countIs, hfound, decide_eq_true_eq]
  omega

/-- On the list while nothing is being retired: the owner reference is gone. -/
theorem Manager.Bounded.phaseAt_of_mem_retired (h : manager.Bounded limit)
    (hsound : manager.Sound) (hwaits : manager.Waits)
    (hset : set ∈ manager.world.registry.retired) : manager.world.phaseAt set = some .released := by
  have hregisters := hsound.consistent.booked.registers
  rw [List.append_nil] at hregisters
  obtain ⟨found, hfound, hlisted⟩ := (hregisters.mem_iff set).mp hset
  have hphase : manager.world.phaseAt set = some found.phase := by
    simp [World.phaseAt, World.look, hfound, Upstream.PlanSet.view]
  have hfree : dropsBy manager.owner = none := by
    cases howner : manager.owner with
    | none => rfl
    | some owner =>
      obtain ⟨call, rfl, hstage⟩ := hwaits owner howner
      change call.stage.drops = none
      cases hcall : call.stage with
      | retiring =>
        rw [hcall] at hstage
        exact absurd hstage Bool.false_ne_true
      | _ => rfl
  have hnot := h.not_registered hfree set
  rw [hphase] at hnot ⊢
  unfold Upstream.PlanSet.listed at hlisted
  split at hlisted <;> simp_all

theorem Waiting.reaps (hwaiting : Waiting states first)
    (h : Manager.Unending env limit states actions)
    (hset : set ∈ (states first).world.registry.retired) :
    ∃ time, first ≤ time ∧ set ∉ (states time).world.registry.retired := by
  have hphase := (h.invariants first).2.phaseAt_of_mem_retired (h.invariants first).1
    (hwaiting.waits first le_rfl) hset
  obtain ⟨time, htime, htokens⟩ := hwaiting.drains h hphase
  by_cases hgone : set ∈ (states time).world.registry.retired
  · have hsound := (h.invariants time).1
    have hzero := hsound.countIs_zero (hwaiting.phase htime ▸ hphase) htokens
    obtain ⟨later, drained, hlater, haction, hdrained⟩ := h.reaped time set hgone hzero
    refine ⟨later + 1, by omega, ?_⟩
    have hstep := h.steps later
    rw [haction] at hstep
    obtain ⟨world, hworld, hnext⟩ := perform_next hstep
    rw [← hnext]
    exact (h.invariants later).1.consistent.not_mem_of_reapNow hworld hdrained
  · exact ⟨time, htime, hgone⟩

/-- The list is empty from some time on. -/
theorem Waiting.empties (hwaiting : Waiting states first)
    (h : Manager.Unending env limit states actions) :
    ∃ time, first ≤ time ∧ (states time).world.registry.retired = [] := by
  obtain ⟨time, htime, hgone⟩ := exists_common_time
    (Q := fun set time => set ∉ (states time).world.registry.retired)
    (states first).world.registry.retired
    (fun set _ time htime hgone hmem => hgone ((hwaiting.still time htime).retired.subset hmem))
    (fun set hset => hwaiting.reaps h hset)
  refine ⟨time, htime, List.eq_nil_iff_forall_not_mem.mpr ?_⟩
  intro set hset
  exact hgone set ((hwaiting.retired le_rfl htime).subset hset) hset

theorem Manager.Asks.waits (h : manager.Asks action) : manager.Waits := by
  obtain ⟨call, current, howner, hstage, _⟩ := h
  intro owner hfound
  obtain rfl := Option.some.inj (howner.symm.trans hfound)
  exact ⟨call, rfl, by rw [hstage]; rfl⟩

theorem Manager.Asks.admitted {next : Manager} (h : manager.Asks action)
    (hallowed : manager.world.registry.prepareErrorLocked = none)
    (hstep : manager.step env action = .next next) : next.Admitted := by
  obtain ⟨call, current, howner, hstage, rfl⟩ := h
  simp only [Manager.step, howner, Manager.applyStep, hstage] at hstep
  obtain ⟨world, _, rfl⟩ := perform_next hstep
  rw [hallowed]
  exact ⟨_, rfl, rfl⟩

/-- `Apply` passes the check again and again. -/
theorem Manager.Unending.admits (h : Manager.Unending env limit states actions)
    (hlimit : 0 < limit) (time : Nat) : ∃ later, time ≤ later ∧ (states later).Admitted := by
  by_contra hnone
  have hnever : ∀ later, time ≤ later → ¬ (states later).Admitted :=
    fun later hlater hadmitted => hnone ⟨later, hlater, hadmitted⟩
  obtain ⟨first, hfirst, hasks⟩ := h.asked time
  have hwaiting := h.waiting hasks.waits fun later hlater => hnever later (hfirst.trans hlater)
  obtain ⟨empty, hempty, hnil⟩ := hwaiting.empties h
  obtain ⟨last, hlast, hagain⟩ := h.asked empty
  have hretired : (states last).world.registry.retired = [] :=
    List.sublist_nil.mp (hnil ▸ hwaiting.retired hempty hlast)
  obtain ⟨_, hbounded⟩ := h.invariants last
  have hopen : (states last).closed = false := by
    by_contra hclosed
    exact h.running last (Or.inl (by simpa using hclosed))
  have hallowed : (states last).world.registry.prepareErrorLocked = none := by
    unfold Registry.prepareErrorLocked
    rw [hbounded.running hopen, hbounded.configured, hretired]
    simp only [Bool.false_eq_true, if_false, List.length_nil, Nat.le_zero]
    exact if_neg (by omega)
  exact hnever (last + 1) (by omega) (hagain.admitted hallowed (h.steps last))

end Unending

/-! ## The bounds -/

section Bounds

variable {limit : Nat}

/-- While `Close` retires, nothing is published. -/
theorem Manager.Bounded.active_le_one (h : manager.Bounded limit) (hsound : manager.Sound)
    (hnot : ∀ call, manager.owner ≠ some (.apply call)) :
    manager.world.registry.activePlanSets ≤ 1 := by
  have hactive := h.active
  have hone := manager.current_le_one
  have hdue : manager.current + dueBy manager.owner ≤ 1 := by
    cases howner : manager.owner with
    | none => exact hone
    | some owner =>
      cases owner with
      | apply call => exact absurd howner (hnot call)
      | close stage =>
        cases stage with
        | locked => exact hone
        | swapping => exact hone
        | unlocking => exact hone
        | retiring old stage =>
          have hnone : manager.active = none := (hsound.phased.owner _ howner).2.2
          have hzero : manager.current = 0 := by simp [Manager.current, hnone]
          change manager.current + stage.due ≤ 1
          rw [hzero]
          cases stage <;> decide
  omega

theorem Manager.Bounded.active_eq_zero (h : manager.Bounded limit)
    (hclosed : manager.closed = true) (hnot : ∀ stage, manager.owner ≠ some (.close stage)) :
    manager.world.registry.activePlanSets = 0 := by
  have hnone : manager.active = none :=
    (h.unpublished hclosed).resolve_right (hnot .swapping)
  have hzero : manager.current = 0 := by simp [Manager.current, hnone]
  have hdue : dueBy manager.owner = 0 := by
    cases howner : manager.owner with
    | none => rfl
    | some owner =>
      cases owner with
      | close stage => exact absurd howner (hnot stage)
      | apply call =>
        have houtside := h.refuses hclosed call howner
        change call.stage.due = 0
        cases hstage : call.stage with
        | publishing | retiring =>
          rw [hstage] at houtside
          exact absurd houtside Bool.false_ne_true
        | _ => rfl
  rw [h.active, hzero, hdue]
  rfl

/-- The place that the first check found is still free at the second. -/
theorem Manager.Bounded.allowed (h : manager.Bounded limit) (hadmitted : manager.Admitted) :
    manager.world.registry.prepareErrorLocked = none := by
  obtain ⟨call, howner, hstage⟩ := hadmitted
  have hopen : manager.closed = false := by
    by_contra hclosed
    have houtside := h.refuses (by simpa using hclosed) call howner
    rw [hstage] at houtside
    exact Bool.false_ne_true houtside
  have hreserved : reservedBy manager.owner = 1 := by
    rw [howner]
    change call.stage.reserved = 1
    rw [hstage]
    rfl
  have hroom := h.retired hopen
  unfold Registry.prepareErrorLocked
  rw [h.running hopen, h.configured]
  simp only [Bool.false_eq_true, if_false]
  exact if_neg (by omega)

end Bounds

/-- The registry's counters say how many plan sets are retired and not yet reaped,
and how many are active.  Before `Close` the list holds at most `limit` sets, after
it at most one more; outside `Apply` at most one set is active, and none after
`Close`.  An `Apply` that passed the first check is not refused by the second, and
on a run in which leases are released and the reaper runs, `Apply` passes the first
again and again.  `NewRegistry` accepts no limit below one. -/
theorem retained_generations_bounded (env : Environment) (limit : Nat) :
    (∀ manager, Manager.Reachable env limit manager →
      (Upstream.Registers manager.world.registry.retired manager.world.sets ∧
        manager.world.registry.activePlanSets =
          total Upstream.PlanSet.activity manager.world.sets) ∧
      (manager.closed = false → manager.world.registry.retired.length ≤ limit) ∧
      ((∀ call, manager.owner ≠ some (.apply call)) →
        manager.world.registry.activePlanSets ≤ 1) ∧
      (manager.closed = true → manager.world.registry.retired.length ≤ limit + 1) ∧
      (manager.closed = true → (∀ stage, manager.owner ≠ some (.close stage)) →
        manager.world.registry.activePlanSets = 0) ∧
      (manager.Admitted → manager.world.registry.prepareErrorLocked = none)) ∧
    ∀ states actions, 0 < limit → Manager.Unending env limit states actions →
      ∀ time, ∃ later, time ≤ later ∧ (states later).Admitted := by
  constructor
  · intro manager hreach
    obtain ⟨hsound, hbounded⟩ := hreach.bounded
    refine ⟨⟨?_, hsound.consistent.booked.active⟩, ?_, ?_, ?_, ?_, ?_⟩
    · have hregisters := hsound.consistent.booked.registers
      rwa [List.append_nil] at hregisters
    · intro hopen
      have hbound := hbounded.retired hopen
      omega
    · exact hbounded.active_le_one hsound
    · intro hclosed
      have hbound := hbounded.afterClose hclosed
      omega
    · exact hbounded.active_eq_zero
    · exact hbounded.allowed
  · intro states actions hlimit hunending
    exact hunending.admits hlimit

/-- `Prepare` lets a configuration without endpoints in and then rejects it. -/
def endpointlessConfiguration : ResourceSet :=
  { sampleConfiguration with upstreams := [{ Upstream.sampleUpstream with endpoints := [] }] }

theorem prepareCall_endpointless (world : World) :
    ∃ cause, world.prepareCall Upstream.samplePlatform endpointlessConfiguration =
      some (world.notify [.failed (.config cause)], .error (.config cause)) := by
  have hrejected : (Upstream.normalize Upstream.samplePlatform
      endpointlessConfiguration.upstreams).isOk = false := by
    decide +kernel
  cases hresult : Upstream.normalize Upstream.samplePlatform
      endpointlessConfiguration.upstreams with
  | ok normalized =>
    rw [hresult] at hrejected
    exact absurd hrejected.symm Bool.false_ne_true
  | error cause =>
    refine ⟨cause, ?_⟩
    unfold World.prepareCall
    rw [hresult]

/-- Who owns `applyMu` in each phase of an `Apply` that is rejected. -/
def retryOwner : Nat → Option Owner → Prop
  | 0, owner => owner = none
  | 1, owner => owner = some (.apply ⟨3, endpointlessConfiguration, 0, .locked⟩)
  | 2, owner => owner = some (.apply ⟨3, endpointlessConfiguration, 0, .checked⟩)
  | 3, owner => owner = some (.apply ⟨3, endpointlessConfiguration, 0, .allowed⟩)
  | _, owner => ∃ result,
      owner = some (.apply ⟨3, endpointlessConfiguration, 0, .returning result⟩)

def retryAction : Nat → Action
  | 0 => .lockApply 3 endpointlessConfiguration 0
  | _ => .owner 0

/-- Nothing is left to release or to reap. -/
structure Manager.Retries (phase : Nat) (manager : Manager) : Prop where
  owner : retryOwner phase manager.owner
  running : manager.closed = false
  allowed : manager.world.registry.prepareErrorLocked = none
  retired : manager.world.registry.retired = []
  released : ∀ lease ∈ manager.leases, lease.phase = .released
  newer : manager.precondition sampleEnvironment 3 = none

/-- Each phase leads to the next one. -/
theorem Manager.Retries.step {phase : Nat} (hphase : phase < 5) (h : manager.Retries phase) :
    ∃ next, manager.step sampleEnvironment (retryAction phase) = .next next ∧
      next.Retries ((phase + 1) % 5) := by
  obtain ⟨howner, hrunning, hallowed, hretired, hreleased, hnewer⟩ := h
  interval_cases phase
  · change manager.owner = none at howner
    have hstep : manager.step sampleEnvironment (retryAction 0) = .next { manager with
        owner := some (.apply ⟨3, endpointlessConfiguration, 0, .locked⟩) } := by
      simp only [Manager.step, retryAction, howner]
    exact ⟨_, hstep, rfl, hrunning, hallowed, hretired, hreleased, hnewer⟩
  · change manager.owner = some (.apply ⟨3, endpointlessConfiguration, 0, .locked⟩) at howner
    have hstep : manager.step sampleEnvironment (retryAction 1) = .next { manager with
        owner := some (.apply ⟨3, endpointlessConfiguration, 0, .checked⟩) } := by
      simp only [Manager.step, retryAction, howner, Manager.applyStep, hnewer, Manager.withStage]
    exact ⟨_, hstep, rfl, hrunning, hallowed, hretired, hreleased, hnewer⟩
  · change manager.owner = some (.apply ⟨3, endpointlessConfiguration, 0, .checked⟩) at howner
    have hstep : manager.step sampleEnvironment (retryAction 2) = .next { manager with
        owner := some (.apply ⟨3, endpointlessConfiguration, 0, .allowed⟩) } := by
      simp only [Manager.step, retryAction, howner, Manager.applyStep, Manager.perform,
        World.step, World.prepareAllowed, hallowed, Manager.withStage]
    exact ⟨_, hstep, rfl, hrunning, hallowed, hretired, hreleased, hnewer⟩
  · change manager.owner = some (.apply ⟨3, endpointlessConfiguration, 0, .allowed⟩) at howner
    obtain ⟨cause, hcall⟩ := prepareCall_endpointless manager.world
    have hstep : manager.step sampleEnvironment (retryAction 3) = .next { manager with
        world := manager.world.notify [.failed (.config cause)]
        owner := some (.apply ⟨3, endpointlessConfiguration, 0,
          .returning (some (upstreamBuildError 3 (.config cause)))⟩) } := by
      simp only [Manager.step, retryAction, howner, Manager.applyStep, sampleEnvironment, hcall,
        Manager.withStage]
    exact ⟨_, hstep, ⟨_, rfl⟩, hrunning, hallowed, hretired, hreleased, hnewer⟩
  · obtain ⟨result, howner⟩ := howner
    have hstep : manager.step sampleEnvironment (retryAction 4) = .next { manager with
        owner := none, results := manager.results ++ [result] } := by
      simp only [Manager.step, retryAction, howner, Manager.applyStep]
    exact ⟨_, hstep, rfl, hrunning, hallowed, hretired, hreleased, hnewer⟩

theorem retryOwner_running {phase : Nat} {owner : Option Owner} (h : retryOwner phase owner)
    (stage : CloseStage) : owner ≠ some (.close stage) := by
  intro hclose
  subst hclose
  unfold retryOwner at h
  split at h
  · exact nomatch h
  · exact nomatch h
  · exact nomatch h
  · exact nomatch h
  · exact nomatch h.choose_spec

/-- The reaper passes, then a configuration is rejected again and again. -/
def retryActions : Nat → Action
  | 0 => .background (.reapNow [0])
  | time + 1 => retryAction (time % 5)

/-- The limit is reached by a set whose only lease has been released. -/
def Manager.full (manager : Manager) : Bool :=
  manager.owner.isNone && !manager.closed && manager.world.registry.prepareErrorLocked.isSome &&
    manager.world.registry.retired == [0] && manager.leases.map Lease.phase == [.released]

def Manager.idle (manager : Manager) : Bool :=
  manager.owner.isNone && !manager.closed && manager.world.registry.prepareErrorLocked.isNone &&
    manager.world.registry.retired.isEmpty && manager.leases.map Lease.phase == [.released] &&
    (manager.precondition sampleEnvironment 3).isNone

theorem Manager.retries_of_idle (h : manager.idle = true) : manager.Retries 0 := by
  simp only [Manager.idle, Bool.and_eq_true, Option.isNone_iff_eq_none, Bool.not_eq_true',
    List.isEmpty_iff, beq_iff_eq] at h
  obtain ⟨⟨⟨⟨⟨howner, hrunning⟩, hallowed⟩, hretired⟩, hleases⟩, hnewer⟩ := h
  refine ⟨howner, hrunning, hallowed, hretired, ?_, hnewer⟩
  intro lease hlease
  have hphase := List.mem_map_of_mem (f := Lease.phase) hlease
  rw [hleases] at hphase
  exact List.mem_singleton.mp hphase

theorem exists_full : ∃ manager next, Manager.Reachable sampleEnvironment 1 manager ∧
    manager.full = true ∧ manager.step sampleEnvironment (retryActions 0) = .next next ∧
    next.Retries 0 := by
  have hrun : ((runAll (Manager.step sampleEnvironment)
      (publishFirst 1 ++ [.beginAcquire, .callLoad 0, .callSwap 0 1] ++ publishOver 2 2 ++
        [.releaseLease 0, .leaseLoad 0, .leaseSwap 0 1]) (Manager.initial 1)).bind fun manager =>
        (runAll (Manager.step sampleEnvironment) [retryActions 0] manager).map fun next =>
          (manager.full, next.idle)) = some (true, true) := by
    decide +kernel
  obtain ⟨manager, hmanager, hrest⟩ := Option.bind_eq_some_iff.mp hrun
  obtain ⟨next, hnext, hshape⟩ := Option.map_eq_some_iff.mp hrest
  obtain ⟨hfull, hidle⟩ := Prod.mk.inj hshape
  simp only [runAll] at hnext
  split at hnext
  · rename_i after hafter
    obtain rfl := Option.some.inj hnext
    exact ⟨manager, after, runs_of_runAll hmanager, hfull, hafter, after.retries_of_idle hidle⟩
  · contradiction

/-- What holds at each time of the run that retries. -/
def RetriesFrom (start : Manager) : Nat → Manager → Prop
  | 0, manager => manager = start
  | time + 1, manager => manager.Retries (time % 5)

theorem RetriesFrom.step {start first : Manager}
    (hfirst : start.step sampleEnvironment (retryActions 0) = .next first)
    (hretries : first.Retries 0) (time : Nat) (manager : Manager)
    (h : RetriesFrom start time manager) :
    ∃ next, manager.step sampleEnvironment (retryActions time) = .next next ∧
      RetriesFrom start (time + 1) next := by
  cases time with
  | zero =>
    change manager = start at h
    subst h
    exact ⟨first, hfirst, hretries⟩
  | succ time =>
    obtain ⟨next, hnext, hafter⟩ := Manager.Retries.step (Nat.mod_lt _ (by decide)) h
    rw [Nat.mod_add_mod] at hafter
    exact ⟨next, hnext, hafter⟩

/-- The list is full; after the pass of the reaper `Apply` is let in forever. -/
theorem retained_generations_bounded_retried :
    ∃ states, Manager.Unending sampleEnvironment 1 states retryActions ∧
      (states 0).full = true ∧ ∀ time, ∃ later, time ≤ later ∧ (states later).Admitted := by
  obtain ⟨start, first, hreach, hfull, hfirst, hretries⟩ := exists_full
  obtain ⟨states, rfl, hsteps, hholds⟩ := exists_execution (Manager.step sampleEnvironment)
    retryActions (P := RetriesFrom start) rfl (RetriesFrom.step hfirst hretries)
  have hshape := hfull
  simp only [Manager.full, Bool.and_eq_true, Option.isNone_iff_eq_none, Bool.not_eq_true',
    beq_iff_eq] at hshape
  obtain ⟨⟨⟨⟨howner, hrunning⟩, _⟩, hretired⟩, hleases⟩ := hshape
  have hunending : Manager.Unending sampleEnvironment 1 states retryActions := by
    constructor
    · exact hreach
    · exact hsteps
    · rintro time (hclosed | ⟨stage, hclose⟩)
      · cases time with
        | zero => exact Bool.false_ne_true (hrunning.symm.trans hclosed)
        | succ time => exact Bool.false_ne_true ((hholds (time + 1)).running.symm.trans hclosed)
      · cases time with
        | zero => exact nomatch howner.symm.trans hclose
        | succ time => exact retryOwner_running (hholds (time + 1)).owner stage hclose
    · intro time index lease hlease
      refine ⟨time, lease, le_rfl, hlease, ?_⟩
      cases time with
      | zero =>
        have hphase := List.mem_map_of_mem (f := Lease.phase) (List.mem_of_getElem? hlease)
        rw [hleases] at hphase
        exact List.mem_singleton.mp hphase
      | succ time => exact (hholds (time + 1)).released lease (List.mem_of_getElem? hlease)
    · intro time index hindex _
      cases time with
      | zero =>
        rw [hretired] at hindex
        exact ⟨0, [0], le_rfl, rfl, hindex⟩
      | succ time =>
        rw [(hholds (time + 1)).retired] at hindex
        contradiction
    · intro time
      have hphase := hholds (5 * time + 2 + 1)
      have hmod : (5 * time + 2) % 5 = 2 := by omega
      change Manager.Retries ((5 * time + 2) % 5) _ at hphase
      rw [hmod] at hphase
      refine ⟨5 * time + 2 + 1, by omega, _, 0, hphase.owner, rfl, ?_⟩
      change retryAction ((5 * time + 2) % 5) = .owner 0
      rw [hmod]
      rfl
  exact ⟨states, hunending, hfull,
    (retained_generations_bounded sampleEnvironment 1).2 states retryActions (by decide) hunending⟩

end GGateway.Runtime
