import GGateway.Runtime.Invariant

/-!
# Publication of snapshots

What holds across every interleaving of `Apply`, `Acquire`, `Release`, `Close` and
the reaper.  A count that an `Acquire` found at zero belongs to a plan set whose
owner reference is gone for good, so that its snapshot is not active any more; and
each lease is one of the holders that keep its plan set from being finalized.
-/

set_option linter.dupNamespace false

namespace GGateway.Runtime

open Text Model Library.Transition
open GGateway.Upstream (Platform World Panic PlanSetPhase PlanSetView LeasePhase)

/-! ## Acquire -/

variable {manager next : Manager} {index : Nat} {env : Environment}

theorem Manager.Phased.with_call {phase : Nat → Option PlanSetPhase} (h : manager.Phased phase)
    {call : Call} {stage : CallStage}
    (hstage : Call.Sound { call with stage := stage } manager.history manager.plansOf phase) :
    (manager.withCall index call stage).Phased phase :=
  ⟨h.committed, h.distinct, h.active, h.newest, h.idle, h.revisions, h.current,
    forall_mem_set h.calls hstage, h.owner⟩

theorem Manager.Sound.with_call (h : manager.Sound) {call : Call} {stage : CallStage}
    (hstage : Call.Sound { call with stage := stage } manager.history manager.plansOf
      manager.world.phaseAt) : (manager.withCall index call stage).Sound :=
  ⟨h.consistent, h.phased.with_call hstage, ⟨h.held.leased, h.held.holders⟩⟩

/-- A count found at zero belongs to a set whose owner reference is gone. -/
theorem phaseAt_of_drained {world : World} (h : world.Consistent) {set : Upstream.PlanSet}
    (hset : world.sets[index]? = some set) (hrefs : set.refs ≤ 0) :
    world.phaseAt index = some .released := by
  have hcounted := h.wellCounted hset
  have howner : 0 ≤ set.ownerRefs := by
    unfold Upstream.PlanSet.ownerRefs
    split_ifs <;> decide
  have hsum := hcounted.refs
  have hphase := (hcounted.drained (by omega)).1
  rw [World.phaseAt, World.look, hset, ← hphase]
  rfl

theorem Manager.Sound.callLoad (h : manager.Sound) (index : Nat) :
    (manager.callLoad index).Ensures Manager.Sound := by
  unfold Manager.callLoad
  split
  · trivial
  rename_i call hcall
  have hsound := h.phased.calls call (List.mem_of_getElem? hcall)
  obtain ⟨began, stage⟩ := call
  cases stage with
  | loading =>
    cases hactive : manager.active with
    | none => exact h.with_call ⟨hsound.1, rfl⟩
    | some snapshot =>
      refine h.with_call ⟨hsound.1, manager.history.length - 1, ?_, ?_, ?_⟩
      · have hbegan := hsound.1
        dsimp only at hbegan ⊢
        omega
      · have hbegan := hsound.1
        omega
      · rw [← List.getLast?_eq_getElem?, h.phased.current, hactive]
  | acquiring snapshot =>
    dsimp only
    split
    · trivial
    rename_i set hset
    split_ifs with hrefs
    · obtain ⟨plans, hplans, hfound⟩ := Option.bind_eq_some_iff.mp hset
      exact h.with_call ⟨hsound.1, hsound.2, plans, hplans,
        phaseAt_of_drained h.consistent hfound hrefs⟩
    · exact h
  | rechecking snapshot =>
    dsimp only
    split_ifs with hactive
    · -- the snapshot is active, but its set has lost the owner reference
      obtain ⟨_, _, set, hplans, hreleased⟩ := hsound
      obtain ⟨found, hfound, hphase⟩ := h.phased.active snapshot hactive
      obtain rfl := Option.some.inj (hplans.symm.trans hfound)
      rw [hreleased] at hphase
      contradiction
    · exact h.with_call ⟨hsound.1, trivial⟩
  | refused observed => trivial
  | leased snapshot ended => trivial

theorem Manager.Sound.callSwap (h : manager.Sound) (env : Environment) (index : Nat)
    (current : Int) : (manager.callSwap env index current).Ensures Manager.Sound := by
  unfold Manager.callSwap
  split
  · trivial
  rename_i call hcall
  have hsound := h.phased.calls call (List.mem_of_getElem? hcall)
  obtain ⟨began, stage⟩ := call
  cases stage with
  | acquiring snapshot =>
    dsimp only
    split
    · trivial
    rename_i plans hplans
    refine perform_ensures h.consistent ?_
    intro world hstep hconsistent
    obtain ⟨view, hlook, _, _, ⟨hrefs, hturns⟩ | ⟨hrefs, rfl⟩⟩ :=
      Upstream.look_tryAcquire hstep
    · rw [if_pos (by rw [countIs_of_look hlook, decide_eq_true hrefs])]
      have hphased : (manager.withCall index ⟨began, .acquiring snapshot⟩
          (.leased snapshot manager.history.length)).Phased world.phaseAt := by
        rw [Upstream.phaseAt_of_turns hturns hlook rfl]
        exact h.phased.with_call ⟨hsound.1, le_rfl, hsound.2⟩
      refine ⟨hconsistent, ⟨hphased.committed, hphased.distinct, hphased.active,
        hphased.newest, hphased.idle, hphased.revisions, hphased.current, hphased.calls,
        hphased.owner⟩, ⟨forall_mem_concat h.held.leased (lt_of_plansOf hplans), ?_⟩⟩
      intro set holders hholders
      replace hholders : world.holdersAt set = some holders := hholders
      rw [hturns.holdersAt] at hholders
      show holders = total _ (manager.leases ++ [_])
      rw [total_concat]
      split_ifs at hholders with hset
      · subst hset
        cases hholders
        have hbefore := h.held.holders set view.holders (by rw [World.holdersAt, hlook]; rfl)
        have hweight : Lease.weight manager.plansOf set ⟨snapshot, .held⟩ = 1 :=
          if_pos ⟨by simp, hplans⟩
        exact hbefore ▸ congrArg (manager.tokens set + ·) hweight.symm
      · have hweight : Lease.weight manager.plansOf set ⟨snapshot, .held⟩ = 0 := by
          refine if_neg fun hboth => hset ?_
          exact Option.some.inj (hboth.2.symm.trans hplans)
        exact (h.held.holders set holders hholders).trans
          (congrArg (manager.tokens set + ·) hweight.symm)
    · rw [if_neg (by rw [countIs_of_look hlook, decide_eq_false hrefs]; simp)]
      exact h
  | loading | rechecking | refused | leased => trivial

/-! ## Release -/

/-- A lease changes its phase; whether it is released decides what it counts for. -/
theorem Manager.Sound.releaseLease (h : manager.Sound) (index : Nat) :
    (manager.releaseLease index).Ensures Manager.Sound := by
  unfold Manager.releaseLease
  split
  · trivial
  rename_i lease hlease
  split_ifs with hphase
  · refine ⟨h.consistent, ⟨h.phased.committed, h.phased.distinct, h.phased.active,
      h.phased.newest, h.phased.idle, h.phased.revisions, h.phased.current, h.phased.calls,
      h.phased.owner⟩, ⟨forall_mem_set h.held.leased
        (h.held.leased lease (List.mem_of_getElem? hlease)), ?_⟩⟩
    intro set holders hholders
    refine (h.held.holders set holders hholders).trans (total_set_of_eq hlease ?_).symm
    simp [Lease.weight, hphase, Manager.plansOf]
  · exact h

theorem Manager.Sound.leaseLoad (h : manager.Sound) (env : Environment) (index : Nat) :
    (manager.leaseLoad env index).Ensures Manager.Sound := by
  unfold Manager.leaseLoad
  split
  · trivial
  split
  · refine perform_ensures h.consistent ?_
    intro world hstep hconsistent
    exact h.quiet rfl hstep hconsistent
  · trivial

theorem Manager.Sound.leaseSwap (h : manager.Sound) (env : Environment) (index : Nat)
    (current : Int) : (manager.leaseSwap env index current).Ensures Manager.Sound := by
  unfold Manager.leaseSwap
  split
  · trivial
  rename_i lease hlease
  split
  · rename_i plans hphase hplans
    refine perform_ensures h.consistent ?_
    intro world hstep hconsistent
    obtain ⟨view, hlook, hpositive, _, ⟨hrefs, hturns⟩ | ⟨hrefs, rfl⟩⟩ :=
      Upstream.look_releaseSwap hstep
    · rw [if_pos (by rw [countIs_of_look hlook, decide_eq_true hrefs])]
      have hphased : manager.Phased world.phaseAt := by
        rw [Upstream.phaseAt_of_turns hturns hlook rfl]
        exact h.phased
      refine ⟨hconsistent, ⟨hphased.committed, hphased.distinct, hphased.active,
        hphased.newest, hphased.idle, hphased.revisions, hphased.current, hphased.calls,
        hphased.owner⟩, ⟨forall_mem_set h.held.leased
          (h.held.leased lease (List.mem_of_getElem? hlease)), ?_⟩⟩
      intro set holders hholders
      replace hholders : world.holdersAt set = some holders := hholders
      rw [hturns.holdersAt] at hholders
      obtain ⟨rest, hbefore, hafter⟩ :=
        exists_total_set (Lease.weight manager.plansOf set) hlease
      have hgone : Lease.weight manager.plansOf set { lease with phase := .released } = 0 :=
        if_neg (by simp)
      refine Eq.trans ?_ ((hafter _).trans (by rw [hgone, zero_add])).symm
      split_ifs at hholders with hset
      · subst hset
        cases hholders
        have htokens := h.held.holders set view.holders (by rw [World.holdersAt, hlook]; rfl)
        have hweight : Lease.weight manager.plansOf set lease = 1 :=
          if_pos ⟨by simp [hphase], hplans⟩
        rw [Manager.tokens, hbefore, hweight] at htokens
        show view.holders - 1 = rest
        omega
      · have hweight : Lease.weight manager.plansOf set lease = 0 := by
          refine if_neg fun hboth => hset ?_
          exact Option.some.inj (hboth.2.symm.trans hplans)
        have htokens := h.held.holders set holders hholders
        rwa [Manager.tokens, hbefore, hweight, zero_add] at htokens
    · rw [if_neg (by rw [countIs_of_look hlook, decide_eq_false hrefs]; simp)]
      exact h
  · trivial

theorem Manager.Sound.step (h : manager.Sound) (env : Environment) (action : Action) :
    (manager.step env action).Ensures Manager.Sound := by
  cases action with
  | lockApply revision resources now =>
    simp only [Manager.step]
    split
    · trivial
    · exact h.with_owner trivial
  | lockClose =>
    simp only [Manager.step]
    split
    · trivial
    · exact h.with_owner trivial
  | owner current =>
    simp only [Manager.step]
    split
    · trivial
    · rename_i call howner
      exact h.applyStep env howner current
    · rename_i stage howner
      exact h.closeStep env howner current
  | beginAcquire =>
    refine ⟨h.consistent, ⟨h.phased.committed, h.phased.distinct, h.phased.active,
      h.phased.newest, h.phased.idle, h.phased.revisions, h.phased.current,
      forall_mem_concat h.phased.calls ⟨?_, trivial⟩, h.phased.owner⟩,
      ⟨h.held.leased, h.held.holders⟩⟩
    have hne : manager.history ≠ [] := by
      intro hnil
      have hcurrent := h.phased.current
      rw [hnil] at hcurrent
      contradiction
    have hpos := List.length_pos_iff.mpr hne
    show manager.history.length - 1 < manager.history.length
    omega
  | callLoad call => exact h.callLoad call
  | callSwap call current => exact h.callSwap env call current
  | releaseLease lease => exact h.releaseLease lease
  | leaseLoad lease => exact h.leaseLoad env lease
  | leaseSwap lease current => exact h.leaseSwap env lease current
  | background action =>
    simp only [Manager.step]
    split_ifs with hallows
    · refine perform_ensures h.consistent ?_
      intro world hstep hconsistent
      refine h.quiet ?_ hstep hconsistent
      cases action <;> first | rfl | exact absurd hallows (by simp [Manager.allows])
    · trivial

theorem Manager.Reachable.sound {maxRetiredSnapshots : Nat}
    (h : Manager.Reachable env maxRetiredSnapshots manager) : manager.Sound :=
  Runs.ensures (fun _ action hbefore => hbefore.step env action) h
    (initial_sound maxRetiredSnapshots)

/-! ## What single steps leave alone -/

/-- The fields that only the owner of `applyMu` writes. -/
structure Manager.SameOwned (manager next : Manager) : Prop where
  owner : next.owner = manager.owner
  active : next.active = manager.active
  snapshots : next.snapshots = manager.snapshots
  results : next.results = manager.results

theorem perform_next {action : Upstream.Action} {after : World → Manager}
    (h : manager.perform env action after = .next next) :
    ∃ world, manager.world.step env.platform action = .next world ∧ after world = next := by
  unfold Manager.perform at h
  split at h
  · contradiction
  · contradiction
  · rename_i world hworld
    exact ⟨world, hworld, Outcome.next.inj h⟩

/-- A step beside the owner of `applyMu`: of somebody who acquires or releases a lease, or
of the registry alone. -/
structure Manager.Beside (env : Environment) (action : Action) (before after : Manager) :
    Prop where
  owned : before.SameOwned after
  closed : after.closed = before.closed
  world : after.world = before.world ∨
    ∃ inner, before.world.step env.platform inner = .next after.world ∧
      (inner.counting = true ∨ action = .background inner ∧ before.allows inner = true)

theorem beside_of_perform {action : Action} {inner : Upstream.Action} {after : World → Manager}
    (h : manager.perform env inner after = .next next)
    (hinner : inner.counting = true ∨ action = .background inner ∧ manager.allows inner = true)
    (hworld : ∀ world, (after world).world = world)
    (howned : ∀ world, manager.SameOwned (after world))
    (hclosed : ∀ world, (after world).closed = manager.closed) :
    manager.Beside env action next := by
  obtain ⟨world, hstep, rfl⟩ := perform_next h
  refine ⟨howned world, hclosed world, Or.inr ⟨inner, ?_, hinner⟩⟩
  rw [hworld]
  exact hstep

/-- Who takes a step: a call that finds `applyMu` free, its owner, or somebody beside it. -/
inductive Manager.Turn (env : Environment) (manager : Manager) : Action → Manager → Prop
  | lockApply {revision : Nat} {resources : ResourceSet} {now : Int}
      (hfree : manager.owner = none) :
      Turn env manager (.lockApply revision resources now)
        { manager with owner := some (.apply ⟨revision, resources, now, .locked⟩) }
  | lockClose (hfree : manager.owner = none) :
      Turn env manager .lockClose { manager with owner := some (.close .locked) }
  | apply {call : ApplyCall} {current : Int} {next : Manager}
      (howner : manager.owner = some (.apply call))
      (hstep : manager.applyStep env call current = .next next) :
      Turn env manager (.owner current) next
  | close {stage : CloseStage} {current : Int} {next : Manager}
      (howner : manager.owner = some (.close stage))
      (hstep : manager.closeStep env stage current = .next next) :
      Turn env manager (.owner current) next
  | beside {action : Action} {next : Manager}
      (hbeside : manager.Beside env action next) : Turn env manager action next

theorem turn_of_step {action : Action} (h : manager.step env action = .next next) :
    manager.Turn env action next := by
  cases action with
  | lockApply revision resources now =>
    simp only [Manager.step] at h
    split at h <;> cases h
    exact .lockApply ‹_›
  | lockClose =>
    simp only [Manager.step] at h
    split at h <;> cases h
    exact .lockClose ‹_›
  | owner current =>
    simp only [Manager.step] at h
    split at h
    · contradiction
    · exact .apply ‹_› h
    · exact .close ‹_› h
  | beginAcquire =>
    cases h
    exact .beside ⟨⟨rfl, rfl, rfl, rfl⟩, rfl, Or.inl rfl⟩
  | callLoad index | releaseLease index =>
    simp only [Manager.step, Manager.callLoad, Manager.releaseLease] at h
    repeat' split at h
    all_goals first
      | contradiction
      | (cases h; exact .beside ⟨⟨rfl, rfl, rfl, rfl⟩, rfl, Or.inl rfl⟩)
  | callSwap index current =>
    simp only [Manager.step, Manager.callSwap] at h
    split at h
    · contradiction
    split at h
    · split at h
      · contradiction
      refine .beside (beside_of_perform h (Or.inl rfl) ?_ ?_ ?_)
      all_goals
        intro world
        split_ifs <;> first | rfl | exact ⟨rfl, rfl, rfl, rfl⟩
    all_goals contradiction
  | leaseLoad index | leaseSwap index current =>
    simp only [Manager.step, Manager.leaseLoad, Manager.leaseSwap] at h
    split at h
    · contradiction
    split at h
    · exact .beside (beside_of_perform h (Or.inl rfl) (fun _ => rfl)
        (fun _ => ⟨rfl, rfl, rfl, rfl⟩) fun _ => rfl)
    · contradiction
  | background action =>
    simp only [Manager.step] at h
    split_ifs at h with hallowed
    exact .beside (beside_of_perform h (Or.inr ⟨rfl, hallowed⟩) (fun _ => rfl)
      (fun _ => ⟨rfl, rfl, rfl, rfl⟩) fun _ => rfl)

/-- `Close` has begun: it has taken `applyMu`, or has already set the flag. -/
def Manager.closeBegan (manager : Manager) : Prop :=
  manager.closed = true ∨ ∃ stage, manager.owner = some (.close stage)

/-- A step takes at most one step of the registry, publishes only from the stage
before the swap, and does not undo the beginning of `Close`. -/
structure Manager.Moves (env : Environment) (before after : Manager) : Prop where
  world : after.world = before.world ∨
    ∃ action, before.world.step env.platform action = .next after.world
  snapshots : after.snapshots = before.snapshots ∨
    ∃ call candidate snapshot set, before.owner = some (.apply call) ∧
      call.stage = .publishing candidate snapshot set
  closed : before.closed = true → after.closed = true
  locked : before.owner = some (.close .locked) →
    after.closed = true ∨ after.owner = some (.close .locked)

/-- A step of the registry that leaves the manager's own fields alone. -/
theorem moves_of_perform {action : Upstream.Action} {after : World → Manager}
    (h : manager.perform env action after = .next next)
    (hworld : ∀ world, (after world).world = world)
    (hsnapshots : ∀ world, (after world).snapshots = manager.snapshots)
    (hclosed : ∀ world, (after world).closed = manager.closed)
    (howner : ∀ world, manager.owner = some (.close .locked) →
      (after world).owner = some (.close .locked)) : manager.Moves env next := by
  obtain ⟨world, hstep, rfl⟩ := perform_next h
  refine ⟨Or.inr ⟨action, ?_⟩, Or.inl (hsnapshots world), ?_, fun hlocked =>
    Or.inr (howner world hlocked)⟩
  · rw [hworld]
    exact hstep
  · rw [hclosed]
    exact id

theorem moves_retireStep {old : Nat} {stage : RetireStage} {current : Int}
    {resume : Option RetireStage → Owner}
    (h : manager.retireStep env old stage current resume = .next next)
    (howner : manager.owner ≠ some (.close .locked)) : manager.Moves env next := by
  unfold Manager.retireStep at h
  split at h
  · exact moves_of_perform h (fun _ => rfl) (fun _ => rfl) (fun _ => rfl) fun _ hlocked =>
      absurd hlocked howner
  · exact moves_of_perform h (fun _ => rfl) (fun _ => rfl) (fun _ => rfl) fun _ hlocked =>
      absurd hlocked howner
  · by_cases hload : current ≤ 0
    · rw [if_pos hload] at h
      exact moves_of_perform h (fun _ => rfl) (fun _ => rfl) (fun _ => rfl) fun _ => id
    · rw [if_neg hload] at h
      exact moves_of_perform h (fun _ => rfl) (fun _ => rfl) (fun _ => rfl) fun _ hlocked =>
        absurd hlocked howner

/-- Only fields that the registry and publication do not depend on have changed. -/
theorem moves_of_same (hworld : next.world = manager.world)
    (hsnapshots : next.snapshots = manager.snapshots) (hclosed : next.closed = manager.closed)
    (howner : manager.owner = some (.close .locked) → next.owner = some (.close .locked)) :
    manager.Moves env next :=
  ⟨Or.inl hworld, Or.inl hsnapshots, fun h => hclosed.trans h, fun h => Or.inr (howner h)⟩

theorem moves_applyStep {call : ApplyCall} {current : Int}
    (howner : manager.owner = some (.apply call))
    (h : manager.applyStep env call current = .next next) :
    manager.Moves env next := by
  have hopen : manager.owner ≠ some (.close .locked) := by simp [howner]
  have hnot : ∀ {P : Prop}, manager.owner = some (.close .locked) → P :=
    fun hlocked => absurd hlocked hopen
  obtain ⟨revision, resources, now, stage⟩ := call
  cases stage with
  | locked =>
    simp only [Manager.applyStep] at h
    split at h <;> (obtain rfl := Outcome.next.inj h; exact moves_of_same rfl rfl rfl hnot)
  | checked =>
    refine moves_of_perform h ?_ ?_ ?_ fun _ => hnot <;>
      (intro world; dsimp only; split <;> rfl)
  | allowed =>
    simp only [Manager.applyStep] at h
    split at h
    · contradiction
    · rename_i world cause hcall
      cases h
      refine ⟨Or.inr ⟨.prepare resources, ?_⟩, Or.inl rfl, id, hnot⟩
      simp only [World.step, World.prepare, hcall]
      rfl
    · rename_i world candidate hcall
      cases h
      refine ⟨Or.inr ⟨.prepare resources, ?_⟩, Or.inl rfl, id, hnot⟩
      simp only [World.step, World.prepare, hcall]
      rfl
  | building candidate =>
    simp only [Manager.applyStep] at h
    split at h
    · contradiction
    · cases h
      exact moves_of_same rfl rfl rfl hnot
  | committing candidate snapshot =>
    exact moves_of_perform h (fun _ => rfl) (fun _ => rfl) (fun _ => rfl) fun _ => hnot
  | counting candidate snapshot set =>
    exact moves_of_perform h (fun _ => rfl) (fun _ => rfl) (fun _ => rfl) fun _ => hnot
  | publishing candidate snapshot set =>
    cases h
    exact ⟨Or.inl rfl, Or.inr ⟨_, candidate, snapshot, set, howner, rfl⟩, id, hnot⟩
  | retiring candidate old stage => exact moves_retireStep h hopen
  | finishing candidate result =>
    exact moves_of_perform h (fun _ => rfl) (fun _ => rfl) (fun _ => rfl) fun _ => hnot
  | releasing candidate result =>
    exact moves_of_perform h (fun _ => rfl) (fun _ => rfl) (fun _ => rfl) fun _ => hnot
  | returning result =>
    cases h
    exact moves_of_same rfl rfl rfl hnot

theorem moves_closeStep {stage : CloseStage} {current : Int}
    (howner : manager.owner = some (.close stage))
    (h : manager.closeStep env stage current = .next next) :
    manager.Moves env next := by
  cases stage with
  | locked =>
    cases h
    exact ⟨Or.inl rfl, Or.inl rfl, fun _ => rfl, fun _ => Or.inl rfl⟩
  | swapping =>
    cases h
    exact moves_of_same rfl rfl rfl fun hlocked => by simp [howner] at hlocked
  | retiring old stage => exact moves_retireStep h (by simp [howner])
  | unlocking =>
    cases h
    exact moves_of_same rfl rfl rfl fun hlocked => by simp [howner] at hlocked

theorem moves_step {action : Action} (h : manager.step env action = .next next) :
    manager.Moves env next := by
  cases turn_of_step h with
  | lockApply hfree => exact moves_of_same rfl rfl rfl fun hlocked => by simp [hfree] at hlocked
  | lockClose => exact moves_of_same rfl rfl rfl fun _ => rfl
  | apply howner hstep => exact moves_applyStep howner hstep
  | close howner hstep => exact moves_closeStep howner hstep
  | beside hbeside =>
    refine ⟨hbeside.world.imp_right fun ⟨inner, hstep, _⟩ => ⟨inner, hstep⟩,
      Or.inl hbeside.owned.snapshots, fun hclosed => hbeside.closed.trans hclosed,
      fun hlocked => Or.inr (hbeside.owned.owner.trans hlocked)⟩

/-- After `Close` has begun, no step publishes. -/
theorem Manager.Sound.closed_step {action : Action} (h : manager.Sound)
    (hbegan : manager.closeBegan) (hstep : manager.step env action = .next next) :
    next.closeBegan ∧ next.snapshots = manager.snapshots := by
  have hmoves := moves_step hstep
  constructor
  · rcases hbegan with hclosed | ⟨stage, howner⟩
    · exact Or.inl (hmoves.closed hclosed)
    have hsound := h.phased.owner _ howner
    cases stage with
    | locked =>
      rcases hmoves.locked howner with hclosed | howner
      · exact Or.inl hclosed
      · exact Or.inr ⟨.locked, howner⟩
    | swapping => exact Or.inl (hmoves.closed hsound)
    | retiring old stage => exact Or.inl (hmoves.closed hsound.1)
    | unlocking => exact Or.inl (hmoves.closed hsound)
  · rcases hmoves.snapshots with hsame | ⟨call, candidate, snapshot, set, howner, hstage⟩
    · exact hsame
    have hsound := h.phased.owner _ howner
    obtain ⟨revision, resources, now, stage⟩ := call
    subst hstage
    rcases hbegan with hclosed | ⟨stage, hclose⟩
    · have hrunning := hsound.1.running
      rw [hclosed] at hrunning
      contradiction
    · rw [howner] at hclose
      exact nomatch hclose

theorem Manager.Sound.closed_runs {later : Manager} (h : manager.Sound)
    (hbegan : manager.closeBegan) (hruns : Runs (Manager.step env) manager later) :
    later.snapshots = manager.snapshots := by
  have hstep : ∀ before action after,
      (before.Sound ∧ before.closeBegan ∧ before.snapshots = manager.snapshots) →
      Manager.step env before action = .next after →
      after.Sound ∧ after.closeBegan ∧ after.snapshots = manager.snapshots := by
    intro before action after hbefore hstep
    obtain ⟨hsound, hclosing, hsame⟩ := hbefore
    obtain ⟨hafter, hkept⟩ := hsound.closed_step hclosing hstep
    have hensures := hsound.step env action
    rw [hstep] at hensures
    exact ⟨hensures, hafter, hkept.trans hsame⟩
  exact (hruns.invariant hstep ⟨h, hbegan, rfl⟩).2.2

theorem exists_set_of_phaseAt {world : World} {phase : PlanSetPhase}
    (h : world.phaseAt index = some phase) :
    ∃ set, world.sets[index]? = some set ∧ set.phase = phase := by
  obtain ⟨view, hview, hphase⟩ := Option.map_eq_some_iff.mp h
  obtain ⟨set, hset, rfl⟩ := Upstream.look_eq_some_iff.mp hview
  exact ⟨set, hset, hphase⟩

/-- The lease of a snapshot is one of the holders of its plan set. -/
theorem Manager.Sound.holders_pos (h : manager.Sound) {lease : Lease}
    (hlease : lease ∈ manager.leases) (hphase : lease.phase ≠ .released) :
    ∃ index set, manager.plansOf lease.snapshot = some index ∧
      manager.world.sets[index]? = some set ∧ 0 < set.holders := by
  have hlt := h.held.leased lease hlease
  have hplans : manager.plansOf lease.snapshot = some (manager.snapshots[lease.snapshot]).plans := by
    rw [Manager.plansOf, List.getElem?_eq_getElem hlt]
    rfl
  obtain ⟨found, hfound, _⟩ := h.phased.committed _ _ hplans
  obtain ⟨set, hset, _⟩ := exists_set_of_phaseAt hfound
  refine ⟨_, set, hplans, hset, ?_⟩
  have htokens := h.held.holders _ set.holders (by rw [World.holdersAt, World.look, hset]; rfl)
  obtain ⟨rest, hrest⟩ := exists_total_of_mem
    (Lease.weight manager.plansOf (manager.snapshots[lease.snapshot]).plans) hlease
  have hweight : Lease.weight manager.plansOf (manager.snapshots[lease.snapshot]).plans lease = 1 :=
    if_pos ⟨hphase, hplans⟩
  rw [Manager.tokens, hrest, hweight] at htokens
  omega

/-- Snapshots are published in increasing order of their revisions, and never
after `Close` has begun.  The plan set of the active snapshot holds its owner
reference; `Acquire` refuses only when it saw no active snapshot, and tries again
only after the active pointer has changed; what it returns was active during the
call.  A finalized plan set is retired and has no holder, no count rises from zero
in any step, and the plan set of an unreleased lease is not finalized. -/
theorem snapshots_published_safely (env : Environment) (maxRetiredSnapshots : Nat)
    (manager : Manager) (h : Manager.Reachable env maxRetiredSnapshots manager) :
    manager.published.Pairwise (· < ·) ∧
    (∀ later, manager.closeBegan → Runs (Manager.step env) manager later →
      later.published = manager.published) ∧
    (∀ snapshot, manager.active = some snapshot → ∃ index set,
      manager.plansOf snapshot = some index ∧ manager.world.sets[index]? = some set ∧
        set.phase = .active ∧ 0 < set.refs) ∧
    (∀ call ∈ manager.calls,
      (∀ observed, call.stage = .refused observed → observed = none) ∧
      (∀ snapshot, call.stage = .rechecking snapshot → manager.active ≠ some snapshot) ∧
      ∀ snapshot ended, call.stage = .leased snapshot ended →
        Seen manager.history call.began ended snapshot) ∧
    (∀ set ∈ manager.world.sets, set.finalized = true →
      set.retired = true ∧ set.holders = 0 ∧ set.refs = 0) ∧
    (∀ action next, manager.step env action = .next next →
      ∀ (index : Nat) (set : Upstream.PlanSet), manager.world.sets[index]? = some set →
        set.refs ≤ 0 → ∃ after : Upstream.PlanSet,
          next.world.sets[index]? = some after ∧ after.refs ≤ 0) ∧
    ∀ lease ∈ manager.leases, lease.phase ≠ .released → ∃ index set,
      manager.plansOf lease.snapshot = some index ∧ manager.world.sets[index]? = some set ∧
        0 < set.holders ∧ set.finalized = false := by
  have hsound := h.sound
  refine ⟨hsound.phased.revisions, ?_, ?_, ?_, ?_, ?_, ?_⟩
  · intro later hbegan hruns
    rw [Manager.published, hsound.closed_runs hbegan hruns]
    rfl
  · intro snapshot hactive
    obtain ⟨index, hplans, hphase⟩ := hsound.phased.active snapshot hactive
    obtain ⟨set, hset, hactivePhase⟩ := exists_set_of_phaseAt hphase
    refine ⟨index, set, hplans, hset, hactivePhase, ?_⟩
    have hsum := (hsound.consistent.wellCounted hset).refs
    rw [Upstream.PlanSet.ownerRefs, hactivePhase] at hsum
    simp at hsum
    omega
  · intro call hcall
    obtain ⟨_, hstage⟩ := hsound.phased.calls call hcall
    obtain ⟨began, stage⟩ := call
    refine ⟨?_, ?_, ?_⟩
    · rintro observed rfl
      exact hstage
    · rintro snapshot rfl hactive
      obtain ⟨_, set, hplans, hreleased⟩ := hstage
      obtain ⟨found, hfound, hphase⟩ := hsound.phased.active snapshot hactive
      obtain rfl := Option.some.inj (hplans.symm.trans hfound)
      rw [hreleased] at hphase
      contradiction
    · rintro snapshot ended rfl
      exact hstage.2
  · intro set hset hfinalized
    have hcounted := hsound.consistent.booked.counted set hset
    obtain ⟨hphase, hholders⟩ := hcounted.finalized hfinalized
    have hsum := hcounted.refs
    rw [Upstream.PlanSet.ownerRefs, if_pos hphase, hholders] at hsum
    exact ⟨by rw [Upstream.PlanSet.retired, hphase], hholders, by simpa using hsum⟩
  · intro action next hstep index set hset hrefs
    rcases (moves_step hstep).world with hsame | ⟨performed, hperformed⟩
    · exact ⟨set, by rw [hsame, hset], hrefs⟩
    obtain ⟨after, hafter, hfollows⟩ := Upstream.look_follows hperformed
      (Upstream.look_eq_some_iff.mpr ⟨set, hset, rfl⟩)
    obtain ⟨changed, hchanged, rfl⟩ := Upstream.look_eq_some_iff.mp hafter
    exact ⟨changed, hchanged, hfollows hrefs⟩
  · intro lease hlease hphase
    obtain ⟨index, set, hplans, hset, hholders⟩ := hsound.holders_pos hlease hphase
    refine ⟨index, set, hplans, hset, hholders, ?_⟩
    by_contra hfinalized
    have hnone := ((hsound.consistent.wellCounted hset).finalized (by simpa using hfinalized)).2
    omega

/-- A manager whose plugin chains are empty and which has no downstream policy. -/
def sampleEnvironment : Environment where
  platform := Upstream.samplePlatform
  compilers :=
    { tables := .asciiOnly
      choices := .stable
      downstreamTLS := fun _ _ _ => .ok ⟨0, 0, 0, 0⟩
      pluginChain := fun _ _ => .ok ⟨[], 0⟩ }
  hasBuilder := true
  hasUpstreams := true

/-- One route to the sample upstream. -/
def sampleConfiguration : ResourceSet :=
  { Upstream.sampleResources with
    routes := [⟨ascii "all", 0, ⟨[], ascii "/*", [ascii "GET"], [], []⟩, [], ascii "app", [],
      ⟨none, none, none, none⟩, ⟨none, none⟩⟩] }

/-- The steps of an `Apply` that publishes and retires nothing. -/
def publishFirst (revision : Nat) : List Action :=
  .lockApply revision sampleConfiguration 0 :: List.replicate 9 (.owner 0)

/-- The steps of an `Apply` that retires a plan set with this count. -/
def publishOver (revision : Nat) (current : Int) : List Action :=
  .lockApply revision sampleConfiguration 0 :: List.replicate 12 (.owner current)

/-- A lease on the first snapshot outlives its replacement. -/
theorem snapshots_published_safely_replaced :
    ∃ manager, Manager.Reachable sampleEnvironment 4 manager ∧
      (manager.published, manager.active, manager.leases.map Lease.snapshot,
        manager.world.registry.retired) = ([1, 2], some 1, [0], [0]) ∧
      ∀ lease ∈ manager.leases, lease.phase ≠ .released → ∃ index set,
        manager.plansOf lease.snapshot = some index ∧ manager.world.sets[index]? = some set ∧
          0 < set.holders ∧ set.finalized = false := by
  have hrun : (runAll (Manager.step sampleEnvironment)
      (publishFirst 1 ++ [.beginAcquire, .callLoad 0, .callSwap 0 1] ++ publishOver 2 2)
      (Manager.initial 4)).map (fun manager =>
        (manager.published, manager.active, manager.leases.map Lease.snapshot,
          manager.world.registry.retired)) = some ([1, 2], some 1, [0], [0]) := by
    decide +kernel
  obtain ⟨manager, hmanager, hshape⟩ := Option.map_eq_some_iff.mp hrun
  have hreach : Manager.Reachable sampleEnvironment 4 manager := runs_of_runAll hmanager
  exact ⟨manager, hreach, hshape,
    (snapshots_published_safely sampleEnvironment 4 manager hreach).2.2.2.2.2.2⟩

end GGateway.Runtime
