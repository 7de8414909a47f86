import GGateway.Runtime.Provenance
import GGateway.Upstream.Retention

/-!
# How many generations are retained

`Prepare` refuses when the retired list is full, but the list grows only later,
when `Apply` retires the plan set it replaces.  In between, the owner of `applyMu`
is the only one who adds to the list and the reaper only takes sets off, so the
place that `Prepare` found free is still free.  The invariant counts that place as
reserved:

* `Owner.reserved`: the place on the list that the owner still needs;
* `Owner.due`: the plan set that counts as active without being the published one;
* `Owner.drops`: the set on the list whose owner reference is not yet dropped.
-/

set_option linter.dupNamespace false

namespace GGateway.Runtime

open Text Model Library.Transition
open GGateway.Upstream (Platform World PlanSetPhase Registry)

/-! ## Steps of everybody else -/

/-- A step that neither `Apply` nor `Close` takes. -/
structure Manager.Aside (env : Environment) (before after : Manager) : Prop where
  owned : before.SameOwned after
  closed : after.closed = before.closed
  world : after.world = before.world ∨
    ∃ action, before.world.step env.platform action = .next after.world ∧
      action.phased = false ∧
      (action.retains = true ∨ action = .close ∧ before.closed = true)

theorem Manager.Beside.aside {env : Environment} {manager next : Manager} {action : Action}
    (h : manager.Beside env action next) : manager.Aside env next := by
  refine ⟨h.owned, h.closed, h.world.imp_right ?_⟩
  rintro ⟨inner, hstep, hcounting | ⟨_, hallowed⟩⟩
  · refine ⟨inner, hstep, ?_⟩
    cases inner <;> first | exact ⟨rfl, Or.inl rfl⟩ | exact absurd hcounting Bool.false_ne_true
  · refine ⟨inner, hstep, ?_⟩
    cases inner with
    | close => exact ⟨rfl, Or.inr ⟨rfl, hallowed⟩⟩
    | reapNow | acquireTunnelLease | releaseLease | releaseLeaseLocked | deliver =>
      exact ⟨rfl, Or.inl rfl⟩
    | _ => exact absurd hallowed Bool.false_ne_true

/-! ## What the owner of `applyMu` still has to do -/

/-- `Retire` has still to move the set from the active ones to the list. -/
def RetireStage.due : RetireStage → Nat
  | .start | .register => 1
  | .drop => 0

def RetireStage.drops (old : Nat) : RetireStage → Option Nat
  | .start | .register => none
  | .drop => some old

def ApplyStage.reserved : ApplyStage → Nat
  | .allowed | .building _ | .committing _ _ | .counting _ _ _ | .publishing _ _ _ => 1
  | .retiring _ _ stage => stage.due
  | .locked | .checked | .finishing _ _ | .releasing _ _ | .returning _ => 0

def ApplyStage.due : ApplyStage → Nat
  | .publishing _ _ _ => 1
  | .retiring _ _ stage => stage.due
  | .locked | .checked | .allowed | .building _ | .committing _ _ | .counting _ _ _ => 0
  | .finishing _ _ | .releasing _ _ | .returning _ => 0

def ApplyStage.drops : ApplyStage → Option Nat
  | .retiring _ old stage => stage.drops old
  | _ => none

def Owner.reserved : Owner → Nat
  | .apply call => call.stage.reserved
  | .close (.retiring _ stage) => stage.due
  | .close _ => 0

def Owner.due : Owner → Nat
  | .apply call => call.stage.due
  | .close (.retiring _ stage) => stage.due
  | .close _ => 0

def Owner.drops : Owner → Option Nat
  | .apply call => call.stage.drops
  | .close (.retiring old stage) => stage.drops old
  | .close _ => none

def reservedBy (owner : Option Owner) : Nat := owner.elim 0 Owner.reserved

def dueBy (owner : Option Owner) : Nat := owner.elim 0 Owner.due

def dropsBy (owner : Option Owner) : Option Nat := owner.bind Owner.drops

/-- An `Apply` that has not asked the registry, or that is about to return. -/
def ApplyStage.outside : ApplyStage → Bool
  | .locked | .returning _ => true
  | _ => false

def Manager.current (manager : Manager) : Nat :=
  if manager.active.isSome then 1 else 0

theorem Manager.current_le_one (manager : Manager) : manager.current ≤ 1 := by
  unfold Manager.current
  split_ifs <;> omega

structure Manager.Bounded (limit : Nat) (manager : Manager) : Prop where
  configured : manager.world.registry.maxRetiredSnapshots = limit
  running : manager.closed = false → manager.world.registry.closed = false
  refuses : manager.closed = true → ∀ call, manager.owner = some (.apply call) →
    call.stage.outside = true
  unpublished : manager.closed = true →
    manager.active = none ∨ manager.owner = some (.close .swapping)
  retired : manager.closed = false →
    manager.world.registry.retired.length + reservedBy manager.owner ≤ limit
  afterClose : manager.closed = true →
    manager.world.registry.retired.length + reservedBy manager.owner + manager.current ≤ limit + 1
  active : manager.world.registry.activePlanSets = (manager.current + dueBy manager.owner : Nat)
  registered : ∀ index, manager.world.phaseAt index = some .registered →
    dropsBy manager.owner = some index

theorem initial_bounded (limit : Nat) : (Manager.initial limit).Bounded limit := by
  constructor
  all_goals simp [Manager.initial, World.initial, Registry.initial, reservedBy, dueBy,
    Manager.current, World.phaseAt, World.look]

section Steps

variable {env : Environment} {limit : Nat} {manager next : Manager}

/-! ## Steps that retire nothing -/

variable {world : World} {call : ApplyCall}

/-- The owner goes on without adding to the list or to the active sets. -/
theorem Manager.Bounded.proceed (h : manager.Bounded limit) {owner : Option Owner}
    {results : List (Option BuildError)} (hworld : manager.world.registry.Retains world.registry)
    (hregistered : ∀ index, world.phaseAt index = some .registered → dropsBy owner = some index)
    (hreserved : reservedBy owner ≤ reservedBy manager.owner ∨
      manager.closed = false ∧ manager.world.registry.retired.length + reservedBy owner ≤ limit)
    (hdue : dueBy owner = dueBy manager.owner)
    (hrefuses : manager.closed = true → ∀ call, owner = some (.apply call) →
      call.stage.outside = true)
    (hswapping : manager.owner = some (.close .swapping) → owner = some (.close .swapping)) :
    ({ manager with world := world, owner := owner, results := results } : Manager).Bounded
      limit := by
  have hlength := hworld.retired.length_le
  constructor
  · exact hworld.limit.trans h.configured
  · intro hopen
    exact hworld.closed.trans (h.running hopen)
  · exact hrefuses
  · intro hclosed
    exact (h.unpublished hclosed).imp id hswapping
  · intro hopen
    change world.registry.retired.length + reservedBy owner ≤ limit
    have hbefore := h.retired hopen
    rcases hreserved with hless | ⟨_, hfits⟩ <;> omega
  · intro hclosed
    change world.registry.retired.length + reservedBy owner + manager.current ≤ limit + 1
    have hbefore := h.afterClose hclosed
    rcases hreserved with hless | ⟨hopen, _⟩
    · omega
    · rw [hclosed] at hopen
      contradiction
  · change world.registry.activePlanSets = ((manager.current + dueBy owner : Nat) : Int)
    rw [hworld.active, hdue]
    exact h.active
  · exact hregistered

/-- An owner that is not in `Retire` has no set to drop. -/
theorem Manager.Bounded.not_registered (h : manager.Bounded limit)
    (hdrops : dropsBy manager.owner = none) (index : Nat) :
    manager.world.phaseAt index ≠ some .registered := by
  intro hindex
  have hdrop := h.registered index hindex
  rw [hdrops] at hdrop
  contradiction

theorem Manager.Bounded.aside (h : manager.Bounded limit) (hsound : manager.Sound)
    (haside : manager.Aside env next) : next.Bounded limit := by
  have howner := haside.owned.owner
  have hactive := haside.owned.active
  have hcurrent : next.current = manager.current := by
    rw [Manager.current, hactive]
    rfl
  have hphase : next.world.phaseAt = manager.world.phaseAt := by
    rcases haside.world with hsame | ⟨action, hstep, hphased, _⟩
    · rw [hsame]
    · exact Upstream.phaseAt_of_not_phased hphased hstep
  -- Closing the registry is the one step that is not covered by `Retains`.
  have hregistry : next.world.registry.maxRetiredSnapshots =
        manager.world.registry.maxRetiredSnapshots ∧
      next.world.registry.activePlanSets = manager.world.registry.activePlanSets ∧
      next.world.registry.retired.length ≤ manager.world.registry.retired.length ∧
      (manager.closed = false → next.world.registry.closed = manager.world.registry.closed) := by
    rcases haside.world with hsame | ⟨action, hstep, _, hretains | ⟨rfl, hclosed⟩⟩
    · rw [hsame]
      exact ⟨rfl, rfl, le_rfl, fun _ => rfl⟩
    · have hkept := hsound.consistent.retains_step hretains hstep
      exact ⟨hkept.limit, hkept.active, hkept.retired.length_le, fun _ => hkept.closed⟩
    · have hworld := Outcome.next.inj hstep
      rw [← hworld]
      refine ⟨rfl, rfl, le_rfl, fun hopen => ?_⟩
      rw [hclosed] at hopen
      contradiction
  obtain ⟨hlimit, hcount, hlength, hrunning⟩ := hregistry
  constructor
  · exact hlimit.trans h.configured
  · intro hopen
    rw [haside.closed] at hopen
    exact (hrunning hopen).trans (h.running hopen)
  · intro hclosed call hcall
    exact h.refuses (haside.closed ▸ hclosed) call (howner ▸ hcall)
  · intro hclosed
    rw [hactive, howner]
    exact h.unpublished (haside.closed ▸ hclosed)
  · intro hopen
    have hbefore := h.retired (haside.closed ▸ hopen)
    rw [howner]
    omega
  · intro hclosed
    have hbefore := h.afterClose (haside.closed ▸ hclosed)
    rw [howner, hcurrent]
    omega
  · rw [hcount, hcurrent, howner]
    exact h.active
  · intro index hindex
    rw [howner]
    exact h.registered index (hphase ▸ hindex)

/-! ## Retire -/

/-- One step of `Retire`.  The set leaves the active ones when it goes on the list,
so the place that was reserved for it is used then. -/
theorem Manager.Bounded.retireStep (h : manager.Bounded limit) (hsound : manager.Sound)
    {old : Nat} {stage : RetireStage} {current : Int} {resume : Option RetireStage → Owner}
    (hphase : manager.world.phaseAt old = some stage.phase)
    (hreserved : reservedBy manager.owner = stage.due) (hdue : dueBy manager.owner = stage.due)
    (hdrops : dropsBy manager.owner = stage.drops old)
    (hswapping : manager.owner ≠ some (.close .swapping))
    (hresume : ∀ result, (resume result).reserved = result.elim 0 RetireStage.due ∧
      (resume result).due = result.elim 0 RetireStage.due ∧
      (resume result).drops = result.bind (RetireStage.drops old))
    (hrefuses : manager.closed = true → ∀ result call, resume result ≠ .apply call)
    (hstep : manager.retireStep env old stage current resume = .next next) :
    next.Bounded limit := by
  have hrefuse : ∀ result, manager.closed = true → ∀ call,
      some (resume result) = some (.apply call) → call.stage.outside = true := by
    intro result hclosed call hcall
    exact absurd (Option.some.inj hcall) (hrefuses hclosed result call)
  have hnot : ∀ {owner : Option Owner}, manager.owner = some (.close .swapping) →
      owner = some (.close .swapping) := fun howner => absurd howner hswapping
  cases stage with
  | start =>
    obtain ⟨world, hworld, rfl⟩ := perform_next hstep
    have hretains := hsound.consistent.retains_step rfl hworld
    obtain ⟨set, hset, _, hretire⟩ := Upstream.look_retire hworld
    have hactive : set.phase = .active := by
      simpa [World.phaseAt, World.look, hset, RetireStage.phase, Upstream.PlanSet.view]
        using hphase
    have hnew : set.retired = false := by simp [Upstream.PlanSet.retired, hactive]
    obtain ⟨hretired, _⟩ | ⟨_, hturns⟩ := hretire
    · rw [hnew] at hretired
      contradiction
    have hstill : setRetired manager.world old = false := by simp [setRetired, hset, hnew]
    have hgoes := hresume (some .register)
    rw [hstill]
    refine h.proceed hretains ?_ (Or.inl ?_) ?_ (hrefuse _) hnot
    · intro index hindex
      rw [hturns.phaseAt] at hindex
      split_ifs at hindex
      · simp at hindex
      · exact absurd hindex (h.not_registered hdrops index)
    · rw [hreserved]
      exact hgoes.1.le
    · rw [hdue]
      exact hgoes.2.1
  | register =>
    obtain ⟨world, hworld, rfl⟩ := perform_next hstep
    have hregistry := Upstream.registry_registerRetired hworld
    obtain ⟨refs, holders, hlook, hturns⟩ := Upstream.look_registerRetired hworld
    obtain ⟨hgoes, hgone, hdropping⟩ := hresume (some .drop)
    have hnone : reservedBy (some (resume (some .drop))) = 0 := hgoes
    have hzero : dueBy (some (resume (some .drop))) = 0 := hgone
    have hone : reservedBy manager.owner = 1 := hreserved
    have htwo : dueBy manager.owner = 1 := hdue
    constructor
    · change world.registry.maxRetiredSnapshots = limit
      rw [hregistry]
      exact h.configured
    · intro hopen
      change world.registry.closed = false
      rw [hregistry]
      exact h.running hopen
    · exact hrefuse _
    · intro hclosed
      exact (h.unpublished hclosed).imp id hnot
    · intro hopen
      change world.registry.retired.length + reservedBy (some (resume (some .drop))) ≤ limit
      have hbefore := h.retired hopen
      rw [hregistry, List.length_append, List.length_singleton]
      omega
    · intro hclosed
      change world.registry.retired.length + reservedBy (some (resume (some .drop))) +
        manager.current ≤ limit + 1
      have hbefore := h.afterClose hclosed
      rw [hregistry, List.length_append, List.length_singleton]
      omega
    · change world.registry.activePlanSets =
        ((manager.current + dueBy (some (resume (some .drop))) : Nat) : Int)
      have hbefore := h.active
      rw [hregistry, hzero]
      dsimp only
      omega
    · intro index hindex
      change world.phaseAt index = some .registered at hindex
      rw [hturns.phaseAt] at hindex
      split_ifs at hindex with hother
      · subst hother
        exact hdropping
      · -- No other set was waiting for its owner reference to be dropped.
        exact absurd hindex (h.not_registered hdrops index)
  | drop =>
    simp only [Manager.retireStep] at hstep
    by_cases hload : current ≤ 0
    · rw [if_pos hload] at hstep
      obtain ⟨world, hworld, rfl⟩ := perform_next hstep
      have hsame := Upstream.phaseAt_of_not_phased rfl hworld
      exact h.proceed (hsound.consistent.retains_step rfl hworld) (hsame ▸ h.registered)
        (Or.inl le_rfl) rfl h.refuses id
    · rw [if_neg hload] at hstep
      obtain ⟨world, hworld, rfl⟩ := perform_next hstep
      have hretains := hsound.consistent.retains_step rfl hworld
      obtain ⟨refs, holders, hlook, _, ⟨hrefs, hturns⟩ | ⟨hrefs, rfl⟩⟩ :=
        Upstream.look_ownerSwap hworld
      · rw [countIs_of_look hlook, decide_eq_true hrefs, if_pos rfl]
        obtain ⟨hgoes, hgone, _⟩ := hresume none
        refine h.proceed hretains ?_ (Or.inl ?_) ?_ (hrefuse _) hnot
        · intro index hindex
          rw [hturns.phaseAt] at hindex
          split_ifs at hindex with hother
          · simp at hindex
          have hbefore := h.registered index hindex
          rw [hdrops] at hbefore
          exact absurd (Option.some.inj hbefore).symm hother
        · rw [hreserved]
          exact hgoes.le
        · rw [hdue]
          exact hgone
      · rw [countIs_of_look hlook, decide_eq_false hrefs]
        obtain ⟨hgoes, hgone, hdropping⟩ := hresume (some .drop)
        refine h.proceed hretains ?_ (Or.inl ?_) ?_ (hrefuse _) hnot
        · intro index hindex
          have hbefore := h.registered index hindex
          rw [hdrops] at hbefore
          exact hdropping.trans hbefore
        · rw [hreserved]
          exact hgoes.le
        · rw [hdue]
          exact hgone

/-! ## Apply and Close -/

/-- `Apply` goes on to a stage that needs no more than the one before. -/
theorem Manager.Bounded.applyProceed (h : manager.Bounded limit)
    (howner : manager.owner = some (.apply call)) {stage : ApplyStage}
    (hworld : manager.world.registry.Retains world.registry)
    (hphase : ∀ index, world.phaseAt index = some .registered →
      manager.world.phaseAt index = some .registered) (hdrops : call.stage.drops = none)
    (hreserved : stage.reserved ≤ call.stage.reserved ∨
      manager.closed = false ∧ manager.world.registry.retired.length + stage.reserved ≤ limit)
    (hdue : stage.due = call.stage.due)
    (houtside : call.stage.outside = false ∨ stage.outside = true ∨ manager.closed = false) :
    ({ manager with world := world } : Manager).withStage call stage |>.Bounded limit := by
  have hfree : dropsBy manager.owner = none := by
    rw [howner]
    exact hdrops
  refine h.proceed hworld ?_ ?_ ?_ ?_ ?_
  · intro index hindex
    exact absurd (hphase index hindex) (h.not_registered hfree index)
  · rw [howner]
    exact hreserved
  · rw [howner]
    exact hdue
  · intro hclosed found hfound
    cases Option.some.inj hfound
    rcases houtside with hinside | hkept | hopen
    · rw [h.refuses hclosed call howner] at hinside
      contradiction
    · exact hkept
    · rw [hclosed] at hopen
      contradiction
  · intro hswapping
    rw [howner] at hswapping
    exact nomatch hswapping

/-- The first check of `Apply` refuses once the manager is closed. -/
theorem open_of_precondition {revision : Nat}
    (h : manager.precondition env revision = none) : manager.closed = false := by
  by_contra hclosed
  rw [Manager.precondition, if_pos (by simpa using hclosed)] at h
  contradiction

theorem lt_of_prepareErrorLocked {registry : Registry} (h : registry.prepareErrorLocked = none) :
    registry.retired.length < registry.maxRetiredSnapshots := by
  unfold Registry.prepareErrorLocked at h
  split_ifs at h with _ hfull
  omega

theorem not_registered_commit {platform : Platform} {after : World} {candidate : Nat}
    (h : world.step platform (.commit candidate) = .next after) (index : Nat)
    (hindex : after.phaseAt index = some .registered) : world.phaseAt index = some .registered := by
  obtain ⟨found, _, ⟨_, rfl⟩ | ⟨_, hturns⟩⟩ := Upstream.look_commit h
  · exact hindex
  rw [hturns.phaseAt] at hindex
  split_ifs at hindex
  · simp at hindex
  · exact hindex

section Stages

variable (h : manager.Bounded limit)

include h

/-- The set of the new snapshot counts as active from here on. -/
theorem Manager.Bounded.counting {candidate set : Nat}
    {snapshot : Snapshot} (howner : manager.owner = some (.apply call))
    (hstage : call.stage = .counting candidate snapshot set)
    (hstep : manager.world.step env.platform (.countCommitted set) = .next world) :
    ({ manager with world := world } : Manager).withStage call
      (.publishing candidate snapshot set) |>.Bounded limit := by
  have hregistry := Upstream.registry_countCommitted hstep
  obtain ⟨refs, holders, _, hturns⟩ := Upstream.look_countCommitted hstep
  have hopen : manager.closed = false := by
    by_contra hclosed
    have houtside := h.refuses (by simpa using hclosed) call howner
    rw [hstage] at houtside
    exact Bool.false_ne_true houtside
  have hbefore := h.active
  have hbound := h.retired hopen
  rw [howner] at hbefore hbound
  simp only [reservedBy, dueBy, Option.elim_some, Owner.reserved, Owner.due, hstage,
    ApplyStage.reserved, ApplyStage.due] at hbefore hbound
  constructor
  · change world.registry.maxRetiredSnapshots = limit
    rw [hregistry]
    exact h.configured
  · intro _
    change world.registry.closed = false
    rw [hregistry]
    exact h.running hopen
  · intro hclosed
    rw [show manager.closed = true from hclosed] at hopen
    contradiction
  · intro hclosed
    rw [show manager.closed = true from hclosed] at hopen
    contradiction
  · intro _
    change world.registry.retired.length + 1 ≤ limit
    rw [hregistry]
    exact hbound
  · intro hclosed
    rw [show manager.closed = true from hclosed] at hopen
    contradiction
  · change world.registry.activePlanSets = ((manager.current + 1 : Nat) : Int)
    rw [hregistry]
    dsimp only
    omega
  · intro index hindex
    change world.phaseAt index = some .registered at hindex
    rw [hturns.phaseAt] at hindex
    split_ifs at hindex
    · simp at hindex
    · have hdrop := h.registered index hindex
      simp [howner, dropsBy, Owner.drops, hstage, ApplyStage.drops] at hdrop

/-- The swap exchanges the published set for the one that is to be retired. -/
theorem Manager.Bounded.publish (hsound : manager.Sound)
    {candidate set : Nat} {snapshot : Snapshot} (howner : manager.owner = some (.apply call))
    (hstage : call.stage = .publishing candidate snapshot set) :
    (manager.publish call candidate snapshot set).Bounded limit := by
  have hopen : manager.closed = false := by
    by_contra hclosed
    have houtside := h.refuses (by simpa using hclosed) call howner
    rw [hstage] at houtside
    exact Bool.false_ne_true houtside
  have hnever : ∀ {P : Prop}, manager.closed = true → P := by
    intro P hclosed
    rw [hclosed] at hopen
    contradiction
  have hactive := h.active
  have hbound := h.retired hopen
  rw [howner] at hactive hbound
  simp only [reservedBy, dueBy, Option.elim_some, Owner.reserved, Owner.due, hstage,
    ApplyStage.reserved, ApplyStage.due, Manager.current] at hactive hbound
  have hfree : dropsBy manager.owner = none := by
    simp [howner, dropsBy, Owner.drops, hstage, ApplyStage.drops]
  cases hprevious : manager.active with
  | none =>
    rw [hprevious] at hactive
    simp only [Manager.publish, hprevious, Option.bind_none, Manager.publish.retireFrom]
    constructor
    · exact h.configured
    · exact h.running
    · exact hnever
    · exact hnever
    · intro _
      change manager.world.registry.retired.length + 0 ≤ limit
      omega
    · exact hnever
    · exact hactive
    · exact fun index hindex => absurd hindex (h.not_registered hfree index)
  | some previous =>
    obtain ⟨old, hold, _⟩ := hsound.phased.active previous hprevious
    rw [hprevious] at hactive
    simp only [Manager.publish, hprevious, Option.bind_some, hold, Manager.publish.retireFrom]
    constructor
    · exact h.configured
    · exact h.running
    · exact hnever
    · exact hnever
    · intro _
      exact hbound
    · exact hnever
    · exact hactive
    · exact fun index hindex => absurd hindex (h.not_registered hfree index)

theorem Manager.Bounded.applyStep (hsound : manager.Sound)
    {current : Int} (howner : manager.owner = some (.apply call))
    (hstep : manager.applyStep env call current = .next next) : next.Bounded limit := by
  have hphased := hsound.phased.owner _ howner
  have hrefuses := fun hclosed => h.refuses hclosed call howner
  obtain ⟨revision, resources, now, stage⟩ := call
  cases stage with
  | locked =>
    simp only [Manager.applyStep] at hstep
    split at hstep
    · cases hstep
      exact h.applyProceed howner (.refl _) (fun _ => id) rfl (Or.inl le_rfl) rfl
        (Or.inr (Or.inl rfl))
    · rename_i hnone
      cases hstep
      exact h.applyProceed howner (.refl _) (fun _ => id) rfl (Or.inl le_rfl) rfl
        (Or.inr (Or.inr (open_of_precondition hnone)))
  | checked =>
    obtain ⟨world, hworld, rfl⟩ := perform_next hstep
    have hretains := hsound.consistent.retains_step rfl hworld
    have hsame := Upstream.phaseAt_of_not_phased rfl hworld
    split
    · exact h.applyProceed howner hretains (fun _ => hsame ▸ id) rfl (Or.inl le_rfl) rfl (Or.inl rfl)
    rename_i hallowed
    have hopen : manager.closed = false := by
      by_contra hclosed
      exact Bool.false_ne_true (hrefuses (by simpa using hclosed))
    have hroom := lt_of_prepareErrorLocked hallowed
    rw [h.configured] at hroom
    exact h.applyProceed howner hretains (fun _ => hsame ▸ id) rfl (Or.inr ⟨hopen, hroom⟩) rfl
      (Or.inl rfl)
  | allowed =>
    obtain ⟨world, result, hcall, _⟩ :=
      hsound.consistent.prepareCall env.platform resources
    have hworld : manager.world.step env.platform (.prepare resources) = .next world := by
      simp only [World.step, World.prepare, hcall]
    have hretains := hsound.consistent.retains_step rfl hworld
    have hsame := Upstream.phaseAt_of_not_phased rfl hworld
    simp only [Manager.applyStep, hcall] at hstep
    cases result with
    | error cause =>
      cases hstep
      exact h.applyProceed howner hretains (fun _ => hsame ▸ id) rfl (Or.inl (Nat.zero_le _)) rfl
        (Or.inl rfl)
    | ok candidate =>
      cases hstep
      exact h.applyProceed howner hretains (fun _ => hsame ▸ id) rfl (Or.inl le_rfl) rfl (Or.inl rfl)
  | building candidate =>
    simp only [Manager.applyStep] at hstep
    split at hstep
    · contradiction
    cases hstep
    unfold afterBuild
    split
    · exact h.applyProceed howner (.refl _) (fun _ => id) rfl (Or.inl (Nat.zero_le _)) rfl (Or.inl rfl)
    · split_ifs
      · exact h.applyProceed howner (.refl _) (fun _ => id) rfl (Or.inl le_rfl) rfl (Or.inl rfl)
      · exact h.applyProceed howner (.refl _) (fun _ => id) rfl (Or.inl (Nat.zero_le _)) rfl (Or.inl rfl)
  | committing candidate snapshot =>
    obtain ⟨world, hworld, rfl⟩ := perform_next hstep
    have hretains := hsound.consistent.retains_step rfl hworld
    split_ifs
    · exact h.applyProceed howner hretains (not_registered_commit hworld) rfl
        (Or.inl (Nat.zero_le _)) rfl (Or.inl rfl)
    · exact h.applyProceed howner hretains (not_registered_commit hworld) rfl
        (Or.inl le_rfl) rfl (Or.inl rfl)
  | counting candidate snapshot set =>
    obtain ⟨world, hworld, rfl⟩ := perform_next hstep
    exact h.counting howner rfl hworld
  | publishing candidate snapshot set =>
    cases hstep
    exact h.publish hsound howner rfl
  | retiring candidate old stage =>
    refine h.retireStep hsound hphased.1 ?_ ?_ ?_ ?_ ?_ ?_ hstep
    · rw [howner]
      rfl
    · rw [howner]
      rfl
    · rw [howner]
      rfl
    · rw [howner]
      intro hswapping
      cases hswapping
    · intro result
      cases result <;> exact ⟨rfl, rfl, rfl⟩
    · intro hclosed
      exact absurd (hrefuses hclosed) Bool.false_ne_true
  | finishing candidate result =>
    obtain ⟨world, hworld, rfl⟩ := perform_next hstep
    have hretains := hsound.consistent.retains_step rfl hworld
    have hsame := Upstream.phaseAt_of_not_phased rfl hworld
    split_ifs
    · exact h.applyProceed howner hretains (fun _ => hsame ▸ id) rfl (Or.inl le_rfl) rfl (Or.inl rfl)
    · exact h.applyProceed howner hretains (fun _ => hsame ▸ id) rfl (Or.inl le_rfl) rfl (Or.inl rfl)
  | releasing candidate result =>
    obtain ⟨world, hworld, rfl⟩ := perform_next hstep
    have hsame := Upstream.phaseAt_of_not_phased rfl hworld
    exact h.applyProceed howner (hsound.consistent.retains_step rfl hworld)
      (fun _ => hsame ▸ id) rfl (Or.inl le_rfl) rfl (Or.inl rfl)
  | returning result =>
    cases hstep
    refine h.proceed (.refl _) ?_ (Or.inl (Nat.zero_le _)) ?_ ?_ ?_
    · intro index hindex
      exact absurd hindex (h.not_registered (by rw [howner]; rfl) index)
    · rw [howner]
      rfl
    · intro _ found hfound
      cases hfound
    · intro hswapping
      rw [howner] at hswapping
      cases hswapping

/-- `Close` has set the flag; it may still have to retire the published set. -/
theorem Manager.Bounded.shut
    (howner : manager.owner = some (.close .locked)) :
    ({ manager with closed := true, owner := some (.close .swapping) } : Manager).Bounded
      limit := by
  have hreserved : reservedBy manager.owner = 0 := by
    rw [howner]
    rfl
  have hone := manager.current_le_one
  constructor
  · exact h.configured
  · intro hopen
    exact absurd hopen.symm Bool.false_ne_true
  · intro _ call hcall
    exact nomatch Option.some.inj hcall
  · exact fun _ => Or.inr rfl
  · intro hopen
    exact absurd hopen.symm Bool.false_ne_true
  · intro _
    change manager.world.registry.retired.length + 0 + manager.current ≤ limit + 1
    cases hclosed : manager.closed with
    | false =>
      have hbound := h.retired hclosed
      omega
    | true =>
      have hbound := h.afterClose hclosed
      omega
  · change manager.world.registry.activePlanSets = ((manager.current + 0 : Nat) : Int)
    rw [h.active, howner]
    rfl
  · intro index hindex
    have hdrop := h.registered index hindex
    rw [howner] at hdrop
    exact hdrop

/-- The swap of `Close` exchanges the published set for the one to be retired. -/
theorem Manager.Bounded.unpublish (hclosed : manager.closed = true)
    (howner : manager.owner = some (.close .swapping)) {history : List (Option Nat)}
    {stage : CloseStage} (hdue : (Owner.close stage).due = manager.current)
    (hreserved : (Owner.close stage).reserved = manager.current) :
    ({ manager with
      active := none
      history := history
      owner := some (.close stage) } : Manager).Bounded limit := by
  have hfree : dropsBy manager.owner = none := by
    rw [howner]
    rfl
  have hzero : reservedBy manager.owner = 0 := by
    rw [howner]
    rfl
  have hnone : dueBy manager.owner = 0 := by
    rw [howner]
    rfl
  constructor
  · exact h.configured
  · exact h.running
  · intro _ call hcall
    exact nomatch Option.some.inj hcall
  · exact fun _ => Or.inl rfl
  · intro hopen
    rw [show manager.closed = false from hopen] at hclosed
    exact absurd hclosed Bool.false_ne_true
  · intro _
    change manager.world.registry.retired.length + (Owner.close stage).reserved + 0 ≤ limit + 1
    have hbound := h.afterClose hclosed
    omega
  · change manager.world.registry.activePlanSets = ((0 + (Owner.close stage).due : Nat) : Int)
    have hactive := h.active
    rw [hactive]
    omega
  · exact fun index hindex => absurd hindex (h.not_registered hfree index)

theorem Manager.Bounded.closeStep (hsound : manager.Sound)
    {stage : CloseStage} {current : Int} (howner : manager.owner = some (.close stage))
    (hstep : manager.closeStep env stage current = .next next) : next.Bounded limit := by
  have hphased := hsound.phased.owner _ howner
  cases stage with
  | locked =>
    cases hstep
    exact h.shut howner
  | swapping =>
    cases hstep
    cases hprevious : manager.active with
    | none =>
      have hcurrent : manager.current = 0 := by simp [Manager.current, hprevious]
      exact h.unpublish hphased howner hcurrent.symm hcurrent.symm
    | some previous =>
      have hcurrent : manager.current = 1 := by simp [Manager.current, hprevious]
      obtain ⟨old, hold, _⟩ := hsound.phased.active previous hprevious
      rw [Option.bind_some, hold]
      exact h.unpublish hphased howner hcurrent.symm hcurrent.symm
  | retiring old stage =>
    refine h.retireStep hsound hphased.2.1 ?_ ?_ ?_ ?_ ?_ ?_ hstep
    · rw [howner]
      rfl
    · rw [howner]
      rfl
    · rw [howner]
      rfl
    · rw [howner]
      exact nofun
    · intro result
      cases result <;> exact ⟨rfl, rfl, rfl⟩
    · intro _ result call
      cases result <;> exact nofun
  | unlocking =>
    cases hstep
    refine h.proceed (.refl _) ?_ (Or.inl (Nat.zero_le _)) ?_ (fun _ _ => nofun) ?_
    · intro index hindex
      exact absurd hindex (h.not_registered (by rw [howner]; rfl) index)
    · rw [howner]
      rfl
    · intro hswapping
      rw [howner] at hswapping
      exact nomatch hswapping

theorem Manager.Bounded.step (hsound : manager.Sound)
    {action : Action} (hstep : manager.step env action = .next next) :
    next.Bounded limit := by
  cases turn_of_step hstep with
  | lockApply hfree =>
    refine h.proceed (.refl _) ?_ (Or.inl (Nat.zero_le _)) ?_ ?_ ?_
    · intro index hindex
      exact absurd hindex (h.not_registered (by rw [hfree]; rfl) index)
    · rw [hfree]
      rfl
    · intro _ call hcall
      cases Option.some.inj hcall
      rfl
    · intro hswapping
      rw [hfree] at hswapping
      contradiction
  | lockClose hfree =>
    refine h.proceed (.refl _) ?_ (Or.inl (Nat.zero_le _)) ?_ (fun _ _ => nofun) ?_
    · intro index hindex
      exact absurd hindex (h.not_registered (by rw [hfree]; rfl) index)
    · rw [hfree]
      rfl
    · intro hswapping
      rw [hfree] at hswapping
      contradiction
  | apply howner happly => exact h.applyStep hsound howner happly
  | close howner hclose => exact h.closeStep hsound howner hclose
  | beside hbeside => exact h.aside hsound hbeside.aside

end Stages

end Steps

theorem Manager.Reachable.bounded {env : Environment} {limit : Nat} {manager : Manager}
    (h : Manager.Reachable env limit manager) :
    manager.Sound ∧ manager.Bounded limit := by
  refine Runs.invariant (P := fun manager => manager.Sound ∧ manager.Bounded limit) ?_ h
    ⟨initial_sound limit, initial_bounded limit⟩
  intro before action after hbefore hstep
  have hensures := hbefore.1.step env action
  rw [hstep] at hensures
  exact ⟨hensures, hbefore.2.step hbefore.1 hstep⟩

end GGateway.Runtime
