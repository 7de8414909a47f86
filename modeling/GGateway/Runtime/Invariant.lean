import GGateway.Runtime.Manager
import GGateway.Upstream.Conservation
import GGateway.Upstream.Frames

/-!
# The invariant of the manager

The snapshot that is active has a plan set whose owner reference is still held,
because only the owner of `applyMu` retires a plan set and it swaps the active
pointer first.  This file states the invariant and shows that every step of `Apply`
and `Close` keeps it.
-/

set_option linter.dupNamespace false

namespace GGateway.Runtime

open Text Model Library.Transition
open GGateway.Upstream (Platform World Panic PlanSetPhase PlanSetView LeasePhase)

/-! ## The invariant -/

/-- The snapshot was the active one at an instant between two points of the
history. -/
def Seen (history : List (Option Nat)) (began ended snapshot : Nat) : Prop :=
  ∃ position, began ≤ position ∧ position < ended ∧ history[position]? = some (some snapshot)

/-- What a call of `Acquire` has established. -/
def Call.Sound (call : Call) (history : List (Option Nat)) (plans : Nat → Option Nat)
    (phase : Nat → Option PlanSetPhase) : Prop :=
  call.began < history.length ∧
    match call.stage with
    | .loading => True
    | .acquiring snapshot => Seen history call.began history.length snapshot
    | .rechecking snapshot => Seen history call.began history.length snapshot ∧
        ∃ set, plans snapshot = some set ∧ phase set = some .released
    | .refused observed => observed = none
    | .leased snapshot ended => ended ≤ history.length ∧ Seen history call.began ended snapshot

/-- The phase that the plan set is in when `Retire` reaches a stage. -/
def RetireStage.phase : RetireStage → PlanSetPhase
  | .start => .active
  | .register => .retiring
  | .drop => .registered

/-- The revision of an `Apply` that passed the first checks. -/
structure Fresh (closed : Bool) (published : List Nat) (revision : Nat) : Prop where
  running : closed = false
  newer : ∀ other ∈ published, other < revision

/-- What the owner of `applyMu` has established. -/
def Owner.Sound (owner : Owner) (manager : Manager) (phase : Nat → Option PlanSetPhase) : Prop :=
  match owner with
  | .apply call =>
    match call.stage with
    | .checked | .allowed | .building _ => Fresh manager.closed manager.published call.revision
    | .committing _ snapshot =>
      Fresh manager.closed manager.published call.revision ∧ snapshot.revision = call.revision
    | .counting _ snapshot set =>
      Fresh manager.closed manager.published call.revision ∧
        snapshot.revision = call.revision ∧ phase set = some .committing ∧
        ∀ other, manager.plansOf other ≠ some set
    | .publishing _ snapshot set =>
      Fresh manager.closed manager.published call.revision ∧
        snapshot.revision = call.revision ∧ phase set = some .active ∧
        ∀ other, manager.plansOf other ≠ some set
    | .retiring _ old stage =>
      phase old = some stage.phase ∧
        ∀ snapshot, manager.active = some snapshot → manager.plansOf snapshot ≠ some old
    | .locked | .finishing _ _ | .releasing _ _ | .returning _ => True
  | .close stage =>
    match stage with
    | .locked => True
    | .swapping | .unlocking => manager.closed = true
    | .retiring old stage =>
      manager.closed = true ∧ phase old = some stage.phase ∧ manager.active = none

/-- The part of the invariant that depends on the phases of the plan sets. -/
structure Manager.Phased (manager : Manager) (phase : Nat → Option PlanSetPhase) : Prop where
  committed : ∀ snapshot set, manager.plansOf snapshot = some set →
    ∃ found, phase set = some found ∧ found ≠ .committing
  distinct : ∀ snapshot other set, manager.plansOf snapshot = some set →
    manager.plansOf other = some set → snapshot = other
  active : ∀ snapshot, manager.active = some snapshot →
    ∃ set, manager.plansOf snapshot = some set ∧ phase set = some .active
  newest : ∀ snapshot, manager.active = some snapshot → snapshot + 1 = manager.snapshots.length
  idle : manager.active = none → manager.snapshots = [] ∨ manager.closed = true
  revisions : manager.published.Pairwise (· < ·)
  current : manager.history.getLast? = some manager.active
  calls : ∀ call ∈ manager.calls, call.Sound manager.history manager.plansOf phase
  owner : ∀ owner, manager.owner = some owner → owner.Sound manager phase

/-- What a lease contributes to the holders of a plan set. -/
def Lease.weight (plans : Nat → Option Nat) (set : Nat) (lease : Lease) : Nat :=
  if lease.phase ≠ .released ∧ plans lease.snapshot = some set then 1 else 0

/-- The unreleased leases on a plan set. -/
def Manager.tokens (manager : Manager) (set : Nat) : Nat :=
  total (Lease.weight manager.plansOf set) manager.leases

/-- The holders of a plan set are the leases on it. -/
structure Manager.Held (manager : Manager) : Prop where
  leased : ∀ lease ∈ manager.leases, lease.snapshot < manager.snapshots.length
  holders : ∀ set holders, manager.world.holdersAt set = some holders →
    holders = manager.tokens set

structure Manager.Sound (manager : Manager) : Prop where
  consistent : manager.world.Consistent
  phased : manager.Phased manager.world.phaseAt
  held : manager.Held

theorem initial_sound (maxRetiredSnapshots : Nat) :
    (Manager.initial maxRetiredSnapshots).Sound := by
  refine ⟨Upstream.initial_consistent maxRetiredSnapshots, ⟨?_, ?_, ?_, ?_, ?_, ?_, ?_, ?_, ?_⟩,
    ⟨?_, ?_⟩⟩ <;>
    simp [Manager.initial, Manager.plansOf, Manager.published, World.initial,
      World.holdersAt, World.look]

theorem Seen.mono {history : List (Option Nat)} {began ended snapshot : Nat}
    (h : Seen history began ended snapshot) (more : List (Option Nat)) {later : Nat}
    (hlater : ended ≤ later) : Seen (history ++ more) began later snapshot := by
  obtain ⟨position, hbegan, hended, hposition⟩ := h
  refine ⟨position, hbegan, by omega, ?_⟩
  rw [List.getElem?_append_left (List.getElem?_eq_some_iff.mp hposition).1]
  exact hposition

variable {phase : Nat → Option PlanSetPhase} {manager : Manager} {action : Upstream.Action}
  {env : Environment}

/-- What a call has established stays true: the history grows, published snapshots
keep their plan sets, and owner references that are gone stay gone. -/
theorem Call.Sound.mono {call : Call} {history : List (Option Nat)}
    {plans later : Nat → Option Nat} {next : Nat → Option PlanSetPhase}
    (h : call.Sound history plans phase) (more : List (Option Nat))
    (hplans : ∀ snapshot set, plans snapshot = some set → later snapshot = some set)
    (hphase : ∀ set, phase set = some .released → next set = some .released) :
    call.Sound (history ++ more) later next := by
  obtain ⟨began, stage⟩ := call
  obtain ⟨hbegan, hstage⟩ := h
  have hlonger : history.length ≤ (history ++ more).length := by simp
  refine ⟨by dsimp only at hbegan ⊢; omega, ?_⟩
  cases stage with
  | loading => trivial
  | acquiring snapshot => exact hstage.mono more hlonger
  | rechecking snapshot =>
    obtain ⟨hseen, set, hset, hreleased⟩ := hstage
    exact ⟨hseen.mono more hlonger, set, hplans _ _ hset, hphase _ hreleased⟩
  | refused observed => exact hstage
  | leased snapshot ended => exact ⟨hstage.1.trans hlonger, hstage.2.mono more le_rfl⟩

/-! ## Steps that change no phase -/

theorem Manager.Phased.with_world (h : manager.Phased phase) (world : World) :
    ({ manager with world := world } : Manager).Phased phase :=
  ⟨h.committed, h.distinct, h.active, h.newest, h.idle, h.revisions, h.current, h.calls, h.owner⟩

theorem Manager.Phased.with_owner (h : manager.Phased phase) {owner : Owner}
    (howner : owner.Sound manager phase) :
    ({ manager with owner := some owner } : Manager).Phased phase := by
  refine ⟨h.committed, h.distinct, h.active, h.newest, h.idle, h.revisions, h.current, h.calls, ?_⟩
  intro found hfound
  cases hfound
  exact howner

theorem Manager.Phased.unowned (h : manager.Phased phase) {results : List (Option BuildError)} :
    ({ manager with owner := none, results := results } : Manager).Phased phase :=
  ⟨h.committed, h.distinct, h.active, h.newest, h.idle, h.revisions, h.current, h.calls,
    fun _ hnone => nomatch hnone⟩

theorem phaseAt_of_quiet {platform : Platform} {world next : World} (hquiet : action.quiet = true)
    (h : world.step platform action = .next next) : next.phaseAt = world.phaseAt := by
  funext index
  rw [World.phaseAt, World.phaseAt, Upstream.look_of_quiet hquiet h]

theorem holdersAt_of_quiet {platform : Platform} {world next : World}
    (hquiet : action.quiet = true) (h : world.step platform action = .next next) :
    next.holdersAt = world.holdersAt := by
  funext index
  rw [World.holdersAt, World.holdersAt, Upstream.look_of_quiet hquiet h]

/-- A step of the registry, seen from the manager. -/
theorem Manager.perform_ensures {after : World → Manager} {P : Manager → Prop}
    (hconsistent : manager.world.Consistent)
    (h : ∀ world, manager.world.step env.platform action = .next world →
      world.Consistent → P (after world)) :
    (manager.perform env action after).Ensures P := by
  have hensures := hconsistent.step env.platform action
  unfold Manager.perform
  cases hstep : manager.world.step env.platform action with
  | blocked => trivial
  | panicked cause =>
    rw [hstep] at hensures
    exact hensures.elim
  | next world =>
    rw [hstep] at hensures
    exact h world hstep hensures

/-- A quiet step of the registry, after which the owner goes on. -/
theorem Manager.Sound.quiet (h : manager.Sound) (hquiet : action.quiet = true) {world : World}
    (hstep : manager.world.step env.platform action = .next world)
    (hconsistent : world.Consistent) : ({ manager with world := world } : Manager).Sound := by
  refine ⟨hconsistent, ?_, ⟨h.held.leased, ?_⟩⟩
  · show Manager.Phased _ world.phaseAt
    rw [phaseAt_of_quiet hquiet hstep]
    exact h.phased.with_world world
  · intro set holders hholders
    refine h.held.holders set holders ?_
    rw [← holdersAt_of_quiet hquiet hstep]
    exact hholders

theorem Manager.Sound.with_owner (h : manager.Sound) {owner : Owner}
    (howner : owner.Sound manager manager.world.phaseAt) :
    ({ manager with owner := some owner } : Manager).Sound :=
  ⟨h.consistent, h.phased.with_owner howner, ⟨h.held.leased, h.held.holders⟩⟩

/-! ## Steps that change the phase of one plan set -/

/-- One plan set changes its phase.  It is not the set of the active snapshot, and
it is not one whose owner reference is gone. -/
theorem Manager.Phased.turn {next : Nat → Option PlanSetPhase} {set : Nat} {found : PlanSetPhase}
    (h : manager.Phased phase)
    (hnext : ∀ other, next other = if other = set then some found else phase other)
    (hfound : ∀ snapshot, manager.plansOf snapshot = some set → found ≠ .committing)
    (hactive : ∀ snapshot, manager.active = some snapshot → manager.plansOf snapshot ≠ some set)
    (hbefore : phase set ≠ some .released) {world : World} {owner : Owner}
    (howner : owner.Sound manager next) :
    ({ manager with world := world, owner := some owner } : Manager).Phased next := by
  refine ⟨?_, h.distinct, ?_, h.newest, h.idle, h.revisions, h.current, ?_, ?_⟩
  · intro snapshot other hplans
    rw [hnext]
    by_cases hother : other = set
    · rw [if_pos hother]
      exact ⟨found, rfl, hfound snapshot (hother ▸ hplans)⟩
    · rw [if_neg hother]
      exact h.committed snapshot other hplans
  · intro snapshot hsnapshot
    obtain ⟨other, hplans, hphase⟩ := h.active snapshot hsnapshot
    have hother : other ≠ set := fun heq => hactive snapshot hsnapshot (heq ▸ hplans)
    exact ⟨other, hplans, by rw [hnext, if_neg hother, hphase]⟩
  · intro call hcall
    have hsound : call.Sound (manager.history ++ []) manager.plansOf next := by
      refine (h.calls call hcall).mono [] (fun _ _ => id) ?_
      intro other hother
      have hne : other ≠ set := fun heq => hbefore (heq ▸ hother)
      rw [hnext, if_neg hne, hother]
    rwa [List.append_nil] at hsound
  · intro other hother
    cases hother
    exact howner

/-- A plan set that keeps its holders while its phase changes. -/
theorem holdersAt_of_turns {world next : World} {index : Nat} {view before : PlanSetView}
    (h : world.Turns next index view) (hbefore : world.look index = some before)
    (hsame : view.holders = before.holders) : next.holdersAt = world.holdersAt := by
  funext other
  rw [h.holdersAt other]
  by_cases hother : other = index
  · rw [if_pos hother, hsame, World.holdersAt, hother, hbefore]
    rfl
  · rw [if_neg hother]

theorem Manager.Held.of_turns {world : World} {index : Nat} {view before : PlanSetView}
    (h : manager.Held) (hturns : manager.world.Turns world index view)
    (hbefore : manager.world.look index = some before) (hsame : view.holders = before.holders)
    {owner : Option Owner} : ({ manager with world := world, owner := owner } : Manager).Held := by
  refine ⟨h.leased, ?_⟩
  intro set holders hset
  refine h.holders set holders ?_
  rw [← holdersAt_of_turns hturns hbefore hsame]
  exact hset

theorem countIs_of_look {world : World} {index : Nat} {view : PlanSetView}
    (h : world.look index = some view) (current : Int) :
    countIs world index current = decide (view.refs = current) := by
  obtain ⟨set, hset, rfl⟩ := Upstream.look_eq_some_iff.mp h
  simp only [countIs, hset]
  rfl

/-- One step of `Retire`, on a plan set whose snapshot is not active. -/
theorem Manager.Sound.retireStep (h : manager.Sound) (env : Environment) {old : Nat}
    {stage : RetireStage} (current : Int) {resume : Option RetireStage → Owner}
    (hphase : manager.world.phaseAt old = some stage.phase)
    (hactive : ∀ snapshot, manager.active = some snapshot → manager.plansOf snapshot ≠ some old)
    (hresume : ∀ result phase, (∀ next, result = some next → phase old = some next.phase) →
      (resume result).Sound manager phase) :
    (manager.retireStep env old stage current resume).Ensures Manager.Sound := by
  have hbefore : manager.world.phaseAt old ≠ some .released := by
    rw [hphase]
    cases stage <;> simp [RetireStage.phase]
  unfold Manager.retireStep
  split
  · refine perform_ensures h.consistent ?_
    intro world hstep hconsistent
    obtain ⟨set, hset, hcommitting, ⟨hretired, rfl⟩ | ⟨hretired, hturns⟩⟩ :=
      Upstream.look_retire hstep
    · refine h.with_owner (hresume _ _ ?_)
      intro next hnext
      simp [setRetired, hset, hretired] at hnext
    have hlook : manager.world.look old = some set.view :=
      Upstream.look_eq_some_iff.mpr ⟨set, hset, rfl⟩
    refine ⟨hconsistent, h.phased.turn hturns.phaseAt (fun _ _ => by simp) hactive hbefore
      (hresume _ _ ?_), h.held.of_turns hturns hlook rfl⟩
    intro next hnext
    obtain rfl : RetireStage.register = next := by
      simpa [setRetired, hset, hretired] using hnext
    rw [hturns.phaseAt, if_pos rfl]
    rfl
  · refine perform_ensures h.consistent ?_
    intro world hstep hconsistent
    obtain ⟨refs, holders, hlook, hturns⟩ := Upstream.look_registerRetired hstep
    refine ⟨hconsistent, h.phased.turn hturns.phaseAt (fun _ _ => by simp) hactive hbefore
      (hresume _ _ ?_), h.held.of_turns hturns hlook rfl⟩
    intro next hnext
    cases hnext
    rw [hturns.phaseAt, if_pos rfl]
    rfl
  · by_cases hload : current ≤ 0
    · rw [if_pos hload]
      refine perform_ensures h.consistent ?_
      intro world hstep hconsistent
      exact h.quiet rfl hstep hconsistent
    · rw [if_neg hload]
      refine perform_ensures h.consistent ?_
      intro world hstep hconsistent
      obtain ⟨refs, holders, hlook, _, ⟨hrefs, hturns⟩ | ⟨hrefs, rfl⟩⟩ :=
        Upstream.look_ownerSwap hstep
      · have hcount := countIs_of_look hlook current
        refine ⟨hconsistent, h.phased.turn hturns.phaseAt (fun _ _ => by simp) hactive hbefore
          (hresume _ _ ?_), h.held.of_turns hturns hlook rfl⟩
        intro next hnext
        rw [hcount, decide_eq_true hrefs] at hnext
        simp at hnext
      · have hcount := countIs_of_look hlook current
        refine h.with_owner (hresume _ _ ?_)
        intro next hnext
        rw [hcount, decide_eq_false hrefs] at hnext
        obtain rfl : RetireStage.drop = next := by simpa using hnext
        exact hphase

/-! ## Apply -/

/-- The first checks establish that the revision is newer than every published
one: the newest is active, unless nothing was published or the manager is closed. -/
theorem fresh_of_precondition {revision : Nat} (h : manager.Phased phase)
    (hnone : manager.precondition env revision = none) :
    Fresh manager.closed manager.published revision := by
  unfold Manager.precondition at hnone
  split_ifs at hnone with hclosed
  have hrunning : manager.closed = false := by simpa using hclosed
  refine ⟨hrunning, ?_⟩
  cases hactive : manager.active with
  | none =>
    rcases h.idle hactive with hempty | hclosed
    · simp [Manager.published, hempty]
    · rw [hrunning] at hclosed
      contradiction
  | some snapshot =>
    have hnewest := h.newest snapshot hactive
    obtain ⟨active, hlast⟩ : ∃ active, manager.snapshots[snapshot]? = some active :=
      ⟨_, List.getElem?_eq_getElem (by omega)⟩
    simp only [hactive, Option.bind_some, hlast] at hnone
    split_ifs at hnone with hstale
    intro other hother
    obtain ⟨position, hposition⟩ := List.mem_iff_getElem?.mp hother
    have hrevision : manager.published[snapshot]? = some active.snapshot.revision := by
      simp [Manager.published, hlast]
    obtain ⟨hsnapshot, hactiveRevision⟩ := List.getElem?_eq_some_iff.mp hrevision
    obtain ⟨hlt, hotherRevision⟩ := List.getElem?_eq_some_iff.mp hposition
    have hlength : manager.published.length = manager.snapshots.length := by
      simp [Manager.published]
    rcases Nat.lt_or_ge position snapshot with hbefore | hafter
    · have hless := List.pairwise_iff_getElem.mp h.revisions position snapshot hlt hsnapshot hbefore
      omega
    · have heq : position = snapshot := by omega
      subst heq
      omega

theorem plansOf_concat {added : Published} {snapshot : Nat} :
    ((manager.snapshots ++ [added])[snapshot]?).map Published.plans =
      if snapshot = manager.snapshots.length then some added.plans
      else manager.plansOf snapshot := by
  rcases lt_trichotomy snapshot manager.snapshots.length with hlt | rfl | hgt
  · rw [if_neg hlt.ne, List.getElem?_append_left hlt]
    rfl
  · rw [if_pos rfl, List.getElem?_concat_length]
    rfl
  · rw [if_neg hgt.ne', Manager.plansOf, List.getElem?_eq_none (by simp; omega),
      List.getElem?_eq_none hgt.le]

theorem lt_of_plansOf {snapshot set : Nat} (h : manager.plansOf snapshot = some set) :
    snapshot < manager.snapshots.length := by
  obtain ⟨published, hpublished, _⟩ := Option.map_eq_some_iff.mp h
  exact (List.getElem?_eq_some_iff.mp hpublished).1

/-- The swap that publishes a snapshot, whose plan set is active and unused. -/
theorem Manager.Sound.publish (h : manager.Sound) {call : ApplyCall} {candidate set : Nat}
    {snapshot : Snapshot} (hfresh : Fresh manager.closed manager.published call.revision)
    (hrevision : snapshot.revision = call.revision)
    (hphase : manager.world.phaseAt set = some .active)
    (hunused : ∀ other, manager.plansOf other ≠ some set) :
    (manager.publish call candidate snapshot set).Sound := by
  have hplans : ∀ other, (manager.publish call candidate snapshot set).plansOf other =
      if other = manager.snapshots.length then some set else manager.plansOf other :=
    fun _ => plansOf_concat
  have hkeep : ∀ other found, manager.plansOf other = some found →
      (manager.publish call candidate snapshot set).plansOf other = some found := by
    intro other found hfound
    rw [hplans, if_neg (lt_of_plansOf hfound).ne, hfound]
  refine ⟨h.consistent, ⟨?_, ?_, ?_, ?_, ?_, ?_, ?_, ?_, ?_⟩, ⟨?_, ?_⟩⟩
  · intro other found hfound
    rw [hplans] at hfound
    split_ifs at hfound with hother
    · cases hfound
      exact ⟨.active, hphase, by simp⟩
    · exact h.phased.committed other found hfound
  · intro first second found hfirst hsecond
    rw [hplans] at hfirst hsecond
    split_ifs at hfirst hsecond with hone htwo htwo
    · rw [hone, htwo]
    · cases hfirst
      exact absurd hsecond (hunused second)
    · cases hsecond
      exact absurd hfirst (hunused first)
    · exact h.phased.distinct first second found hfirst hsecond
  · intro other hother
    cases hother
    exact ⟨set, by rw [hplans, if_pos rfl], hphase⟩
  · intro other hother
    cases hother
    simp [Manager.publish]
  · intro hnone
    exact nomatch hnone
  · show (List.map _ (manager.snapshots ++ [_])).Pairwise _
    rw [List.map_append, List.pairwise_append]
    refine ⟨h.phased.revisions, by simp, ?_⟩
    intro first hfirst second hsecond
    rw [List.map_singleton, List.mem_singleton] at hsecond
    rw [hsecond]
    show first < snapshot.revision
    rw [hrevision]
    exact hfresh.newer first hfirst
  · simp [Manager.publish]
  · intro acquire hacquire
    exact (h.phased.calls acquire hacquire).mono _ hkeep fun _ => id
  · intro owner howner
    cases howner
    cases hold : manager.active.bind manager.plansOf with
    | none => trivial
    | some old =>
      obtain ⟨previous, hprevious, hpreviousPlans⟩ := Option.bind_eq_some_iff.mp hold
      obtain ⟨found, hfound, hactive⟩ := h.phased.active previous hprevious
      obtain rfl := Option.some.inj (hpreviousPlans.symm.trans hfound)
      refine ⟨hactive, ?_⟩
      intro newest hnewest hplansNewest
      cases hnewest
      rw [hplans, if_pos rfl] at hplansNewest
      cases hplansNewest
      exact hunused previous hpreviousPlans
  · intro lease hlease
    have hlt := h.held.leased lease hlease
    simp only [Manager.publish, List.length_append, List.length_singleton]
    omega
  · intro other holders hholders
    rw [h.held.holders other holders hholders]
    refine total_congr fun lease hlease => ?_
    rw [Lease.weight, Lease.weight, hplans, if_neg (h.held.leased lease hlease).ne]

/-- The candidate is committed to a new plan set, which no snapshot has. -/
theorem Manager.Sound.commit (h : manager.Sound) {call : ApplyCall} {candidate : Nat}
    {snapshot : Snapshot} (hfresh : Fresh manager.closed manager.published call.revision)
    (hrevision : snapshot.revision = call.revision) :
    (manager.perform env (.commit candidate) fun world =>
      { manager with world := world }.withStage call
        (if candidateDone manager.world candidate then
          .finishing candidate (some (revisionError call.revision
            (ascii "SNAPSHOT_INVARIANT_FAILED") (ascii "candidate ownership transfer failed")))
        else .counting candidate snapshot manager.world.sets.length)).Ensures Manager.Sound := by
  refine perform_ensures h.consistent ?_
  intro world hstep hconsistent
  obtain ⟨found, hfound, ⟨hdone, rfl⟩ | ⟨hdone, hturns⟩⟩ := Upstream.look_commit hstep
  · rw [if_pos (by simp [candidateDone, hfound, hdone])]
    exact h.with_owner trivial
  rw [if_neg (by simp [candidateDone, hfound, hdone])]
  have hunused : ∀ other, manager.plansOf other ≠ some manager.world.sets.length := by
    intro other hother
    obtain ⟨phase, hphase, _⟩ := h.phased.committed other _ hother
    rw [Upstream.phaseAt_length] at hphase
    contradiction
  refine ⟨hconsistent, h.phased.turn hturns.phaseAt ?_ ?_ ?_ ?_, ⟨h.held.leased, ?_⟩⟩
  · intro other hother
    exact absurd hother (hunused other)
  · intro other _
    exact hunused other
  · rw [Upstream.phaseAt_length]
    simp
  · refine ⟨hfresh, hrevision, ?_, hunused⟩
    rw [hturns.phaseAt, if_pos rfl]
  · intro set holders hholders
    replace hholders : world.holdersAt set = some holders := hholders
    rw [hturns.holdersAt] at hholders
    split_ifs at hholders with hset
    · cases hholders
      subst hset
      refine (total_eq_zero fun lease _ => if_neg ?_).symm
      intro hlease
      exact hunused _ hlease.2
    · exact h.held.holders set holders hholders

theorem Manager.Sound.applyStep (h : manager.Sound) (env : Environment) {call : ApplyCall}
    (howner : manager.owner = some (.apply call)) (current : Int) :
    (manager.applyStep env call current).Ensures Manager.Sound := by
  have hsound := h.phased.owner _ howner
  obtain ⟨revision, resources, now, stage⟩ := call
  cases stage with
  | locked =>
    simp only [Manager.applyStep]
    split
    · exact h.with_owner trivial
    · rename_i hnone
      exact h.with_owner (fresh_of_precondition h.phased hnone)
  | checked =>
    refine perform_ensures h.consistent ?_
    intro world hstep hconsistent
    have hquiet := h.quiet rfl hstep hconsistent
    split
    · exact hquiet.with_owner trivial
    · exact hquiet.with_owner hsound
  | allowed =>
    obtain ⟨world, result, hcall, hconsistent⟩ :=
      h.consistent.prepareCall env.platform resources
    have hstep : manager.world.step env.platform (.prepare resources) = .next world := by
      simp only [World.step, World.prepare, hcall]
    have hquiet := h.quiet rfl hstep hconsistent
    simp only [Manager.applyStep, hcall]
    cases result with
    | error cause => exact hquiet.with_owner trivial
    | ok candidate => exact hquiet.with_owner hsound
  | building candidate =>
    simp only [Manager.applyStep]
    split
    · trivial
    refine h.with_owner ?_
    unfold afterBuild
    split
    · trivial
    · split_ifs with hrevision
      · exact ⟨hsound, hrevision⟩
      · trivial
  | committing candidate snapshot => exact h.commit hsound.1 hsound.2
  | counting candidate snapshot set =>
    obtain ⟨hfresh, hrevision, hphase, hunused⟩ := hsound
    refine perform_ensures h.consistent ?_
    intro world hstep hconsistent
    obtain ⟨refs, holders, hlook, hturns⟩ := Upstream.look_countCommitted hstep
    refine ⟨hconsistent, h.phased.turn hturns.phaseAt (fun _ _ => by simp)
      (fun snapshot _ => hunused snapshot) (by simp [hphase]) ⟨hfresh, hrevision, ?_, hunused⟩,
      h.held.of_turns hturns hlook rfl⟩
    rw [hturns.phaseAt, if_pos rfl]
  | publishing candidate snapshot set =>
    exact h.publish hsound.1 hsound.2.1 hsound.2.2.1 hsound.2.2.2
  | retiring candidate old stage =>
    refine h.retireStep env current hsound.1 hsound.2 ?_
    intro result phase hresult
    cases result with
    | none => trivial
    | some next => exact ⟨hresult next rfl, hsound.2⟩
  | finishing candidate result =>
    refine perform_ensures h.consistent ?_
    intro world hstep hconsistent
    have hquiet := h.quiet rfl hstep hconsistent
    split_ifs <;> exact hquiet.with_owner trivial
  | releasing candidate result =>
    refine perform_ensures h.consistent ?_
    intro world hstep hconsistent
    exact (h.quiet rfl hstep hconsistent).with_owner trivial
  | returning result =>
    refine ⟨h.consistent, ?_, ⟨h.held.leased, h.held.holders⟩⟩
    exact h.phased.unowned

/-! ## Close -/

/-- The swap of `Close`; the manager is closed by then. -/
theorem Manager.Sound.unpublish (h : manager.Sound) (hclosed : manager.closed = true)
    {owner : Owner}
    (howner : owner.Sound { manager with active := none, history := manager.history ++ [none] }
      manager.world.phaseAt) :
    ({ manager with
      active := none
      history := manager.history ++ [none]
      owner := some owner } : Manager).Sound := by
  refine ⟨h.consistent, ⟨h.phased.committed, h.phased.distinct, ?_, ?_, ?_, h.phased.revisions,
    ?_, ?_, ?_⟩, ⟨h.held.leased, h.held.holders⟩⟩
  · intro snapshot hnone
    exact nomatch hnone
  · intro snapshot hnone
    exact nomatch hnone
  · intro _
    exact Or.inr hclosed
  · simp
  · intro call hcall
    exact (h.phased.calls call hcall).mono _ (fun _ _ => id) fun _ => id
  · intro found hfound
    cases hfound
    exact howner

theorem Manager.Sound.closeStep (h : manager.Sound) (env : Environment)
    {stage : CloseStage} (howner : manager.owner = some (.close stage)) (current : Int) :
    (manager.closeStep env stage current).Ensures Manager.Sound := by
  have hsound := h.phased.owner _ howner
  cases stage with
  | locked =>
    refine ⟨h.consistent, ⟨h.phased.committed, h.phased.distinct, h.phased.active,
      h.phased.newest, fun _ => Or.inr rfl, h.phased.revisions, h.phased.current,
      h.phased.calls, ?_⟩, ⟨h.held.leased, h.held.holders⟩⟩
    intro owner hfound
    cases hfound
    rfl
  | swapping =>
    refine h.unpublish hsound ?_
    cases hold : manager.active.bind manager.plansOf with
    | none => exact hsound
    | some old =>
      obtain ⟨previous, hprevious, hplans⟩ := Option.bind_eq_some_iff.mp hold
      obtain ⟨found, hfound, hactive⟩ := h.phased.active previous hprevious
      obtain rfl := Option.some.inj (hplans.symm.trans hfound)
      exact ⟨hsound, hactive, rfl⟩
  | retiring old stage =>
    obtain ⟨hclosed, hphase, hnone⟩ := hsound
    refine h.retireStep env current hphase ?_ ?_
    · intro snapshot hsnapshot
      rw [hnone] at hsnapshot
      contradiction
    · intro result phase hresult
      cases result with
      | none => exact hclosed
      | some next => exact ⟨hclosed, hresult next rfl, hnone⟩
  | unlocking => exact ⟨h.consistent, h.phased.unowned, ⟨h.held.leased, h.held.holders⟩⟩

end GGateway.Runtime
