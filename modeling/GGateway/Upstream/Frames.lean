import GGateway.Upstream.Lifecycle

/-!
# What a step does to the plan sets

The phase, the count and the holders of each plan set, before and after a step.
Preparing, rolling back, reaping and tunnels leave all of them alone; every other
step changes one plan set or appends one.
-/

namespace GGateway.Upstream

open Text Model Library Library.RefTable Library.Transition

/-- What other threads can see of a plan set. -/
structure PlanSetView where
  phase : PlanSetPhase
  refs : Int
  holders : Nat
  deriving DecidableEq

def PlanSet.view (set : PlanSet) : PlanSetView :=
  ⟨set.phase, set.refs, set.holders⟩

def World.look (world : World) (index : Nat) : Option PlanSetView :=
  (world.sets[index]?).map PlanSet.view

variable {world next : World} {index : Nat} {view : PlanSetView} {platform : Platform}

theorem look_eq_some_iff :
    world.look index = some view ↔ ∃ set, world.sets[index]? = some set ∧ set.view = view :=
  Option.map_eq_some_iff

theorem look_set {set changed : PlanSet} (hset : world.sets[index]? = some set) (other : Nat) :
    ((world.sets.set index changed)[other]?).map PlanSet.view =
      if other = index then some changed.view else world.look other := by
  have hlt : index < world.sets.length := (List.getElem?_eq_some_iff.mp hset).1
  by_cases hother : other = index
  · subst hother
    rw [if_pos rfl, List.getElem?_set_self hlt]
    rfl
  · rw [if_neg hother, List.getElem?_set_ne (Ne.symm hother)]
    rfl

theorem look_concat (sets : List PlanSet) (added : PlanSet) (index : Nat) :
    ((sets ++ [added])[index]?).map PlanSet.view =
      if index = sets.length then some added.view else (sets[index]?).map PlanSet.view := by
  rcases lt_trichotomy index sets.length with hlt | rfl | hgt
  · rw [if_neg hlt.ne, List.getElem?_append_left hlt]
  · rw [if_pos rfl, List.getElem?_concat_length]
    rfl
  · rw [if_neg hgt.ne', List.getElem?_eq_none (by simp; omega), List.getElem?_eq_none hgt.le]

/-- Steps that no plan set notices. -/
def Action.quiet : Action → Bool
  | .prepareAllowed | .prepare _ | .rollback _ | .rollbackRelease _ | .releaseLoad _ => true
  | .ownerLoad _ | .reapNow _ | .acquireTunnelLease _ _ | .releaseLease _ => true
  | .releaseLeaseLocked _ | .close | .deliver _ => true
  | .commit _ | .countCommitted _ | .tryAcquire _ _ | .releaseSwap _ _ | .retire _ => false
  | .registerRetired _ | .ownerSwap _ _ => false

/-- Steps that only count references to plan sets. -/
def Action.counting : Action → Bool
  | .tryAcquire _ _ | .releaseLoad _ | .releaseSwap _ _ => true
  | _ => false

theorem look_finalizeAll {indices : List Nat} {cleanup total : CleanupStats}
    (h : World.finalizeAll indices world cleanup = some (next, total)) (index : Nat) :
    next.look index = world.look index := by
  induction indices generalizing world cleanup with
  | nil =>
    cases h
    rfl
  | cons first rest ih =>
    simp only [World.finalizeAll] at h
    split at h
    · contradiction
    rename_i set hset
    split at h
    · contradiction
    rw [ih h]
    show ((world.sets.set first _)[index]?).map PlanSet.view = _
    rw [look_set hset]
    by_cases hindex : index = first
    · rw [if_pos hindex, World.look, hindex, hset]
      rfl
    · rw [if_neg hindex]

theorem look_reapNow {drained : List Nat} (h : world.reapNow drained = .next next) (index : Nat) :
    next.look index = world.look index := by
  unfold World.reapNow at h
  split_ifs at h
  dsimp only at h
  split at h
  · contradiction
  rename_i reaped cleanup hreaped
  have hlook := look_finalizeAll hreaped index
  split_ifs at h
  · cases h
    exact hlook
  · cases h
    exact hlook

theorem sets_prepareCall {resources : ResourceSet} {result : Except PrepareError Nat}
    (h : world.prepareCall platform resources = some (next, result)) : next.sets = world.sets := by
  unfold World.prepareCall at h
  repeat' split at h
  all_goals first
    | contradiction
    | obtain ⟨rfl, _⟩ := Prod.mk.inj (Option.some.inj h)
      rfl

/-- Apart from the reaper, a quiet step does not touch the list at all. -/
theorem sets_of_quiet {action : Action} (hquiet : action.quiet = true)
    (hreap : ∀ drained, action ≠ .reapNow drained) (h : world.step platform action = .next next) :
    next.sets = world.sets := by
  cases action with
  | commit | countCommitted | tryAcquire | releaseSwap | retire | registerRetired | ownerSwap =>
    contradiction
  | reapNow drained => exact absurd rfl (hreap drained)
  | prepare resources =>
    simp only [World.step, World.prepare] at h
    split at h
    · contradiction
    rename_i reached result hreached
    cases h
    exact sets_prepareCall hreached
  | prepareAllowed | rollback | rollbackRelease | releaseLoad | ownerLoad | acquireTunnelLease
  | releaseLease | releaseLeaseLocked | close | deliver =>
    simp only [World.step, World.prepareAllowed, World.rollback, World.rollbackRelease,
      World.releaseLoad, World.ownerLoad, World.acquireTunnelLease, World.releaseLease,
      World.releaseLeaseLocked] at h
    repeat' split at h
    all_goals first | contradiction | (obtain rfl := Outcome.next.inj h; rfl)

theorem look_of_quiet {action : Action} (hquiet : action.quiet = true)
    (h : world.step platform action = .next next) (index : Nat) :
    next.look index = world.look index := by
  by_cases hreap : ∃ drained, action = .reapNow drained
  · obtain ⟨drained, rfl⟩ := hreap
    exact look_reapNow h index
  · have hsets := sets_of_quiet hquiet (fun drained heq => hreap ⟨drained, heq⟩) h
    rw [World.look, World.look, hsets]

/-! ## Steps that a plan set notices -/

/-- The view of one plan set is replaced. -/
def World.Turns (world next : World) (index : Nat) (view : PlanSetView) : Prop :=
  ∀ other, next.look other = if other = index then some view else world.look other

theorem look_commit {candidate : Nat} (h : world.step platform (.commit candidate) = .next next) :
    ∃ found, world.candidates[candidate]? = some found ∧
      (found.done = true ∧ next = world ∨
        found.done = false ∧ world.Turns next world.sets.length ⟨.committing, 1, 0⟩) := by
  simp only [World.step, World.commit] at h
  split at h
  · contradiction
  rename_i found hfound
  refine ⟨found, hfound, ?_⟩
  split_ifs at h with hdone
  · exact Or.inl ⟨hdone, (Outcome.next.inj h).symm⟩
  refine Or.inr ⟨by simpa using hdone, ?_⟩
  cases h
  exact look_concat world.sets _

theorem look_countCommitted (h : world.step platform (.countCommitted index) = .next next) :
    ∃ refs holders, world.look index = some ⟨.committing, refs, holders⟩ ∧
      world.Turns next index ⟨.active, refs, holders⟩ := by
  simp only [World.step, World.countCommitted] at h
  split at h
  · contradiction
  rename_i set hset
  split_ifs at h with hphase
  cases h
  refine ⟨set.refs, set.holders, ?_, look_set hset⟩
  rw [World.look, hset, ← hphase]
  rfl

/-- The compare-and-swap of `TryAcquire` succeeds or changes nothing. -/
theorem look_tryAcquire {current : Int}
    (h : world.step platform (.tryAcquire index current) = .next next) :
    ∃ view, world.look index = some view ∧ view.phase ≠ .committing ∧ 0 < current ∧
      (view.refs = current ∧
          world.Turns next index ⟨view.phase, view.refs + 1, view.holders + 1⟩ ∨
        view.refs ≠ current ∧ next = world) := by
  simp only [World.step, World.tryAcquire] at h
  split at h
  · contradiction
  rename_i set hset
  split_ifs at h with hblocked hrefs
  · rw [not_or] at hblocked
    cases h
    refine ⟨set.view, by rw [World.look, hset]; rfl, hblocked.1, by omega, Or.inl ⟨hrefs, ?_⟩⟩
    subst hrefs
    exact look_set hset
  · rw [not_or] at hblocked
    exact ⟨set.view, by rw [World.look, hset]; rfl, hblocked.1, by omega,
      Or.inr ⟨hrefs, (Outcome.next.inj h).symm⟩⟩

theorem look_releaseSwap {current : Int}
    (h : world.step platform (.releaseSwap index current) = .next next) :
    ∃ view, world.look index = some view ∧ view.holders ≠ 0 ∧ 0 < current ∧
      (view.refs = current ∧
          world.Turns next index ⟨view.phase, view.refs - 1, view.holders - 1⟩ ∨
        view.refs ≠ current ∧ next = world) := by
  simp only [World.step, World.releaseSwap] at h
  split at h
  · contradiction
  rename_i set hset
  split_ifs at h with hblocked hrefs
  · rw [not_or] at hblocked
    cases h
    refine ⟨set.view, by rw [World.look, hset]; rfl, hblocked.1, by omega, Or.inl ⟨hrefs, ?_⟩⟩
    subst hrefs
    exact look_set hset
  · rw [not_or] at hblocked
    exact ⟨set.view, by rw [World.look, hset]; rfl, hblocked.1, by omega,
      Or.inr ⟨hrefs, (Outcome.next.inj h).symm⟩⟩

theorem look_retire (h : world.step platform (.retire index) = .next next) :
    ∃ set, world.sets[index]? = some set ∧ set.phase ≠ .committing ∧
      (set.retired = true ∧ next = world ∨ set.retired = false ∧
        world.Turns next index ⟨.retiring, set.refs, set.holders⟩) := by
  simp only [World.step, World.retire] at h
  split at h
  · contradiction
  rename_i set hset
  split_ifs at h with hphase hretired
  · exact ⟨set, hset, hphase, Or.inl ⟨hretired, (Outcome.next.inj h).symm⟩⟩
  · cases h
    exact ⟨set, hset, hphase, Or.inr ⟨by simpa using hretired, look_set hset⟩⟩

theorem look_registerRetired (h : world.step platform (.registerRetired index) = .next next) :
    ∃ refs holders, world.look index = some ⟨.retiring, refs, holders⟩ ∧
      world.Turns next index ⟨.registered, refs, holders⟩ := by
  simp only [World.step, World.registerRetired] at h
  split at h
  · contradiction
  rename_i set hset
  split_ifs at h with hphase hactive
  cases h
  refine ⟨set.refs, set.holders, ?_, look_set hset⟩
  rw [World.look, hset, ← hphase]
  rfl

theorem look_ownerSwap {current : Int}
    (h : world.step platform (.ownerSwap index current) = .next next) :
    ∃ refs holders, world.look index = some ⟨.registered, refs, holders⟩ ∧ 0 < current ∧
      (refs = current ∧ world.Turns next index ⟨.released, refs - 1, holders⟩ ∨
        refs ≠ current ∧ next = world) := by
  simp only [World.step, World.ownerSwap] at h
  split at h
  · contradiction
  rename_i set hset
  split_ifs at h with hphase hrefs
  · cases h
    refine ⟨set.refs, set.holders, ?_, hphase.2, Or.inl ⟨hrefs, ?_⟩⟩
    · rw [World.look, hset, ← hphase.1]
      rfl
    · subst hrefs
      exact look_set hset
  · refine ⟨set.refs, set.holders, ?_, hphase.2, Or.inr ⟨hrefs, (Outcome.next.inj h).symm⟩⟩
    rw [World.look, hset, ← hphase.1]
    rfl

/-! ## What never comes back -/

def World.phaseAt (world : World) (index : Nat) : Option PlanSetPhase :=
  (world.look index).map PlanSetView.phase

def World.holdersAt (world : World) (index : Nat) : Option Nat :=
  (world.look index).map PlanSetView.holders

theorem World.Turns.phaseAt (h : world.Turns next index view) (other : Nat) :
    next.phaseAt other = if other = index then some view.phase else world.phaseAt other := by
  rw [World.phaseAt, h other]
  split_ifs <;> rfl

theorem World.Turns.holdersAt (h : world.Turns next index view) (other : Nat) :
    next.holdersAt other = if other = index then some view.holders else world.holdersAt other := by
  rw [World.holdersAt, h other]
  split_ifs <;> rfl

theorem phaseAt_of_turns {before : PlanSetView} (h : world.Turns next index view)
    (hbefore : world.look index = some before) (hsame : view.phase = before.phase) :
    next.phaseAt = world.phaseAt := by
  ext1 other
  rw [h.phaseAt other]
  by_cases hother : other = index
  · rw [if_pos hother, hsame, World.phaseAt, hother, hbefore]
    rfl
  · rw [if_neg hother]

theorem phaseAt_length (world : World) : world.phaseAt world.sets.length = none := by
  simp [World.phaseAt, World.look]

/-- A count that reached zero stays there. -/
def PlanSetView.Follows (before after : PlanSetView) : Prop :=
  before.refs ≤ 0 → after.refs ≤ 0

theorem World.Turns.follows {other : Nat} {before : PlanSetView} (h : world.Turns next index view)
    (hbefore : world.look other = some before) (hfollows : other = index → before.Follows view) :
    ∃ after, next.look other = some after ∧ before.Follows after := by
  rw [h other]
  by_cases hother : other = index
  · exact ⟨view, if_pos hother, hfollows hother⟩
  · exact ⟨before, by rw [if_neg hother, hbefore], id⟩

/-- No step raises a count from zero. -/
theorem look_follows {action : Action} (h : world.step platform action = .next next)
    {before : PlanSetView} (hbefore : world.look index = some before) :
    ∃ after, next.look index = some after ∧ before.Follows after := by
  by_cases hquiet : action.quiet = true
  · exact ⟨before, by rw [look_of_quiet hquiet h, hbefore], id⟩
  have hsame : ∀ {view : PlanSetView} {other : Nat}, world.look other = some view →
      index = other → before = view := by
    intro view other hview hindex
    subst hindex
    exact Option.some.inj (hbefore.symm.trans hview)
  cases action with
  | prepareAllowed | prepare | rollback | rollbackRelease | releaseLoad | ownerLoad | reapNow
    | acquireTunnelLease | releaseLease | releaseLeaseLocked | close | deliver =>
      exact absurd rfl hquiet
  | commit candidate =>
    obtain ⟨found, _, ⟨_, rfl⟩ | ⟨_, hturns⟩⟩ := look_commit h
    · exact ⟨before, hbefore, id⟩
    refine hturns.follows hbefore ?_
    intro hindex
    have hnone := phaseAt_length world
    rw [World.phaseAt, ← hindex, hbefore] at hnone
    contradiction
  | countCommitted set =>
    obtain ⟨refs, holders, hview, hturns⟩ := look_countCommitted h
    refine hturns.follows hbefore fun hindex => ?_
    rw [hsame hview hindex]
    exact id
  | tryAcquire set current =>
    obtain ⟨view, hview, _, hpos, ⟨hrefs, hturns⟩ | ⟨_, rfl⟩⟩ := look_tryAcquire h
    · refine hturns.follows hbefore fun hindex hzero => ?_
      rw [hsame hview hindex] at hzero
      omega
    · exact ⟨before, hbefore, id⟩
  | releaseSwap set current =>
    obtain ⟨view, hview, _, hpos, ⟨hrefs, hturns⟩ | ⟨_, rfl⟩⟩ := look_releaseSwap h
    · refine hturns.follows hbefore fun hindex hzero => ?_
      rw [hsame hview hindex] at hzero
      omega
    · exact ⟨before, hbefore, id⟩
  | retire set =>
    obtain ⟨found, hfound, _, ⟨_, rfl⟩ | ⟨_, hturns⟩⟩ := look_retire h
    · exact ⟨before, hbefore, id⟩
    refine hturns.follows hbefore fun hindex => ?_
    rw [hsame (look_eq_some_iff.mpr ⟨found, hfound, rfl⟩) hindex]
    exact id
  | registerRetired set =>
    obtain ⟨refs, holders, hview, hturns⟩ := look_registerRetired h
    refine hturns.follows hbefore fun hindex => ?_
    rw [hsame hview hindex]
    exact id
  | ownerSwap set current =>
    obtain ⟨refs, holders, hview, hpos, ⟨hrefs, hturns⟩ | ⟨_, rfl⟩⟩ := look_ownerSwap h
    · refine hturns.follows hbefore fun hindex hzero => ?_
      rw [hsame hview hindex] at hzero
      dsimp only at hzero
      omega
    · exact ⟨before, hbefore, id⟩

end GGateway.Upstream
