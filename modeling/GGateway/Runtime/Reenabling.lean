import GGateway.Runtime.Publication
import GGateway.Upstream.Trackers

/-!
# Endpoints that are enabled again

An endpoint of weight zero has no tracker, and one that is enabled again should start
with a new one.  But a tracker lives as long as any plan set that owns it, retired ones
included, and `Prepare` takes the tracker that it finds under the key.

* `Watched` adds to the manager the states of all trackers, and what the last `Prepare`
  found: the counter of generations and the health keys that somebody owned.
* `Manager.Upcoming` speaks about the plans of the snapshot that `Apply` is about to
  publish, from `Prepare` to the swap of the active pointer.
* `Watched.Sound` is the invariant.  Requests and probes reach a tracker only through a
  published snapshot, and `Retire` only one that is not registered any more, so that
  nobody touches a new tracker of the upcoming plans.
-/

set_option linter.dupNamespace false

namespace GGateway.Runtime

open Text Model Library.RefTable Library.Transition
open GGateway.Upstream (Plan Platform World Panic HealthRuntime HealthKey Registry Trackers
  Observation newEndpointHealth trackersOf mem_trackersOf Distinguishes normalize makeHealthKey
  servedEndpoints)

/-! ## The system -/

/-- The manager with the states of the trackers.  While `Apply` is about to prepare,
`since` and `held` follow the registry, so that they are what `Prepare` has found. -/
structure Watched where
  manager : Manager
  trackers : Trackers
  since : Nat
  held : Multiset HealthKey

def Watched.initial (maxRetiredSnapshots : Nat) : Watched :=
  ⟨Manager.initial maxRetiredSnapshots, fun tracker => newEndpointHealth tracker.policy, 0, 0⟩

inductive WatchedAction where
  | manager (action : Action)
  | observe (tracker : HealthRuntime) (observation : Observation)
  | retire (tracker : HealthRuntime)

/-- The trackers that requests and probes can reach: those of published snapshots. -/
def Manager.exposed (manager : Manager) : List HealthRuntime :=
  manager.snapshots.flatMap fun published =>
    match manager.world.sets[published.plans]? with
    | none => []
    | some set => trackersOf set.plans

/-- The tracker was made and is not registered any more. -/
def Dropped (registry : Registry) (tracker : HealthRuntime) : Prop :=
  tracker.generation ≤ registry.generation ∧
    ∀ key ∈ registry.health.keys, runtime? registry.health key ≠ some tracker

instance (registry : Registry) (tracker : HealthRuntime) : Decidable (Dropped registry tracker) :=
  inferInstanceAs (Decidable (_ ∧ _))

/-- The next step of `Apply` is the critical section of `Prepare`. -/
def Manager.preparing (manager : Manager) : Bool :=
  match manager.owner with
  | some (.apply call) =>
    match call.stage with
    | .allowed => true
    | _ => false
  | _ => false

def Watched.withTracker (watched : Watched) (tracker : HealthRuntime)
    (health : Upstream.EndpointHealth) : Watched :=
  { watched with trackers := Function.update watched.trackers tracker health }

/-- A step of the manager, an observation, or a retirement, which in the source happens
while the tracker is taken out of the table. -/
def Watched.step (env : Environment) (watched : Watched) :
    WatchedAction → Outcome Panic Watched
  | .manager action =>
    match watched.manager.step env action with
    | .blocked => .blocked
    | .panicked cause => .panicked cause
    | .next manager =>
      if watched.manager.preparing then
        .next ⟨manager, watched.trackers, watched.manager.world.registry.generation,
          watched.manager.world.holdings .health⟩
      else .next { watched with manager := manager }
  | .observe tracker observation =>
    if tracker ∈ watched.manager.exposed then
      .next (watched.withTracker tracker ((watched.trackers tracker).observe observation))
    else .blocked
  | .retire tracker =>
    if Dropped watched.manager.world.registry tracker then
      .next (watched.withTracker tracker (watched.trackers tracker).retire)
    else .blocked

def Watched.Reachable (env : Environment) (maxRetiredSnapshots : Nat)
    (watched : Watched) : Prop :=
  Runs (Watched.step env) (Watched.initial maxRetiredSnapshots) watched

/-! ## The plans that are about to be published -/

/-- `P` holds for the plans that a call of `Apply` is about to publish, if there are any:
first those of its candidate, then those of its plan set. -/
def ApplyStage.Upcoming (world : World) (P : List (Bytes × Plan) → Prop) : ApplyStage → Prop
  | .building index | .committing index _ =>
    ∃ candidate, world.candidates[index]? = some candidate ∧ candidate.phase = .prepared ∧
      P candidate.plans
  | .counting _ _ index | .publishing _ _ index =>
    ∃ set, world.sets[index]? = some set ∧ P set.plans
  | .locked | .checked | .allowed | .retiring _ _ _ | .finishing _ _ | .releasing _ _
  | .returning _ => True

def Manager.Upcoming (manager : Manager) (P : ResourceSet → List (Bytes × Plan) → Prop) : Prop :=
  ∀ call, manager.owner = some (.apply call) → call.stage.Upcoming manager.world (P call.resources)

theorem ApplyStage.Upcoming.mono {world : World} {P Q : List (Bytes × Plan) → Prop}
    {stage : ApplyStage} (h : stage.Upcoming world P) (hmono : ∀ plans, P plans → Q plans) :
    stage.Upcoming world Q := by
  cases stage with
  | building index | committing index snapshot =>
    obtain ⟨candidate, hcandidate, hphase, hplans⟩ := h
    exact ⟨candidate, hcandidate, hphase, hmono _ hplans⟩
  | counting candidate snapshot index | publishing candidate snapshot index =>
    obtain ⟨set, hset, hplans⟩ := h
    exact ⟨set, hset, hmono _ hplans⟩
  | locked | checked | allowed | retiring | finishing | releasing | returning => trivial

/-- A step of the registry beside the call keeps its plans. -/
theorem ApplyStage.Upcoming.beside {world next : World} {P : List (Bytes × Plan) → Prop}
    {stage : ApplyStage} (h : stage.Upcoming world P) (hframe : world.Frame next)
    (hcandidates : next.candidates = world.candidates) : stage.Upcoming next P := by
  cases stage with
  | building index | committing index snapshot =>
    obtain ⟨candidate, hcandidate, hphase, hplans⟩ := h
    exact ⟨candidate, hcandidates ▸ hcandidate, hphase, hplans⟩
  | counting candidate snapshot index | publishing candidate snapshot index =>
    obtain ⟨set, hset, hplans⟩ := h
    obtain ⟨found, hfound, hsame⟩ := hframe.set hset
    exact ⟨found, hfound, hsame ▸ hplans⟩
  | locked | checked | allowed | retiring | finishing | releasing | returning => trivial

section Steps

variable {env : Environment} {P : ResourceSet → List (Bytes × Plan) → Prop}
  {manager next : Manager}

/-- The step has published nothing, and `P` holds for the plans to come. -/
def Manager.Keeps (manager next : Manager) (P : ResourceSet → List (Bytes × Plan) → Prop) : Prop :=
  next.Upcoming fun resources plans => next.snapshots = manager.snapshots ∧ P resources plans

/-- A step that does not involve the owner of `applyMu`. -/
theorem keeps_of_beside (h : manager.Upcoming P) (howner : next.owner = manager.owner)
    (hsnapshots : next.snapshots = manager.snapshots) (hframe : manager.world.Frame next.world)
    (hcandidates : next.world.candidates = manager.world.candidates) : manager.Keeps next P := by
  intro call hcall
  have hupcoming := (h call (howner ▸ hcall)).beside hframe hcandidates
  exact hupcoming.mono fun plans hplans => ⟨hsnapshots, hplans⟩

theorem keeps_of_stage {call : ApplyCall} (howner : next.owner = some (.apply call))
    (h : call.stage.Upcoming next.world fun plans =>
      next.snapshots = manager.snapshots ∧ P call.resources plans) : manager.Keeps next P := by
  intro found hfound
  obtain rfl : call = found := Owner.apply.inj (Option.some.inj (howner.symm.trans hfound))
  exact h

theorem keeps_of_perform (hsound : manager.Sound) (h : manager.Upcoming P)
    {action : Upstream.Action} {after : World → Manager}
    (hstep : manager.perform env action after = .next next)
    (haction : action.onCandidates = false)
    (howner : ∀ world, (after world).owner = manager.owner)
    (hsnapshots : ∀ world, (after world).snapshots = manager.snapshots)
    (hworld : ∀ world, (after world).world = world) : manager.Keeps next P := by
  obtain ⟨world, hworldStep, rfl⟩ := perform_next hstep
  refine keeps_of_beside h (howner world) (hsnapshots world) ?_ ?_
  · rw [hworld]
    exact Upstream.frame_step hsound.consistent hworldStep
  · rw [hworld]
    exact Upstream.candidates_of_step haction hworldStep

/-- Where `Retire` goes on there are no plans to come. -/
theorem keeps_of_resumed {resume : Option RetireStage → Owner}
    (hresume : ∀ result call, resume result = .apply call → ∀ world Q,
      call.stage.Upcoming world Q) {result : Option RetireStage}
    (howner : next.owner = some (resume result)) : manager.Keeps next P := by
  intro call hcall
  exact hresume result call (Option.some.inj (howner.symm.trans hcall)) _ _

theorem keeps_retireStep (hsound : manager.Sound) (h : manager.Upcoming P) {old : Nat}
    {stage : RetireStage} {current : Int} {resume : Option RetireStage → Owner}
    (hstep : manager.retireStep env old stage current resume = .next next)
    (hresume : ∀ result call, resume result = .apply call → ∀ world Q,
      call.stage.Upcoming world Q) : manager.Keeps next P := by
  cases stage with
  | start =>
    obtain ⟨world, _, rfl⟩ := perform_next hstep
    exact keeps_of_resumed hresume rfl
  | register =>
    obtain ⟨world, _, rfl⟩ := perform_next hstep
    exact keeps_of_resumed hresume rfl
  | drop =>
    simp only [Manager.retireStep] at hstep
    by_cases hload : current ≤ 0
    · rw [if_pos hload] at hstep
      exact keeps_of_perform hsound h hstep rfl (fun _ => rfl) (fun _ => rfl) fun _ => rfl
    · rw [if_neg hload] at hstep
      obtain ⟨world, _, rfl⟩ := perform_next hstep
      exact keeps_of_resumed hresume rfl

/-- A candidate that `Prepare` leaves behind satisfies `P`. -/
def Prepares (env : Environment) (manager : Manager)
    (P : ResourceSet → List (Bytes × Plan) → Prop) : Prop :=
  ∀ call world index, manager.owner = some (.apply call) → call.stage = .allowed →
    manager.world.prepareCall env.platform call.resources = some (world, .ok index) →
    ∃ candidate, world.candidates[index]? = some candidate ∧ candidate.phase = .prepared ∧
      P call.resources candidate.plans

/-- `Commit` of a candidate that is not done makes a plan set with its plans. -/
theorem commit_next {world next : World} {index : Nat} {candidate : Upstream.Candidate}
    (h : world.step env.platform (.commit index) = .next next)
    (hcandidate : world.candidates[index]? = some candidate) (hphase : candidate.phase = .prepared) :
    candidateDone world index = false ∧
      ∃ set, next.sets[world.sets.length]? = some set ∧ set.plans = candidate.plans := by
  have hdone : candidate.done = false := by
    rw [Upstream.Candidate.done, hphase]
    rfl
  simp only [World.step, World.commit, hcandidate, hdone] at h
  cases h
  refine ⟨?_, _, List.getElem?_concat_length, rfl⟩
  rw [candidateDone, hcandidate]
  exact hdone

theorem keeps_applyStep (hsound : manager.Sound) (h : manager.Upcoming P)
    (hprepares : Prepares env manager P) {call : ApplyCall}
    (howner : manager.owner = some (.apply call)) {current : Int}
    (hstep : manager.applyStep env call current = .next next) : manager.Keeps next P := by
  have hcurrent := h call howner
  obtain ⟨revision, resources, now, stage⟩ := call
  cases stage with
  | locked =>
    simp only [Manager.applyStep] at hstep
    split at hstep <;> (obtain rfl := Outcome.next.inj hstep; exact keeps_of_stage rfl trivial)
  | checked =>
    obtain ⟨world, _, rfl⟩ := perform_next hstep
    split <;> exact keeps_of_stage rfl trivial
  | allowed =>
    simp only [Manager.applyStep] at hstep
    split at hstep
    · contradiction
    · cases hstep
      exact keeps_of_stage rfl trivial
    · rename_i world index hcall
      cases hstep
      obtain ⟨candidate, hcandidate, hphase, hplans⟩ := hprepares _ world index howner rfl hcall
      exact keeps_of_stage rfl ⟨candidate, hcandidate, hphase, rfl, hplans⟩
  | building index =>
    obtain ⟨candidate, hcandidate, hphase, hplans⟩ := hcurrent
    simp only [Manager.applyStep, hcandidate] at hstep
    cases hstep
    refine keeps_of_stage rfl ?_
    unfold afterBuild
    split
    · trivial
    · split_ifs
      · exact ⟨candidate, hcandidate, hphase, rfl, hplans⟩
      · trivial
  | committing index snapshot =>
    obtain ⟨candidate, hcandidate, hphase, hplans⟩ := hcurrent
    obtain ⟨world, hworld, rfl⟩ := perform_next hstep
    obtain ⟨hdone, set, hset, hsame⟩ := commit_next hworld hcandidate hphase
    refine keeps_of_stage rfl ?_
    show ApplyStage.Upcoming world _ (if candidateDone manager.world index = true then _ else _)
    rw [hdone]
    exact ⟨set, hset, rfl, hsame ▸ hplans⟩
  | counting candidate snapshot index =>
    obtain ⟨set, hset, hplans⟩ := hcurrent
    obtain ⟨world, hworld, rfl⟩ := perform_next hstep
    obtain ⟨found, hfound, hsame⟩ := (Upstream.frame_step hsound.consistent hworld).set hset
    exact keeps_of_stage rfl ⟨found, hfound, rfl, hsame ▸ hplans⟩
  | publishing candidate snapshot index =>
    cases hstep
    cases hold : manager.active.bind manager.plansOf with
    | none =>
      refine keeps_of_stage (congrArg (some ∘ Manager.publish.retireFrom _ candidate) hold) ?_
      trivial
    | some old =>
      refine keeps_of_stage (congrArg (some ∘ Manager.publish.retireFrom _ candidate) hold) ?_
      trivial
  | retiring candidate old stage =>
    refine keeps_retireStep hsound h hstep fun result call hresult => ?_
    cases result with
    | none =>
      obtain rfl := Owner.apply.inj hresult
      exact fun _ _ => trivial
    | some stage =>
      obtain rfl := Owner.apply.inj hresult
      exact fun _ _ => trivial
  | finishing candidate result =>
    obtain ⟨world, _, rfl⟩ := perform_next hstep
    refine keeps_of_stage rfl ?_
    show ApplyStage.Upcoming world _ (if candidateDone manager.world candidate = true then _ else _)
    split_ifs <;> trivial
  | releasing candidate result =>
    obtain ⟨world, _, rfl⟩ := perform_next hstep
    exact keeps_of_stage rfl trivial
  | returning result =>
    cases hstep
    intro call hcall
    contradiction

theorem keeps_closeStep (hsound : manager.Sound) (h : manager.Upcoming P) {stage : CloseStage}
    {current : Int} (hstep : manager.closeStep env stage current = .next next) :
    manager.Keeps next P := by
  cases stage with
  | locked =>
    cases hstep
    intro call hcall
    exact nomatch Option.some.inj hcall
  | swapping =>
    cases hstep
    intro call hcall
    have howner := Option.some.inj hcall
    split at howner <;> contradiction
  | retiring old stage =>
    refine keeps_retireStep hsound h hstep fun result call hresult => ?_
    cases result <;> contradiction
  | unlocking =>
    cases hstep
    intro call hcall
    contradiction

theorem keeps_step (hsound : manager.Sound) (h : manager.Upcoming P)
    (hprepares : Prepares env manager P) {action : Action}
    (hstep : manager.step env action = .next next) : manager.Keeps next P := by
  cases turn_of_step hstep with
  | lockApply => exact keeps_of_stage rfl trivial
  | lockClose =>
    intro call hcall
    exact nomatch Option.some.inj hcall
  | apply howner happly => exact keeps_applyStep hsound h hprepares howner happly
  | close howner hclose => exact keeps_closeStep hsound h hclose
  | beside hbeside =>
    rcases hbeside.world with hworld | ⟨inner, hinner, hkind⟩
    · refine keeps_of_beside h hbeside.owned.owner hbeside.owned.snapshots ?_ (by rw [hworld])
      rw [hworld]
      exact .refl _
    have hcandidates : inner.onCandidates = false := by
      rcases hkind with hcounting | ⟨_, hallowed⟩
      · cases inner <;> first | rfl | exact absurd hcounting Bool.false_ne_true
      · cases inner <;> first | rfl | exact absurd hallowed Bool.false_ne_true
    exact keeps_of_beside h hbeside.owned.owner hbeside.owned.snapshots
      (Upstream.frame_step hsound.consistent hinner)
      (Upstream.candidates_of_step hcandidates hinner)

end Steps

/-! ## The invariant -/

variable {manager : Manager} {tracker : HealthRuntime} {env : Environment}
  {watched : Watched}

/-- A reachable tracker is one of a published plan set. -/
theorem mem_exposed :
    tracker ∈ manager.exposed ↔ ∃ published ∈ manager.snapshots, ∃ set,
      manager.world.sets[published.plans]? = some set ∧ tracker ∈ trackersOf set.plans := by
  unfold Manager.exposed
  rw [List.mem_flatMap]
  refine exists_congr fun published => and_congr_right fun _ => ?_
  cases manager.world.sets[published.plans]? <;> simp

theorem exposed_made (h : manager.world.Aged) (htracker : tracker ∈ manager.exposed) :
    tracker.generation ≤ manager.world.registry.generation := by
  obtain ⟨published, _, set, hset, hmem⟩ := mem_exposed.mp htracker
  exact h.sets _ (List.mem_map_of_mem (List.mem_of_getElem? hset)) tracker hmem

/-- A step that publishes nothing exposes nothing. -/
theorem exposed_of_step {next : Manager} (hsound : manager.Sound)
    (hframe : manager.world.Frame next.world) (hsnapshots : next.snapshots = manager.snapshots)
    (h : tracker ∈ next.exposed) : tracker ∈ manager.exposed := by
  obtain ⟨published, hpublished, set, hset, hmem⟩ := mem_exposed.mp h
  rw [hsnapshots] at hpublished
  obtain ⟨position, hposition⟩ := List.mem_iff_getElem?.mp hpublished
  have hplans : manager.plansOf position = some published.plans := by
    rw [Manager.plansOf, hposition, Option.map_some]
  -- The set was there before the step, and has kept its plans.
  obtain ⟨phase, hphase, _⟩ := hsound.phased.committed position _ hplans
  obtain ⟨view, hview, _⟩ := Option.map_eq_some_iff.mp hphase
  obtain ⟨before, hbefore, _⟩ := Upstream.look_eq_some_iff.mp hview
  obtain ⟨found, hfound, hsame⟩ := hframe.set hbefore
  obtain rfl : found = set := Option.some.inj (hfound.symm.trans hset)
  exact mem_exposed.mpr ⟨published, hpublished, before, hbefore, hsame ▸ hmem⟩

/-- What is known about the plans to come: which of their trackers are new, that the
new ones are as they were made, and that these are not exposed. -/
structure Watched.Expects (env : Environment) (watched : Watched)
    (resources : ResourceSet) (plans : List (Bytes × Plan)) : Prop where
  distinguishes : ∃ normalized, normalize env.platform resources.upstreams = .ok normalized ∧
    Distinguishes env.platform normalized watched.since watched.held plans
  pristine : ∀ tracker ∈ trackersOf plans, watched.since < tracker.generation →
    watched.trackers tracker = newEndpointHealth tracker.policy
  exposed : ∀ tracker ∈ watched.manager.exposed, tracker.generation ≤ watched.since

structure Watched.Sound (env : Environment) (watched : Watched) : Prop where
  manager : watched.manager.Sound
  aged : watched.manager.world.Aged
  unmade : ∀ tracker, watched.manager.world.registry.generation < tracker.generation →
    watched.trackers tracker = newEndpointHealth tracker.policy
  upcoming : watched.manager.Upcoming (watched.Expects env)

theorem initial_watched_sound (env : Environment) (maxRetiredSnapshots : Nat) :
    (Watched.initial maxRetiredSnapshots).Sound env :=
  ⟨initial_sound maxRetiredSnapshots, Upstream.initial_aged maxRetiredSnapshots,
    fun _ _ => rfl, fun _ hcall => nomatch hcall⟩

/-- The trackers of the plans to come are registered. -/
theorem Manager.Upcoming.registered (hsound : manager.Sound)
    {P : ResourceSet → List (Bytes × Plan) → Prop} (h : manager.Upcoming P) :
    manager.Upcoming fun resources plans => P resources plans ∧
      ∀ tracker ∈ trackersOf plans, ∃ key,
        runtime? manager.world.registry.health key = some tracker := by
  intro call howner
  have hcurrent := h call howner
  have hstage := hsound.phased.owner _ howner
  have hpinned := hsound.consistent.owned.pinned
  obtain ⟨revision, resources, now, stage⟩ := call
  have hregistered : ∀ {plans : List (Bytes × Plan)} {owned : Upstream.ResourceRefs},
      (∀ plan ∈ plans, plan.2.IsPinned manager.world.registry owned) →
      ∀ tracker ∈ trackersOf plans, ∃ key,
        runtime? manager.world.registry.health key = some tracker := by
    intro plans owned hplans tracker htracker
    obtain ⟨entry, hentry, endpoint, hendpoint, hhealth⟩ := mem_trackersOf.mp htracker
    obtain ⟨key, hkey⟩ := ((hplans entry hentry).endpoints endpoint hendpoint).health tracker hhealth
    exact ⟨key, hkey.2⟩
  -- A set that still has its owner reference is not finalized.
  have hlive : ∀ {index : Nat} {set : Upstream.PlanSet} {phase : Upstream.PlanSetPhase},
      manager.world.sets[index]? = some set → manager.world.phaseAt index = some phase →
      phase ≠ .released → set.finalized = false := by
    intro index set phase hset hphase hne
    have hcounted := hsound.consistent.wellCounted hset
    rw [World.phaseAt, World.look, hset] at hphase
    obtain rfl : set.phase = phase := Option.some.inj hphase
    cases hfinal : set.finalized with
    | false => rfl
    | true => exact absurd (hcounted.finalized hfinal).1 hne
  cases stage with
  | building index | committing index snapshot =>
    obtain ⟨candidate, hcandidate, hphase, hplans⟩ := hcurrent
    exact ⟨candidate, hcandidate, hphase, hplans, hregistered
      (hpinned.candidates candidate (List.mem_of_getElem? hcandidate) (by simp [hphase]))⟩
  | counting candidate snapshot index =>
    obtain ⟨set, hset, hplans⟩ := hcurrent
    exact ⟨set, hset, hplans, hregistered (hpinned.sets set (List.mem_of_getElem? hset)
      (hlive hset hstage.2.2.1 (by simp)))⟩
  | publishing candidate snapshot index =>
    obtain ⟨set, hset, hplans⟩ := hcurrent
    exact ⟨set, hset, hplans, hregistered (hpinned.sets set (List.mem_of_getElem? hset)
      (hlive hset hstage.2.2.1 (by simp)))⟩
  | locked | checked | allowed | retiring | finishing | releasing | returning => trivial

theorem Manager.Upcoming.mono {P Q : ResourceSet → List (Bytes × Plan) → Prop}
    (h : manager.Upcoming P) (hmono : ∀ resources plans, P resources plans → Q resources plans) :
    manager.Upcoming Q :=
  fun call hcall => (h call hcall).mono (hmono call.resources)

/-- A change of one tracker that was made and is none of the new ones to come. -/
theorem Watched.Sound.withTracker (h : watched.Sound env)
    (health : Upstream.EndpointHealth)
    (hmade : tracker.generation ≤ watched.manager.world.registry.generation)
    (hold : watched.manager.Upcoming fun resources plans =>
      watched.Expects env resources plans ∧
        ∀ other ∈ trackersOf plans, watched.since < other.generation → other ≠ tracker) :
    (watched.withTracker tracker health).Sound env := by
  refine ⟨h.manager, h.aged, fun other hother => ?_, hold.mono fun resources plans hplans => ?_⟩
  · have hne : other ≠ tracker := by
      rintro rfl
      exact absurd hmade (not_le.mpr hother)
    exact (Function.update_of_ne hne _ _).trans (h.unmade other hother)
  · obtain ⟨hexpects, hother⟩ := hplans
    refine ⟨hexpects.distinguishes, fun other hmem hnew => ?_, hexpects.exposed⟩
    exact (Function.update_of_ne (hother other hmem hnew) _ _).trans
      (hexpects.pristine other hmem hnew)

theorem world_frame_of_moves {next : Manager} (hsound : manager.Sound)
    (h : manager.Moves env next) : manager.world.Frame next.world := by
  rcases h.world with hsame | ⟨action, haction⟩
  · rw [hsame]
    exact .refl _
  · exact Upstream.frame_step hsound.consistent haction

/-- The candidate that `Prepare` leaves is as expected. -/
theorem Watched.Sound.prepares (h : watched.Sound env) :
    Prepares env watched.manager (Watched.Expects env
      { watched with
        since := watched.manager.world.registry.generation
        held := watched.manager.world.holdings .health }) := by
  intro call world index howner hstage hcall
  obtain ⟨_, hprepared⟩ := Upstream.prepareCall_frame h.manager.consistent hcall
  obtain ⟨normalized, candidate, hnormalized, hcandidate, hphase, hdistinguishes⟩ :=
    hprepared index rfl
  refine ⟨candidate, hcandidate, hphase, ⟨normalized, hnormalized, hdistinguishes h.aged.registry⟩,
    fun tracker _ hnew => h.unmade tracker hnew, fun tracker => exposed_made h.aged⟩

theorem Watched.Sound.manager_step (h : watched.Sound env) {action : Action}
    (hstep : watched.manager.step env action = .next manager) {since : Nat}
    {held : Multiset HealthKey}
    (hkeeps : watched.manager.Keeps manager (Watched.Expects env
      ⟨watched.manager, watched.trackers, since, held⟩)) :
    Watched.Sound env ⟨manager, watched.trackers, since, held⟩ := by
  have hsound := h.manager.step env action
  rw [hstep] at hsound
  have hframe := world_frame_of_moves h.manager (moves_step hstep)
  refine ⟨hsound, hframe.aged h.aged, fun tracker htracker => ?_, hkeeps.mono ?_⟩
  · exact h.unmade tracker (hframe.ages.generation.trans_lt htracker)
  · intro resources plans ⟨hsnapshots, hexpects⟩
    exact ⟨hexpects.distinguishes, hexpects.pristine, fun tracker htracker =>
      hexpects.exposed tracker (exposed_of_step h.manager hframe hsnapshots htracker)⟩

theorem Watched.Sound.step {next : Watched} (h : watched.Sound env)
    {action : WatchedAction} (hstep : watched.step env action = .next next) :
    next.Sound env := by
  cases action with
  | manager action =>
    simp only [Watched.step] at hstep
    split at hstep
    · contradiction
    · contradiction
    · rename_i manager hmanager
      split_ifs at hstep with hpreparing
      · cases hstep
        refine h.manager_step hmanager (keeps_step h.manager ?_ h.prepares hmanager)
        -- Before `Prepare` there are no plans to come.
        intro call howner
        simp only [Manager.preparing, howner] at hpreparing
        split at hpreparing
        · rename_i hstage
          rw [hstage]
          trivial
        · contradiction
      · cases hstep
        refine h.manager_step hmanager (keeps_step h.manager h.upcoming ?_ hmanager)
        intro call world index howner hstage _
        simp [Manager.preparing, howner, hstage] at hpreparing
  | observe tracker observation =>
    simp only [Watched.step] at hstep
    split_ifs at hstep with hexposed
    cases hstep
    refine h.withTracker _ (exposed_made h.aged hexposed) (h.upcoming.mono ?_)
    intro resources plans hexpects
    refine ⟨hexpects, fun other _ hnew => ?_⟩
    rintro rfl
    exact absurd (hexpects.exposed other hexposed) (not_le.mpr hnew)
  | retire tracker =>
    simp only [Watched.step] at hstep
    split_ifs at hstep with hdropped
    cases hstep
    refine h.withTracker _ hdropped.1 ((h.upcoming.registered h.manager).mono ?_)
    rintro resources plans ⟨hexpects, hregistered⟩
    refine ⟨hexpects, fun other hother _ => ?_⟩
    rintro rfl
    obtain ⟨key, hkey⟩ := hregistered other hother
    exact hdropped.2 key (mem_keys_of_runtime hkey) hkey

/-! ## When an endpoint starts anew -/

/-- When a snapshot is published, an endpoint of it has a new tracker in its first state
exactly if nobody owned a tracker under its key when the snapshot was prepared. -/
theorem reenabled_endpoint_fresh_iff {env : Environment} {maxRetiredSnapshots : Nat}
    {watched : Watched} (h : Watched.Reachable env maxRetiredSnapshots watched)
    {call : ApplyCall} {candidate index : Nat} {snapshot : Snapshot} {set : Upstream.PlanSet}
    (howner : watched.manager.owner = some (.apply call))
    (hstage : call.stage = .publishing candidate snapshot index)
    (hset : watched.manager.world.sets[index]? = some set) :
    ∃ normalized, normalize env.platform call.resources.upstreams = .ok normalized ∧
      ∀ entry ∈ set.plans, ∃ resource ∈ normalized, entry.1 = resource.id ∧
        entry.2.endpoints.map (fun endpoint => (endpoint.identity, endpoint.weight)) =
          servedEndpoints resource ∧
        ∀ endpoint ∈ entry.2.endpoints, (endpoint.health = none ↔ resource.health.active = none) ∧
          ∀ tracker, endpoint.health = some tracker → ((watched.since < tracker.generation ∧
              watched.trackers tracker = newEndpointHealth tracker.policy) ↔
            makeHealthKey env.platform endpoint.identity resource.health
              entry.2.transportKey ∉ watched.held) := by
  have hsound : watched.Sound env :=
    Runs.invariant (fun _ _ _ hbefore hstep => hbefore.step hstep) h
      (initial_watched_sound env maxRetiredSnapshots)
  have hupcoming := hsound.upcoming call howner
  rw [hstage] at hupcoming
  obtain ⟨found, hfound, hexpects⟩ := hupcoming
  obtain rfl : found = set := Option.some.inj (hfound.symm.trans hset)
  obtain ⟨normalized, hnormalized, hdistinguishes⟩ := hexpects.distinguishes
  refine ⟨normalized, hnormalized, fun entry hentry => ?_⟩
  obtain ⟨resource, hresource, hid, hserved, htracked⟩ := hdistinguishes entry hentry
  refine ⟨resource, hresource, hid, hserved, fun endpoint hendpoint =>
    ⟨(htracked endpoint hendpoint).1, fun tracker htracker => ?_⟩⟩
  rw [← (htracked endpoint hendpoint).2 tracker htracker, and_iff_left_iff_imp]
  exact hexpects.pristine tracker (mem_trackersOf.mpr ⟨entry, hentry, endpoint, hendpoint, htracker⟩)

def Manager.plansAt (manager : Manager) (snapshot : Nat) : List (Bytes × Plan) :=
  match (manager.plansOf snapshot).bind (manager.world.sets[·]?) with
  | none => []
  | some set => set.plans

/-- The same route to another upstream, so that the endpoint is absent. -/
def otherConfiguration : ResourceSet :=
  { sampleConfiguration with
    upstreams := [{ Upstream.sampleUpstream with id := ascii "other" }]
    routes := sampleConfiguration.routes.map fun route => { route with upstreamRef := ascii "other" } }

def firstTracker : Option HealthRuntime :=
  (runAll (Manager.step sampleEnvironment) (publishFirst 1) (Manager.initial 4)).bind fun manager =>
    (trackersOf (manager.plansAt 0)).head?

/-- The endpoint of the first snapshot turns unhealthy, after some steps of requests, and is
absent from the second, whose `Apply` finds this count of the first plan set. -/
def withdrawing (tracker : HealthRuntime) (requests : List Action) (current : Int) :
    List WatchedAction :=
  List.map .manager (publishFirst 1 ++ requests) ++
    [.observe tracker ⟨.active, .transportFailure, 0⟩] ++
    List.map .manager (.lockApply 2 otherConfiguration 0 :: List.replicate 12 (.owner current))

/-- The first plan set is reaped before the third snapshot enables the endpoint again, with
a new tracker: the key was not held. -/
theorem reenabled_endpoint_fresh_iff_reaped :
    ∃ first watched call candidate snapshot index set,
      firstTracker = some first ∧ Watched.Reachable sampleEnvironment 4 watched ∧
      watched.manager.owner = some (.apply call) ∧
      call.stage = .publishing candidate snapshot index ∧
      watched.manager.world.sets[index]? = some set ∧
      (watched.manager.published, (watched.trackers first).state) = ([1, 2], .unhealthy) ∧
      (trackersOf set.plans).map HealthRuntime.identity = [first.identity] ∧
      ∀ entry ∈ set.plans, ∃ resource : Model.Upstream, entry.1 = resource.id ∧
        ∀ endpoint ∈ entry.2.endpoints, ∀ tracker, endpoint.health = some tracker →
          makeHealthKey sampleEnvironment.platform endpoint.identity resource.health
            entry.2.transportKey ∉ watched.held := by
  have hrun : (firstTracker.bind fun first =>
      (runAll (Watched.step sampleEnvironment) (withdrawing first [] 1 ++
        List.map .manager (.background (.reapNow [0]) :: (publishOver 3 1).take 7))
        (Watched.initial 4)).bind fun watched =>
          match watched.manager.owner with
          | some (.apply call) =>
            match call.stage with
            | .publishing _ _ index =>
              (watched.manager.world.sets[index]?).map fun (set : Upstream.PlanSet) => decide
                ((watched.manager.published, (watched.trackers first).state) =
                    ([1, 2], .unhealthy) ∧
                  (trackersOf set.plans).map HealthRuntime.identity = [first.identity] ∧
                  ∀ tracker ∈ trackersOf set.plans, watched.since < tracker.generation ∧
                    watched.trackers tracker = newEndpointHealth tracker.policy)
            | _ => none
          | _ => none) = some true := by
    decide +kernel
  obtain ⟨first, hfirst, hreached⟩ := Option.bind_eq_some_iff.mp hrun
  obtain ⟨watched, hwatched, hshape⟩ := Option.bind_eq_some_iff.mp hreached
  have hreach : Watched.Reachable sampleEnvironment 4 watched := runs_of_runAll hwatched
  split at hshape
  · rename_i call howner
    split at hshape
    · rename_i candidate snapshot index hstage
      obtain ⟨set, hset, hdecided⟩ := Option.map_eq_some_iff.mp hshape
      obtain ⟨hpublished, hidentities, hnew⟩ := of_decide_eq_true hdecided
      obtain ⟨_, _, hplans⟩ := reenabled_endpoint_fresh_iff hreach howner hstage hset
      refine ⟨first, watched, call, candidate, snapshot, index, set, hfirst, hreach, howner, hstage,
        hset, hpublished, hidentities, fun entry hentry => ?_⟩
      obtain ⟨resource, _, hid, _, htracked⟩ := hplans entry hentry
      refine ⟨resource, hid, fun endpoint hendpoint tracker htracker => ?_⟩
      exact ((htracked endpoint hendpoint).2 tracker htracker).mp
        (hnew tracker (mem_trackersOf.mpr ⟨entry, hentry, endpoint, hendpoint, htracker⟩))
    · contradiction
  · contradiction

/-- A request holds the first snapshot while the endpoint turns unhealthy, is absent from
the second snapshot, and is enabled again with the third. -/
def reenabling (tracker : HealthRuntime) : List WatchedAction :=
  withdrawing tracker [.beginAcquire, .callLoad 0, .callSwap 0 1] 2 ++
    List.map .manager (publishOver 3 1)

/-- The third snapshot has the tracker of the first, which is unhealthy. -/
theorem reenabled_endpoint_fresh_fails :
    ∃ watched tracker, Watched.Reachable sampleEnvironment 4 watched ∧
      (watched.manager.published, watched.manager.active) = ([1, 2, 3], some 2) ∧
      tracker ∈ trackersOf (watched.manager.plansAt 0) ∧
      (∀ entry ∈ watched.manager.plansAt 1, ∀ endpoint ∈ entry.2.endpoints,
        endpoint.identity ≠ tracker.identity) ∧
      tracker ∈ trackersOf (watched.manager.plansAt 2) ∧
      (watched.trackers tracker).state = .unhealthy := by
  have hrun : (firstTracker.bind fun tracker =>
      (runAll (Watched.step sampleEnvironment) (reenabling tracker) (Watched.initial 4)).map
        fun watched => decide
          ((watched.manager.published, watched.manager.active) = ([1, 2, 3], some 2) ∧
            tracker ∈ trackersOf (watched.manager.plansAt 0) ∧
            (∀ entry ∈ watched.manager.plansAt 1, ∀ endpoint ∈ entry.2.endpoints,
              endpoint.identity ≠ tracker.identity) ∧
            tracker ∈ trackersOf (watched.manager.plansAt 2) ∧
            (watched.trackers tracker).state = .unhealthy)) = some true := by
    decide +kernel
  obtain ⟨tracker, _, hreached⟩ := Option.bind_eq_some_iff.mp hrun
  obtain ⟨watched, hwatched, hshape⟩ := Option.map_eq_some_iff.mp hreached
  exact ⟨watched, tracker, runs_of_runAll hwatched, of_decide_eq_true hshape⟩

end GGateway.Runtime
