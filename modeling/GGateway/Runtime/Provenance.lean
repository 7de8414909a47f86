import GGateway.Config.Validate
import GGateway.Runtime.Rejection

/-!
# Where a published snapshot comes from

A snapshot that `Apply` publishes was built from the resources of that call.  So a
property of the resources that every call is given becomes one of the resources behind
every published snapshot.

* `ApplyStage.snapshot?` is the snapshot that a call is about to publish.
* `Manager.Sourced` is the invariant, kept by every step.
* `Deployment.step` is the manager as the gateway runs it: what is applied is what the
  validator of a configuration has returned.
-/

namespace GGateway.Runtime

open Text Model Library.Transition Library.Checks

/-! ## The invariant -/

/-- The snapshot that a call is about to publish. -/
def ApplyStage.snapshot? : ApplyStage → Option Snapshot
  | .committing _ snapshot | .counting _ snapshot _ | .publishing _ snapshot _ => some snapshot
  | .locked | .checked | .allowed | .building _ | .retiring _ _ _ | .finishing _ _
  | .releasing _ _ | .returning _ => none

/-- The snapshot was built from resources that have the property. -/
def BuiltFrom (env : Environment) (P : ResourceSet → Prop) (snapshot : Snapshot) : Prop :=
  ∃ resources now plans, P resources ∧
    build env.compilers now snapshot.revision resources plans = .ok snapshot

structure Manager.Sourced (env : Environment) (P : ResourceSet → Prop)
    (manager : Manager) : Prop where
  call : ∀ call, manager.owner = some (.apply call) → P call.resources ∧
    ∀ snapshot, call.stage.snapshot? = some snapshot → BuiltFrom env P snapshot
  snapshots : ∀ published ∈ manager.snapshots, BuiltFrom env P published.snapshot

section Steps

variable {env : Environment} {P : ResourceSet → Prop} {manager next : Manager}

/-- A step after which nobody applies anything, with nothing published. -/
theorem Manager.Sourced.of_idle (h : manager.Sourced env P)
    (howner : next.owner = none ∨ ∃ stage, next.owner = some (.close stage))
    (hsnapshots : next.snapshots = manager.snapshots) : next.Sourced env P := by
  refine ⟨fun call hcall => ?_, hsnapshots ▸ h.snapshots⟩
  rcases howner with hnone | ⟨stage, hclose⟩
  · exact nomatch hnone.symm.trans hcall
  · exact nomatch Option.some.inj (hclose.symm.trans hcall)

theorem Manager.Sourced.of_stage (h : manager.Sourced env P) {call : ApplyCall}
    (hresources : P call.resources) {stage : ApplyStage}
    (hnext : next.owner = some (.apply { call with stage := stage }))
    (hsnapshots : next.snapshots = manager.snapshots)
    (hstage : ∀ snapshot, stage.snapshot? = some snapshot → BuiltFrom env P snapshot) :
    next.Sourced env P := by
  refine ⟨fun found hfound => ?_, hsnapshots ▸ h.snapshots⟩
  obtain rfl := Owner.apply.inj (Option.some.inj (hnext.symm.trans hfound))
  exact ⟨hresources, hstage⟩

theorem Manager.Sourced.of_quiet (h : manager.Sourced env P) {call : ApplyCall}
    (hresources : P call.resources) {stage : ApplyStage} (hstage : stage.snapshot? = none)
    (hnext : next.owner = some (.apply { call with stage := stage }))
    (hsnapshots : next.snapshots = manager.snapshots) : next.Sourced env P :=
  h.of_stage hresources hnext hsnapshots fun _ hsome => nomatch hstage.symm.trans hsome

/-- The step of `Retire` publishes nothing, and resumes the caller or leaves it. -/
theorem retireStep_owner {old : Nat} {stage : RetireStage} {current : Int}
    {resume : Option RetireStage → Owner}
    (h : manager.retireStep env old stage current resume = .next next) :
    next.snapshots = manager.snapshots ∧
      (next.owner = manager.owner ∨ ∃ result, next.owner = some (resume result)) := by
  cases stage with
  | start =>
    obtain ⟨world, _, rfl⟩ := perform_next h
    exact ⟨rfl, Or.inr ⟨_, rfl⟩⟩
  | register =>
    obtain ⟨world, _, rfl⟩ := perform_next h
    exact ⟨rfl, Or.inr ⟨_, rfl⟩⟩
  | drop =>
    simp only [Manager.retireStep] at h
    by_cases hload : current ≤ 0
    · rw [if_pos hload] at h
      obtain ⟨world, _, rfl⟩ := perform_next h
      exact ⟨rfl, Or.inl rfl⟩
    · rw [if_neg hload] at h
      obtain ⟨world, _, rfl⟩ := perform_next h
      exact ⟨rfl, Or.inr ⟨_, rfl⟩⟩

theorem Manager.Sourced.applyStep (h : manager.Sourced env P) {call : ApplyCall}
    (howner : manager.owner = some (.apply call)) {current : Int}
    (hstep : manager.applyStep env call current = .next next) :
    next.Sourced env P := by
  obtain ⟨hresources, hbuilt⟩ := h.call call howner
  obtain ⟨revision, resources, now, stage⟩ := call
  cases stage with
  | locked =>
    simp only [Manager.applyStep] at hstep
    split at hstep <;>
      (obtain rfl := Outcome.next.inj hstep; exact h.of_quiet hresources rfl rfl rfl)
  | checked =>
    obtain ⟨world, _, rfl⟩ := perform_next hstep
    split <;> exact h.of_quiet hresources rfl rfl rfl
  | allowed =>
    simp only [Manager.applyStep] at hstep
    split at hstep
    · contradiction
    · cases hstep
      exact h.of_quiet hresources rfl rfl rfl
    · cases hstep
      exact h.of_quiet hresources rfl rfl rfl
  | building index =>
    simp only [Manager.applyStep] at hstep
    split at hstep
    · contradiction
    rename_i found _
    cases hstep
    refine h.of_stage hresources rfl rfl fun snapshot hsnapshot => ?_
    -- The only snapshot that goes on is the one `Build` has returned.
    unfold afterBuild at hsnapshot
    split at hsnapshot
    · contradiction
    rename_i built hbuild
    split_ifs at hsnapshot with hrevision
    · cases hsnapshot
      exact ⟨resources, now, found.plans, hresources, hrevision ▸ hbuild⟩
    · contradiction
  | committing index snapshot =>
    obtain ⟨world, _, rfl⟩ := perform_next hstep
    refine h.of_stage hresources rfl rfl fun found hfound => ?_
    split_ifs at hfound
    · contradiction
    · exact hbuilt found hfound
  | counting candidate snapshot index =>
    obtain ⟨world, _, rfl⟩ := perform_next hstep
    exact h.of_stage hresources rfl rfl hbuilt
  | publishing candidate snapshot index =>
    cases hstep
    constructor
    · intro found hfound
      have hretire := Option.some.inj hfound
      cases hold : manager.active.bind manager.plansOf with
      | none =>
        rw [hold] at hretire
        obtain rfl := Owner.apply.inj hretire
        exact ⟨hresources, fun _ hsome => by contradiction⟩
      | some old =>
        rw [hold] at hretire
        obtain rfl := Owner.apply.inj hretire
        exact ⟨hresources, fun _ hsome => by contradiction⟩
    · intro published hpublished
      rcases List.mem_append.mp hpublished with hold | hnew
      · exact h.snapshots published hold
      · obtain rfl := List.mem_singleton.mp hnew
        exact hbuilt snapshot rfl
  | retiring candidate old stage =>
    obtain ⟨hsnapshots, hsame | ⟨result, hresumed⟩⟩ := retireStep_owner hstep
    · exact ⟨fun found hfound => h.call found (hsame ▸ hfound), hsnapshots ▸ h.snapshots⟩
    · cases result with
      | none => exact h.of_quiet hresources rfl hresumed hsnapshots
      | some stage => exact h.of_quiet hresources rfl hresumed hsnapshots
  | finishing candidate result =>
    obtain ⟨world, _, rfl⟩ := perform_next hstep
    refine h.of_stage hresources rfl rfl fun found hfound => ?_
    split_ifs at hfound <;> contradiction
  | releasing candidate result =>
    obtain ⟨world, _, rfl⟩ := perform_next hstep
    exact h.of_quiet hresources rfl rfl rfl
  | returning result =>
    cases hstep
    exact h.of_idle (Or.inl rfl) rfl

theorem Manager.Sourced.closeStep (h : manager.Sourced env P) {stage : CloseStage}
    (howner : manager.owner = some (.close stage)) {current : Int}
    (hstep : manager.closeStep env stage current = .next next) :
    next.Sourced env P := by
  cases stage with
  | locked =>
    cases hstep
    exact h.of_idle (Or.inr ⟨.swapping, rfl⟩) rfl
  | swapping =>
    cases hstep
    cases manager.active.bind manager.plansOf with
    | none => exact h.of_idle (Or.inr ⟨.unlocking, rfl⟩) rfl
    | some old => exact h.of_idle (Or.inr ⟨.retiring old .start, rfl⟩) rfl
  | retiring old stage =>
    obtain ⟨hsnapshots, hsame | ⟨result, hresumed⟩⟩ := retireStep_owner hstep
    · exact h.of_idle (Or.inr ⟨.retiring old stage, hsame.trans howner⟩) hsnapshots
    · cases result with
      | none => exact h.of_idle (Or.inr ⟨.unlocking, hresumed⟩) hsnapshots
      | some stage => exact h.of_idle (Or.inr ⟨.retiring old stage, hresumed⟩) hsnapshots
  | unlocking =>
    cases hstep
    exact h.of_idle (Or.inl rfl) rfl

theorem Manager.Sourced.step (h : manager.Sourced env P) {action : Action}
    (hstep : manager.step env action = .next next)
    (haction : ∀ revision resources now, action = .lockApply revision resources now →
      P resources) : next.Sourced env P := by
  cases turn_of_step hstep with
  | @lockApply revision resources now =>
    refine ⟨fun call hcall => ?_, h.snapshots⟩
    obtain rfl := Owner.apply.inj (Option.some.inj hcall)
    exact ⟨haction revision resources now rfl, fun _ hsome => nomatch hsome⟩
  | lockClose => exact h.of_idle (Or.inr ⟨.locked, rfl⟩) rfl
  | apply howner happly => exact h.applyStep howner happly
  | close howner hclose => exact h.closeStep howner hclose
  | beside hbeside =>
    exact ⟨fun call hcall => h.call call (hbeside.owned.owner ▸ hcall),
      hbeside.owned.snapshots ▸ h.snapshots⟩

end Steps

/-! ## Deployments -/

/-- A configuration that was decoded, or any other action of a manager. -/
inductive DeployAction where
  | apply (version : Config.ApiVersion) (decoded : ResourceSet) (revision : Nat) (now : Int)
  | other (action : Action)

/-- A manager that is given validated resources only. -/
def Deployment.step (env : Environment) (manager : Manager) : DeployAction → Result
  | .apply version decoded revision now =>
    match Config.validate env.platform version decoded with
    | .error _ => .blocked
    | .ok resources => manager.step env (.lockApply revision resources now)
  | .other (.lockApply _ _ _) => .blocked
  | .other action => manager.step env action

/-- The resources are what a validator made of a decoded configuration. -/
def Validated (env : Environment) (resources : ResourceSet) : Prop :=
  ∃ version decoded, Config.validate env.platform version decoded = .ok resources

theorem Manager.Sourced.deploy {env : Environment} {manager next : Manager}
    (h : manager.Sourced env (Validated env)) {action : DeployAction}
    (hstep : Deployment.step env manager action = .next next) :
    next.Sourced env (Validated env) := by
  cases action with
  | apply version decoded revision now =>
    simp only [Deployment.step] at hstep
    split at hstep
    · contradiction
    rename_i resources hvalid
    refine h.step hstep fun _ found _ haction => ?_
    obtain ⟨_, rfl, _⟩ := Action.lockApply.inj haction
    exact ⟨version, decoded, hvalid⟩
  | other action =>
    cases action with
    | lockApply revision resources now => contradiction
    | _ =>
      simp only [Deployment.step] at hstep
      exact h.step hstep fun _ _ _ haction => nomatch haction

theorem initial_sourced (env : Environment) (P : ResourceSet → Prop)
    (maxRetiredSnapshots : Nat) : (Manager.initial maxRetiredSnapshots).Sourced env P := by
  constructor
  · intro call hcall
    contradiction
  · intro published hpublished
    contradiction

end GGateway.Runtime
