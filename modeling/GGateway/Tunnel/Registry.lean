import GGateway.Library.Transition

/-!
# The tunnel registry

`internal/tunnel/registry.go`: handlers, session goroutines and drainers race for the
registrations.  A step goes to the next lock, callback or wait.

* `Registration.Lives` lists the points of the two lives of a registration: it is rolled
  back, or it is activated and its session ends.
* `Registry.Sound` ties the map, the wait counter and the drains to them.
-/

namespace GGateway.Tunnel

open Library.Transition

/-- What `Run` returns, apart from reason and duration. -/
structure Result where
  downstreamToUpstream : UInt64
  upstreamToDownstream : UInt64
  deriving DecidableEq

inductive RegistrationState where
  | pending
  | active
  | done
  deriving DecidableEq

/-- The `sync.Once` of the cleanup. -/
inductive Once where
  | fresh
  | running
  | done
  deriving DecidableEq

inductive Direction where
  | downstreamToUpstream
  | upstreamToDownstream
  deriving DecidableEq

/-- What the observer and the release callback see. -/
inductive Event where
  | opened
  | bytes (direction : Direction) (count : UInt64)
  | closed (result : Result)
  | released
  deriving DecidableEq

/-- Where a goroutine stands that works for a registration: that of `Activate`, which goes on
as the session's, or a caller of `finish`, with the session's result if there is one. -/
inductive Worker where
  | opening
  | running
  | ended (result : Result)
  | finishing (result : Option Result)
  | closing (result : Result)
  | releasing
  | counting
  | returned
  deriving DecidableEq

structure Registration where
  state : RegistrationState := .pending
  cleanup : Once := .fresh
  workers : List Worker := []
  events : List Event := []
  deriving DecidableEq

/-- One step of a worker, with the wait counter; `result` is what a running session returns. -/
def Registration.advance (entry : Registration) (index : Nat) (result : Result)
    (wait : Int) : Option (Registration × Int) :=
  let goes := fun (entry : Registration) worker =>
    { entry with workers := entry.workers.set index worker }
  let reports := fun events => { entry with events := entry.events ++ events }
  match entry.workers[index]? with
  | some .opening => some (goes (reports [.opened]) .running, wait)
  | some .running => some (goes entry (.ended result), wait)
  | some (.ended result) =>
    if entry.state = .active then
      some (goes { entry with state := .done } (.finishing (some result)), wait)
    else some (goes entry .returned, wait)
  | some (.finishing result?) =>
    match entry.cleanup with
    | .fresh =>
      some (goes { entry with cleanup := .running } (result?.elim .releasing .closing), wait)
    | .running => none
    | .done => some (goes entry .returned, wait)
  | some (.closing result) =>
    some (goes (reports [.bytes .downstreamToUpstream result.downstreamToUpstream,
      .bytes .upstreamToDownstream result.upstreamToDownstream, .closed result]) .releasing, wait)
  | some .releasing => some (goes (reports [.released]) .counting, wait)
  | some .counting => some (goes { entry with cleanup := .done } .returned, wait - 1)
  | some .returned | none => none

inductive Drain where
  | waiting
  | forcing (sessions : List Nat)
  | returned
  deriving DecidableEq

/-- The registry with all registrations it ever made, numbered as they came; `registrations` are
the keys of its map, `forced` the sessions that a drain has closed. -/
structure Registry where
  admissionClosed : Bool := false
  made : List Registration := []
  registrations : List Nat := []
  wait : Int := 0
  forced : List Nat := []
  drains : List Drain := []

inductive Action where
  | register
  | closeAdmission
  | activate (id : Nat)
  | rollback (id : Nat)
  | advance (id worker : Nat) (result : Result)
  | drain
  | expire (drain : Nat) (order : List Nat)
  | force (drain : Nat)
  | leave (drain : Nat)

namespace Registry

/-- Whoever sets a registration to done deletes its key under the same lock. -/
def put (registry : Registry) (id : Nat) (changed : Registration) (wait : Int) : Registry :=
  { registry with
    made := registry.made.set id changed
    registrations := if changed.state = .done then registry.registrations.filter (· ≠ id)
      else registry.registrations
    wait := wait }

/-- A pending registration is taken; its new owner works on. -/
def take (state : RegistrationState) (worker : Worker) (registry : Registry) (id : Nat) :
    Registry :=
  match registry.made[id]? with
  | some entry =>
    if entry.state = .pending then
      registry.put id { entry with state := state, workers := entry.workers ++ [worker] }
        registry.wait
    else registry
  | none => registry

def activate : Registry → Nat → Registry :=
  take .active .opening

/-- `Rollback`, and what `Drain` does with a registration that it finds pending. -/
def rollback : Registry → Nat → Registry :=
  take .done (.finishing none)

/-- `order` is the order in which an expired drain ranges over the map; it may run its calls
of `finish` in any order. -/
def step (registry : Registry) : Action → Outcome String Registry
  | .register =>
    if registry.admissionClosed then .next registry
    else .next { registry with
      made := registry.made ++ [{}]
      registrations := registry.registrations ++ [registry.made.length]
      wait := registry.wait + 1 }
  | .closeAdmission => .next { registry with admissionClosed := true }
  | .activate id => .next (registry.activate id)
  | .rollback id => .next (registry.rollback id)
  | .advance id worker result =>
    match registry.made[id]? with
    | none => .blocked
    | some entry =>
      match entry.advance worker result registry.wait with
      | none => .blocked
      | some (changed, wait) =>
        if wait < 0 then .panicked "sync: negative WaitGroup counter"
        else .next (registry.put id changed wait)
  | .drain =>
    .next { registry with admissionClosed := true, drains := registry.drains ++ [.waiting] }
  | .expire drain order =>
    if registry.drains[drain]? = some .waiting ∧ order.Perm registry.registrations then
      .next (order.foldl rollback
        { registry with drains := registry.drains.set drain (.forcing order) })
    else .blocked
  | .force drain =>
    match registry.drains[drain]? with
    | some (.forcing (id :: rest)) =>
      .next { registry with
        forced := id :: registry.forced, drains := registry.drains.set drain (.forcing rest) }
    | _ => .blocked
  | .leave drain =>
    -- admission is closed, so a counter at zero stays there
    if (registry.drains[drain]? = some .waiting ∨ registry.drains[drain]? = some (.forcing [])) ∧
        registry.wait = 0 then
      .next { registry with drains := registry.drains.set drain .returned }
    else .blocked

end Registry

/-! ## The two lives -/

/-- All that is ever reported of an activated registration. -/
def served (result : Result) : List Event :=
  [.opened, .bytes .downstreamToUpstream result.downstreamToUpstream,
    .bytes .upstreamToDownstream result.upstreamToDownstream, .closed result, .released]

namespace Registration

inductive Lives : Registration → Prop
  | pending : Lives {}
  | rolledBack : Lives ⟨.done, .fresh, [.finishing none], []⟩
  | releasing : Lives ⟨.done, .running, [.releasing], []⟩
  | counting : Lives ⟨.done, .running, [.counting], [.released]⟩
  | returned : Lives ⟨.done, .done, [.returned], [.released]⟩
  | activated : Lives ⟨.active, .fresh, [.opening], []⟩
  | runs : Lives ⟨.active, .fresh, [.running], [.opened]⟩
  | ends (result : Result) : Lives ⟨.active, .fresh, [.ended result], [.opened]⟩
  | ended (result : Result) : Lives ⟨.done, .fresh, [.finishing (some result)], [.opened]⟩
  | closing (result : Result) : Lives ⟨.done, .running, [.closing result], [.opened]⟩
  | closed (result : Result) : Lives ⟨.done, .running, [.releasing], (served result).take 4⟩
  | released (result : Result) : Lives ⟨.done, .running, [.counting], served result⟩
  | served (result : Result) : Lives ⟨.done, .done, [.returned], served result⟩

/-- What the wait counter counts. -/
def owed (entry : Registration) : Int :=
  if entry.cleanup = .done then 0 else 1

theorem owed_nonneg (entry : Registration) : 0 ≤ entry.owed := by
  unfold owed
  split_ifs <;> decide

/-- A registration goes on along its life, and the counter with it. -/
structure Follows (entry changed : Registration) : Prop where
  lives : changed.Lives
  owed : changed.owed ≤ entry.owed
  done : entry.state = .done → changed.state = .done

theorem Lives.advance {entry changed : Registration} {wait wait' : Int}
    (h : entry.Lives) {index : Nat} {result : Result}
    (hstep : entry.advance index result wait = some (changed, wait')) :
    entry.Follows changed ∧ wait' = wait + changed.owed - entry.owed := by
  cases index with
  | succ index => cases h <;> simp [Registration.advance] at hstep
  | zero =>
    -- every point has one worker, which leads to one other point
    cases h <;> simp [Registration.advance] at hstep <;> obtain ⟨rfl, rfl⟩ := hstep <;>
      exact ⟨⟨by constructor, by simp [owed], by simp⟩, by simp [owed]⟩

end Registration

/-! ## The registry -/

namespace Registry

def Awaits (registry : Registry) : Drain → Prop
  | .waiting => True
  | .forcing sessions => ∀ id entry, registry.made[id]? = some entry →
      entry.state = .done ∨ id ∈ registry.forced ∨ id ∈ sessions
  | .returned => registry.wait = 0

structure Sound (registry : Registry) : Prop where
  lives : ∀ entry ∈ registry.made, entry.Lives
  registrations : ∀ id, id ∈ registry.registrations ↔ ∃ entry,
    registry.made[id]? = some entry ∧ entry.state ≠ .done
  wait : registry.wait = total Registration.owed registry.made
  drains : ∀ drain ∈ registry.drains, registry.admissionClosed = true ∧ registry.Awaits drain

variable {registry : Registry} {id : Nat} {entry changed : Registration}

theorem Sound.owed_le (h : registry.Sound) (hmem : entry ∈ registry.made) :
    entry.owed ≤ registry.wait := by
  rw [h.wait]
  exact le_total Registration.owed_nonneg hmem

theorem Sound.put (h : registry.Sound) (hid : registry.made[id]? = some entry)
    (hfollows : entry.Follows changed) :
    (registry.put id changed (registry.wait + changed.owed - entry.owed)).Sound := by
  have hat : (registry.made.set id changed)[id]? = some changed :=
    List.getElem?_set_self (List.getElem?_eq_some_iff.mp hid).1
  refine ⟨forall_mem_set h.lives hfollows.lives, fun other => ?_, ?_, fun drain hmem => ?_⟩
  · simp only [Registry.put]
    by_cases hother : other = id
    · have hbefore : id ∈ registry.registrations ↔ entry.state ≠ .done := by
        simp [h.registrations, hid]
      have hdone := hfollows.done
      subst hother
      rw [hat]
      split_ifs with hchanged
      · simp [hchanged]
      · tauto
    · rw [List.getElem?_set_ne (Ne.symm hother), ← h.registrations]
      split_ifs <;> simp [hother]
  · obtain ⟨rest, hbefore, hafter⟩ := exists_total_set Registration.owed hid
    simp only [Registry.put]
    rw [h.wait, hbefore, hafter]
    ring
  · obtain ⟨hclosed, hawaits⟩ := h.drains drain hmem
    refine ⟨hclosed, ?_⟩
    cases drain with
    | waiting => trivial
    | forcing sessions =>
      intro other found hfound
      by_cases hother : other = id
      · subst hother
        obtain rfl := Option.some.inj (hat.symm.trans hfound)
        exact (hawaits other entry hid).imp_left hfollows.done
      · exact hawaits other found ((List.getElem?_set_ne (Ne.symm hother)).symm.trans hfound)
    | returned =>
      -- nothing is owed any more, so nothing can be paid
      have hbound := h.owed_le (List.mem_of_getElem? hid)
      have hnonneg := changed.owed_nonneg
      have hless := hfollows.owed
      simp_all only [Awaits, Registry.put]
      omega

theorem Sound.take (h : registry.Sound) {state : RegistrationState} {worker : Worker}
    (hlives : (⟨state, .fresh, [worker], []⟩ : Registration).Lives) (id : Nat) :
    (registry.take state worker id).Sound := by
  unfold Registry.take
  split
  case h_2 => exact h
  case h_1 entry hid =>
    split_ifs with hpending
    · have hfresh : entry = {} := by
        cases h.lives entry (List.mem_of_getElem? hid) <;> simp_all
      subst hfresh
      have hput := h.put hid ⟨hlives, le_refl _, by simp⟩
      simpa [Registration.owed] using hput
    · exact h

theorem Sound.moves (h : registry.Sound) {index : Nat} {before after : Drain}
    (hbefore : registry.drains[index]? = some before) (hafter : registry.Awaits after) :
    Sound { registry with drains := registry.drains.set index after } :=
  have hclosed := (h.drains before (List.mem_of_getElem? hbefore)).1
  { h with drains := forall_mem_set h.drains (And.intro hclosed hafter) }

theorem Sound.forces (h : registry.Sound) (id : Nat) :
    Sound { registry with forced := id :: registry.forced } := by
  refine { h with drains := fun drain hmem => ?_ }
  obtain ⟨hclosed, hawaits⟩ := h.drains drain hmem
  refine ⟨hclosed, ?_⟩
  cases drain with
  | waiting => trivial
  | returned => exact hawaits
  | forcing sessions =>
    intro other entry hother
    exact (hawaits other entry hother).imp_right (Or.imp_left (List.mem_cons_of_mem id))

theorem Sound.step (h : registry.Sound) (action : Action) :
    (registry.step action).Ensures Sound := by
  cases action with
  | register =>
    simp only [Registry.step]
    split_ifs with hclosed
    · exact h
    refine ⟨forall_mem_concat h.lives .pending, fun id => ?_, ?_, fun drain hmem => ?_⟩
    · rw [List.mem_append, h.registrations, List.mem_singleton, List.getElem?_append]
      split_ifs with hold
      · simp [hold.ne]
      obtain rfl | hbeyond := eq_or_ne id registry.made.length
      · simp
      · have hlater : id - registry.made.length ≠ 0 := by omega
        simp [hbeyond, hlater, List.getElem?_eq_none (not_lt.mp hold)]
    · simp [h.wait, Registration.owed]
    · exact absurd (h.drains drain hmem).1 hclosed
  | closeAdmission => exact { h with drains := fun drain hmem => ⟨rfl, (h.drains drain hmem).2⟩ }
  | activate id => exact h.take .activated id
  | rollback id => exact h.take .rolledBack id
  | advance id worker result =>
    simp only [Registry.step]
    split
    · trivial
    rename_i entry hid
    split
    · trivial
    rename_i changed wait hadvance
    obtain ⟨hfollows, rfl⟩ := (h.lives _ (List.mem_of_getElem? hid)).advance hadvance
    split_ifs with hnegative
    · have hbound := h.owed_le (List.mem_of_getElem? hid)
      have hnonneg := changed.owed_nonneg
      omega
    · exact h.put hid hfollows
  | drain =>
    refine { h with drains := forall_mem_concat (fun other hmem => ?_) ⟨rfl, trivial⟩ }
    exact ⟨rfl, (h.drains other hmem).2⟩
  | expire drain order =>
    simp only [Registry.step]
    split_ifs with hready
    · have hforcing : registry.Awaits (.forcing order) := by
        intro id entry hid
        refine or_iff_not_imp_left.mpr fun hlive => .inr ?_
        exact hready.2.mem_iff.mpr ((h.registrations id).mpr ⟨entry, hid, hlive⟩)
      exact List.foldlRecOn order rollback (h.moves hready.1 hforcing)
        fun _ hbefore id _ => hbefore.take .rolledBack id
    · trivial
  | force drain =>
    simp only [Registry.step]
    split
    case h_2 => trivial
    case h_1 id rest hforcing =>
      have hrest : Awaits { registry with forced := id :: registry.forced } (.forcing rest) := by
        intro other entry hother
        have hthen := (h.drains _ (List.mem_of_getElem? hforcing)).2 other entry hother
        simp only [List.mem_cons] at hthen ⊢
        tauto
      exact (h.forces id).moves hforcing hrest
  | leave drain =>
    simp only [Registry.step]
    split_ifs with hready
    · rcases hready.1 with hwaiting | hforced
      · exact h.moves hwaiting hready.2
      · exact h.moves hforced hready.2
    · trivial

theorem sound_of_runs (h : Runs step {} registry) : registry.Sound :=
  Runs.ensures (fun _ action hbefore => hbefore.step action) h
    ⟨List.forall_mem_nil _, by simp, rfl, List.forall_mem_nil _⟩

end Registry

variable {registry : Registry} {id : Nat} {entry : Registration}

/-- However handlers, sessions and drains interleave: a registration is in the map until it is
done; before that nothing but its opening is reported; and all that is ever reported is one
release, or for an activated one its opening, its bytes, its closing and then one release. -/
theorem registration_settled_once (h : Runs Registry.step {} registry)
    (hid : registry.made[id]? = some entry) :
    (id ∈ registry.registrations ↔ entry.state ≠ .done) ∧
      (entry.state ≠ .done → entry.events <+: [.opened]) ∧
      (entry.events <+: [.released] ∨ ∃ result, entry.events <+: served result) := by
  have hsound := Registry.sound_of_runs h
  have hlives := hsound.lives entry (List.mem_of_getElem? hid)
  refine ⟨by simp [hsound.registrations, hid], ?_, ?_⟩
  · cases hlives <;> simp
  · cases hlives with
    | pending | rolledBack | releasing | activated => exact .inl List.nil_prefix
    | counting | returned => exact .inl (List.prefix_refl _)
    | runs => exact .inr ⟨⟨0, 0⟩, _, rfl⟩
    | ends result | ended result | closing result => exact .inr ⟨result, _, rfl⟩
    | closed result => exact .inr ⟨result, List.take_prefix 4 _⟩
    | released result | served result => exact .inr ⟨result, List.prefix_refl _⟩

/-- The wait counter counts the registrations whose cleanup has not returned, and never goes
below zero.  A drain that has closed its sessions waits only for those and for cleanups; when
it has returned, nothing is registered and everything is released, then and ever after. -/
theorem drain_settles_all (h : Runs Registry.step {} registry) :
    registry.wait = total Registration.owed registry.made ∧
      (∀ action cause, registry.step action ≠ .panicked cause) ∧
      (.forcing [] ∈ registry.drains → ∀ id entry, registry.made[id]? = some entry →
        entry.state = .done ∨ id ∈ registry.forced) ∧
      (.returned ∈ registry.drains → registry.registrations = [] ∧
        ∀ entry ∈ registry.made, entry.events = [.released] ∨
          ∃ result, entry.events = served result) := by
  have hsound := Registry.sound_of_runs h
  refine ⟨hsound.wait, fun action cause hpanic => ?_, fun hmem id entry hid => ?_,
    fun hmem => ?_⟩
  · have hstep := hsound.step action
    rwa [hpanic] at hstep
  · simpa using (hsound.drains _ hmem).2 id entry hid
  · have hwait : registry.wait = 0 := (hsound.drains _ hmem).2
    have hcleaned : ∀ entry ∈ registry.made, entry.cleanup = .done := by
      intro entry hentry
      have hbound := hsound.owed_le hentry
      by_contra hcleanup
      rw [Registration.owed, if_neg hcleanup] at hbound
      omega
    constructor
    · refine List.eq_nil_iff_forall_not_mem.mpr fun id hregistered => ?_
      obtain ⟨entry, hid, hlive⟩ := (hsound.registrations id).mp hregistered
      have hentry := List.mem_of_getElem? hid
      have hdone := hcleaned entry hentry
      cases hsound.lives entry hentry <;> contradiction
    · intro entry hentry
      have hdone := hcleaned entry hentry
      cases hsound.lives entry hentry with
      | returned => exact .inl rfl
      | served result => exact .inr ⟨result, rfl⟩
      | _ => contradiction

/-- One registration has served, one is rolled back, and one runs. -/
theorem registration_settled_once_three : ∃ registry, Runs Registry.step {} registry ∧
    registry.made.map Registration.events = [served ⟨5, 7⟩, [.released], [.opened]] ∧
      0 ∉ registry.registrations ∧ 1 ∉ registry.registrations ∧ 2 ∈ registry.registrations := by
  have hrun : (runAll Registry.step
      ([Action.register, .register, .register, .activate 0, .rollback 1, .activate 2] ++
        List.replicate 7 (Action.advance 0 0 ⟨5, 7⟩) ++
        List.replicate 3 (Action.advance 1 0 ⟨0, 0⟩) ++ [Action.advance 2 0 ⟨0, 0⟩])
      {}).map Registry.made = some [⟨.done, .done, [.returned], served ⟨5, 7⟩⟩,
        ⟨.done, .done, [.returned], [.released]⟩, ⟨.active, .fresh, [.running], [.opened]⟩] := by
    decide +kernel
  obtain ⟨registry, hregistry, hmade⟩ := Option.map_eq_some_iff.mp hrun
  have hruns := runs_of_runAll hregistry
  refine ⟨registry, hruns, by rw [hmade]; rfl, ?_, ?_, ?_⟩
  · exact mt (registration_settled_once hruns (by rw [hmade]; rfl)).1.mp (by decide)
  · exact mt (registration_settled_once hruns (by rw [hmade]; rfl)).1.mp (by decide)
  · exact (registration_settled_once hruns (by rw [hmade]; rfl)).1.mpr (by decide)

/-- A drain expires in front of an activated and a pending registration. -/
theorem drain_settles_all_expired : ∃ registry, Runs Registry.step {} registry ∧
    registry.drains = [.returned] ∧ registry.forced = [0, 1] ∧ registry.registrations = [] := by
  have hrun : (runAll Registry.step
      ([Action.register, .register, .activate 0, .drain, .expire 0 [1, 0], .force 0, .force 0] ++
        List.replicate 7 (Action.advance 0 0 ⟨5, 7⟩) ++
        List.replicate 3 (Action.advance 1 0 ⟨0, 0⟩) ++ [Action.leave 0])
      {}).map (fun registry => (registry.drains, registry.forced)) = some ([.returned], [0, 1]) := by
    decide +kernel
  obtain ⟨registry, hregistry, hshape⟩ := Option.map_eq_some_iff.mp hrun
  obtain ⟨hdrains, hforced⟩ := Prod.mk.inj hshape
  have hruns := runs_of_runAll hregistry
  have hreturned : Drain.returned ∈ registry.drains := by simp [hdrains]
  exact ⟨registry, hruns, hdrains, hforced, ((drain_settles_all hruns).2.2.2 hreturned).1⟩

end GGateway.Tunnel
