import Mathlib.Data.List.TakeWhile
import GGateway.Upstream.HealthJournal
import GGateway.Upstream.HealthScheduler

/-!
# One task for each active health check

A probe is a token: it lies in the heap or in the ready queue, or a goroutine holds
it.  `Keeps` says what one step of any goroutine does to the tokens of every
registration: it moves one or, after the registration was retired or the
coordinator stopped, drops one.  Activation alone makes one.
-/

namespace GGateway.Upstream

open Text Model Library.Transition

/-! ## Where the tokens are -/

/-- One token of a registration, seen from another. -/
def token (registration index : Nat) : Nat :=
  if registration = index then 1 else 0

namespace Coordinator

def inHeap (coordinator : Coordinator) (index : Nat) : Nat :=
  coordinator.scheduled.countP fun item => decide (item.registration = index)

def inQueue (coordinator : Coordinator) (index : Nat) : Nat :=
  coordinator.ready.countP fun item => decide (item.registration = index)

def stored (coordinator : Coordinator) (index : Nat) : Nat :=
  coordinator.inHeap index + coordinator.inQueue index

end Coordinator

/-- A call of `schedule` holds the token until it has pushed it. -/
def ScheduleCall.held (call : ScheduleCall) (index : Nat) : Nat :=
  match call.phase with
  | .wake => 0
  | .stoppedLoad | .retiredLoad | .push => token call.registration index

def SchedulerPhase.held (phase : SchedulerPhase) (index : Nat) : Nat :=
  match phase with
  | .next | .idle | .waiting | .due | .returned => 0
  | .hand item | .offering item => token item.registration index
  | .scheduling call => call.held index

def WorkerPhase.held (index : Nat) : WorkerPhase → Nat
  | .idle | .returned => 0
  | .taken item | .live item | .probing item | .probed item _ _ | .reporting item _
  | .observing item _ | .finished item _ | .unstopped item _ => token item.registration index
  | .scheduling call => call.held index

def ActivateCall.held (index : Nat) (call : ActivateCall) : Nat :=
  match call.phase with
  | .retiredLoad | .stoppedLoad | .swap | .returned => 0
  | .scheduling call => call.held index

/-- The work items of a registration: in the heap, in the ready queue, in the
scheduler's hand, with the workers, and in calls of `schedule`. -/
def ProbeWorld.items (world : ProbeWorld) (index : Nat) : Nat :=
  world.coordinator.stored index + world.scheduler.held index +
    total (WorkerPhase.held index) world.workers +
    total (ActivateCall.held index) world.activations

structure Flags where
  activated : Bool
  retired : Bool
  withdrawn : Bool
  silent : Bool
  deriving DecidableEq, Repr

/-- `silent` is the flag of the tracker. -/
def Registration.flags (registration : Registration) : Flags :=
  ⟨registration.activated, registration.retired, registration.withdrawn,
    registration.health.retired⟩

def Coordinator.flags (coordinator : Coordinator) (index : Nat) : Flags :=
  (coordinator.registrations[index]?.map Registration.flags).getD ⟨false, false, false, false⟩

variable {coordinator after next : Coordinator} {index capacity : Nat}
  {registration : Registration} {call : ObserveCall}

theorem flags_eq (h : coordinator.registrations[index]? = some registration) :
    coordinator.flags index = registration.flags := by
  simp [Coordinator.flags, h]

theorem retired_eq_flags (coordinator : Coordinator) (index : Nat) :
    coordinator.retired index = (coordinator.flags index).retired := by
  unfold Coordinator.retired Coordinator.flags
  cases coordinator.registrations[index]? <;> rfl

theorem flags_setRegistration (h : coordinator.registrations[index]? = some registration)
    (changed : Registration) (other : Nat) :
    (coordinator.setRegistration index changed).flags other =
      if other = index then changed.flags else coordinator.flags other := by
  have hlt := (List.getElem?_eq_some_iff.mp h).1
  unfold Coordinator.flags Coordinator.setRegistration
  by_cases hother : other = index
  · subst hother
    simp [hlt]
  · rw [if_neg hother, List.getElem?_set_ne (Ne.symm hother)]

/-! ## What one step does to the tokens -/

/-- A step of a goroutine that has `held` before and `left` after it: no flag changes,
and for each registration the tokens are as many as before, or fewer once it is
retired or the coordinator is stopped. -/
structure Keeps (before after : Coordinator) (held left : Nat → Nat) : Prop where
  flags : ∀ index, after.flags index = before.flags index
  stopped : after.stopped = before.stopped
  tokens : ∀ index, after.stored index + left index = before.stored index + held index ∨
    after.stored index + left index ≤ before.stored index + held index ∧
      ((before.flags index).retired = true ∨ before.stopped = true)

theorem Keeps.refl (coordinator : Coordinator) (held : Nat → Nat) :
    Keeps coordinator coordinator held held :=
  ⟨fun _ => rfl, rfl, fun _ => Or.inl rfl⟩

/-- Letting go of a token is allowed when its registration is retired or the
coordinator is stopped. -/
theorem Keeps.drop {registration : Nat}
    (h : coordinator.retired registration = true ∨ coordinator.stopped = true) :
    Keeps coordinator coordinator (token registration) fun _ => 0 := by
  refine ⟨fun _ => rfl, rfl, fun index => ?_⟩
  by_cases hindex : registration = index
  · subst hindex
    rw [retired_eq_flags] at h
    exact Or.inr ⟨by omega, h⟩
  · left
    rw [token, if_neg hindex]

/-- Changes that no token depends on. -/
theorem Keeps.of_eq {before : Coordinator} {held : Nat → Nat}
    (hflags : ∀ index, after.flags index = before.flags index)
    (hstopped : after.stopped = before.stopped) (hscheduled : after.scheduled = before.scheduled)
    (hready : after.ready = before.ready) : Keeps before after held held := by
  refine ⟨hflags, hstopped, fun index => Or.inl ?_⟩
  unfold Coordinator.stored Coordinator.inHeap Coordinator.inQueue
  rw [hscheduled, hready]

def optionHeld (pending : Option ScheduleCall) (index : Nat) : Nat :=
  match pending with
  | none => 0
  | some call => call.held index

theorem countP_push (coordinator : Coordinator) (item : ScheduledProbe) (index : Nat) :
    (coordinator.push item).countP (fun other => decide (other.registration = index)) =
      coordinator.inHeap index + token item.registration index := by
  unfold Coordinator.push Coordinator.inHeap token
  rw [(List.perm_orderedInsert _ item coordinator.scheduled).countP_eq, List.countP_cons]
  simp

/-- `schedule` pushes its token, or drops it. -/
theorem ScheduleCall.keeps (coordinator : Coordinator) (call : ScheduleCall) :
    Keeps coordinator (call.step coordinator).1 call.held (optionHeld (call.step coordinator).2) := by
  obtain ⟨registration, due, phase⟩ := call
  cases phase with
  | stoppedLoad =>
    simp only [step]
    split_ifs with hstopped
    · exact Keeps.drop (Or.inr hstopped)
    · exact Keeps.refl _ _
  | retiredLoad =>
    simp only [step]
    split_ifs with hretired
    · exact Keeps.drop (Or.inl hretired)
    · exact Keeps.refl _ _
  | push =>
    refine ⟨fun _ => rfl, rfl, fun index => Or.inl ?_⟩
    have hpush := countP_push coordinator ⟨due, coordinator.sequence + 1, registration⟩ index
    simp only [step, optionHeld, held, Coordinator.stored, Coordinator.inHeap,
      Coordinator.inQueue] at hpush ⊢
    omega
  | wake => exact Keeps.of_eq (fun _ => rfl) rfl rfl rfl

/-- A registration is replaced by one with the same flags. -/
theorem Keeps.setRegistration {changed : Registration}
    (h : coordinator.registrations[index]? = some registration)
    (hflags : changed.flags = registration.flags) (held : Nat → Nat) :
    Keeps coordinator (coordinator.setRegistration index changed) held held := by
  refine Keeps.of_eq (fun other => ?_) rfl rfl rfl
  rw [flags_setRegistration h]
  split_ifs with hother
  · rw [hother, flags_eq h, hflags]
  · rfl

/-- `Observe` moves no token and touches no flag. -/
theorem ObserveCall.keeps {pending : Option ObserveCall}
    (h : call.step coordinator = some (after, pending)) (held : Nat → Nat) :
    Keeps coordinator after held held := by
  unfold step at h
  split at h
  · contradiction
  rename_i registration hregistration
  split at h
  · split_ifs at h
    all_goals
      cases h
      exact Keeps.refl _ _
  · split_ifs at h
    · cases h
      exact Keeps.refl _ _
    cases h
    have hflags : Registration.flags { registration with locked := true } =
        registration.flags := rfl
    exact Keeps.setRegistration hregistration hflags held
  · cases h
    have hflags : Registration.flags
        { registration with
          locked := false
          health := registration.health.observeLocked call.observation } =
        registration.flags := rfl
    exact Keeps.setRegistration hregistration hflags held

/-- What `nextScheduled` drops from the heap belongs to retired registrations. -/
theorem keeps_dropWhile (coordinator : Coordinator) :
    Keeps coordinator
      { coordinator with
        scheduled :=
          coordinator.scheduled.dropWhile fun item => coordinator.retired item.registration }
      (fun _ => 0) fun _ => 0 := by
  refine ⟨fun _ => rfl, rfl, fun index => ?_⟩
  have hsplit : coordinator.inHeap index =
      (coordinator.scheduled.takeWhile fun item =>
        coordinator.retired item.registration).countP
          (fun item => decide (item.registration = index)) +
      (coordinator.scheduled.dropWhile fun item =>
        coordinator.retired item.registration).countP
          (fun item => decide (item.registration = index)) := by
    rw [← List.countP_append, List.takeWhile_append_dropWhile]
    rfl
  unfold Coordinator.stored
  rw [hsplit]
  cases hretired : coordinator.retired index with
  | true =>
    rw [retired_eq_flags] at hretired
    refine Or.inr ⟨?_, Or.inl hretired⟩
    show (coordinator.scheduled.dropWhile _).countP _ + coordinator.inQueue index + 0 ≤ _
    omega
  | false =>
    -- None of the dropped items is one of this registration.
    have hnone : (coordinator.scheduled.takeWhile fun item =>
        coordinator.retired item.registration).countP
          (fun item => decide (item.registration = index)) = 0 := by
      rw [List.countP_eq_zero]
      intro item hitem hindex
      have hdropped := List.mem_takeWhile_imp hitem
      rw [decide_eq_true_eq] at hindex
      rw [hindex, hretired] at hdropped
      contradiction
    left
    rw [hnone, Nat.zero_add]
    rfl

/-- The scheduler: what it takes from the heap it puts into the ready queue, or hands
to a call of `schedule`. -/
theorem SchedulerPhase.keeps {phase later : SchedulerPhase} {input : SchedulerInput}
    (h : phase.step capacity coordinator input = some (after, later)) :
    Keeps coordinator after phase.held later.held := by
  unfold step at h
  split at h
  · -- `nextScheduled`
    have hkeeps := keeps_dropWhile coordinator
    split at h
    · rename_i hempty
      cases h
      rwa [hempty] at hkeeps
    rename_i item rest hrest
    cases h
    rw [hrest] at hkeeps
    split_ifs
    · exact hkeeps
    · exact hkeeps
  · split_ifs at h
    cases h
    exact Keeps.of_eq (fun _ => rfl) rfl rfl rfl
  · split_ifs at h
    cases h
    exact Keeps.of_eq (fun _ => rfl) rfl rfl rfl
  · split_ifs at h
    cases h
    exact Keeps.refl _ _
  · split_ifs at h
    cases h
    exact Keeps.refl _ _
  · cases h
    exact Keeps.refl _ _
  · -- `popDue`
    split at h
    · cases h
      exact Keeps.refl _ _
    rename_i item rest hscheduled
    split_ifs at h
    · cases h
      exact Keeps.refl _ _
    cases h
    refine ⟨fun _ => rfl, rfl, fun index => Or.inl ?_⟩
    simp only [Coordinator.stored, Coordinator.inHeap, Coordinator.inQueue, hscheduled, held,
      token, List.countP_cons, decide_eq_true_eq]
    omega
  · rename_i item now
    cases h
    split_ifs with hretired
    · exact Keeps.drop (Or.inl hretired)
    · exact Keeps.refl _ _
  · split_ifs at h
    · cases h
      refine ⟨fun _ => rfl, rfl, fun index => Or.inl ?_⟩
      simp only [Coordinator.stored, Coordinator.inHeap, Coordinator.inQueue, held, token,
        List.countP_append, List.countP_singleton, decide_eq_true_eq]
      omega
    · split at h
      · contradiction
      · cases h
        exact Keeps.of_eq (fun _ => rfl) rfl rfl rfl
  · rename_i call now
    have hkeeps := call.keeps coordinator
    generalize call.step coordinator = result at h hkeeps
    obtain ⟨next, pending⟩ := result
    cases h
    cases pending with
    | none => exact hkeeps
    | some pending => exact hkeeps
  · contradiction

/-- A registered check is one of the two that the workers know. -/
theorem AcceptedHealth.type_eq (checked : AcceptedHealth) :
    checked.active.type = .http ∨ checked.active.type = .tcp := by
  obtain ⟨upstreamID, field, raw, haccepted⟩ := checked.accepted
  obtain ⟨source, hsource⟩ := exists_normalizeActive haccepted checked.probed
  exact (normalizeActive_spec hsource).1

/-- A worker: it keeps what it took until it hands it to a call of `schedule`. -/
theorem WorkerPhase.keeps {phase later : WorkerPhase} {input : WorkerInput}
    (h : phase.step coordinator input = some (after, later)) :
    Keeps coordinator after (fun index => phase.held index) fun index => later.held index := by
  unfold step at h
  split at h
  · split at h
    · contradiction
    rename_i item rest hready
    cases h
    refine ⟨fun _ => rfl, rfl, fun index => Or.inl ?_⟩
    simp only [Coordinator.stored, Coordinator.inHeap, Coordinator.inQueue, hready, held, token,
      List.countP_cons, decide_eq_true_eq]
    omega
  · split_ifs at h
    cases h
    exact Keeps.refl _ _
  · cases h
    split_ifs with hretired
    · exact Keeps.drop (Or.inl hretired)
    · exact Keeps.refl _ _
  · split_ifs at h with hstopped
    · cases h
      exact Keeps.drop (Or.inr hstopped)
    split at h
    · contradiction
    rename_i registration _
    cases h
    -- A check of a third kind would be lost here.
    rcases registration.checked.type_eq with htype | htype
    · rw [htype]
      exact Keeps.refl _ _
    · rw [htype]
      exact Keeps.refl _ _
  · cases h
    exact Keeps.refl _ _
  · cases h
    exact Keeps.refl _ _
  · split at h
    · contradiction
    cases h
    split_ifs
    · exact Keeps.refl _ _
    · exact Keeps.refl _ _
  · split at h
    · contradiction
    · cases h
      exact Keeps.refl _ _
  · rename_i item call now
    obtain ⟨⟨next, pending⟩, hstep, heq⟩ := Option.map_eq_some_iff.mp h
    cases heq
    cases pending with
    | none => exact ObserveCall.keeps hstep _
    | some pending => exact ObserveCall.keeps hstep _
  · cases h
    split_ifs with hstopped
    · exact Keeps.drop (Or.inr hstopped)
    · exact Keeps.refl _ _
  · split at h
    · rename_i hretired
      cases h
      exact Keeps.drop (Or.inl hretired)
    · split at h
      · contradiction
      · cases h
        exact Keeps.of_eq (fun _ => rfl) rfl rfl rfl
  · rename_i call now
    have hkeeps := call.keeps coordinator
    generalize call.step coordinator = result at h hkeeps
    obtain ⟨next, pending⟩ := result
    cases h
    cases pending with
    | none => exact hkeeps
    | some pending => exact hkeeps
  · contradiction

/-- `ActivateHealth` makes a token if it is the first to swap the flag, and only
then. -/
theorem ActivateCall.step_cases {now : Int} {call later : ActivateCall}
    (h : call.step now coordinator = some (after, later)) :
    Keeps coordinator after (fun index => call.held index) (fun index => later.held index) ∨
    ∃ registration, coordinator.registrations[call.registration]? = some registration ∧
      registration.activated = false ∧
      after = coordinator.setRegistration call.registration
        { registration with activated := true } ∧
      ∀ index, call.held index = 0 ∧ later.held index = token call.registration index := by
  obtain ⟨index, phase⟩ := call
  cases phase with
  | retiredLoad =>
    cases h
    left
    split_ifs
    · exact Keeps.refl _ _
    · exact Keeps.refl _ _
  | stoppedLoad =>
    cases h
    left
    split_ifs
    · exact Keeps.refl _ _
    · exact Keeps.refl _ _
  | swap =>
    simp only [step] at h
    split at h
    · contradiction
    rename_i registration hregistration
    split_ifs at h with hactivated
    · cases h
      exact Or.inl (Keeps.refl _ _)
    cases h
    right
    exact ⟨registration, hregistration, by simpa using hactivated, rfl,
      fun other => ⟨rfl, rfl⟩⟩
  | scheduling schedule =>
    have hkeeps := schedule.keeps coordinator
    simp only [step] at h
    generalize schedule.step coordinator = result at h hkeeps
    obtain ⟨next, pending⟩ := result
    cases h
    left
    cases pending with
    | none => exact hkeeps
    | some pending => exact hkeeps
  | returned => contradiction

/-! ## The invariant of the tokens -/

namespace ProbeWorld

/-- No registration has two tokens, none has one before it is activated, and one that
is activated has one until it is retired or the coordinator stopped. -/
def Sound (world : ProbeWorld) : Prop :=
  ∀ index, world.items index ≤ 1 ∧
    ((world.coordinator.flags index).activated = false → world.items index = 0) ∧
    ((world.coordinator.flags index).activated = true →
      (world.coordinator.flags index).retired = false → world.coordinator.stopped = false →
      world.items index = 1)

variable {before after : ProbeWorld}

/-- Steps that activate nothing. -/
theorem Sound.mono (h : before.Sound)
    (hactivated : ∀ index, (after.coordinator.flags index).activated =
      (before.coordinator.flags index).activated)
    (hretired : ∀ index, (before.coordinator.flags index).retired = true →
      (after.coordinator.flags index).retired = true)
    (hstopped : before.coordinator.stopped = true → after.coordinator.stopped = true)
    (hitems : ∀ index, after.items index = before.items index ∨
      after.items index ≤ before.items index ∧
        ((before.coordinator.flags index).retired = true ∨ before.coordinator.stopped = true)) :
    after.Sound := by
  intro index
  obtain ⟨hone, hnone, hsome⟩ := h index
  rw [hactivated index]
  rcases hitems index with hsame | ⟨hless, hended⟩
  · rw [hsame]
    refine ⟨hone, hnone, fun hactive hlive hrunning => hsome hactive ?_ ?_⟩
    · exact Bool.eq_false_iff.mpr fun hold => by simp [hretired index hold] at hlive
    · exact Bool.eq_false_iff.mpr fun hold => by simp [hstopped hold] at hrunning
  · refine ⟨by omega, fun hactive => ?_, fun _ hlive hrunning => ?_⟩
    · have hzero := hnone hactive
      omega
    · rcases hended with hgone | hgone
      · rw [hretired index hgone] at hlive
        contradiction
      · rw [hstopped hgone] at hrunning
        contradiction

/-- A step of one goroutine: the others hold the same tokens as before. -/
theorem Sound.keeps (h : before.Sound) {held left : Nat → Nat}
    (hkeeps : Keeps before.coordinator after.coordinator held left)
    (hitems : ∀ index, ∃ rest,
      before.items index = before.coordinator.stored index + held index + rest ∧
      after.items index = after.coordinator.stored index + left index + rest) : after.Sound := by
  refine h.mono (fun index => ?_) (fun index => ?_) ?_ (fun index => ?_)
  · rw [hkeeps.flags]
  · rw [hkeeps.flags]
    exact id
  · rw [hkeeps.stopped]
    exact id
  · obtain ⟨rest, hbefore, hafter⟩ := hitems index
    rcases hkeeps.tokens index with hsame | ⟨hless, hended⟩
    · left
      omega
    · right
      exact ⟨by omega, hended⟩

/-- The first activation of a registration. -/
theorem Sound.activate (h : before.Sound)
    (hregistration : before.coordinator.registrations[index]? = some registration)
    (hdormant : registration.activated = false)
    (hafter : after.coordinator = before.coordinator.setRegistration index
      { registration with activated := true })
    (hitems : ∀ other, after.items other = before.items other + token index other) :
    after.Sound := by
  intro other
  obtain ⟨hone, hnone, hsome⟩ := h other
  rw [hitems other, hafter, flags_setRegistration hregistration]
  by_cases hother : other = index
  · subst hother
    have hzero : before.items other = 0 := by
      apply hnone
      rw [flags_eq hregistration]
      exact hdormant
    rw [if_pos rfl, token, if_pos rfl, hzero]
    exact ⟨le_refl _, fun hactive => by simp [Registration.flags] at hactive, fun _ _ _ => rfl⟩
  · rw [if_neg hother, token, if_neg (Ne.symm hother), Nat.add_zero]
    exact ⟨hone, hnone, hsome⟩

theorem flags_register (coordinator : Coordinator) (endpointID : Bytes) (generation : Nat)
    (checked : AcceptedHealth) (index : Nat) :
    Coordinator.flags
      { coordinator with
        registrations :=
          coordinator.registrations ++ [Registration.new endpointID generation checked] } index =
      coordinator.flags index := by
  unfold Coordinator.flags
  rcases Nat.lt_trichotomy index coordinator.registrations.length with hlt | heq | hgt
  · rw [List.getElem?_append_left hlt]
  · -- A new registration has no flag set, as if it were not there.
    subst heq
    rw [List.getElem?_concat_length, List.getElem?_eq_none (le_refl _)]
    rfl
  · rw [List.getElem?_eq_none (by rw [List.length_append, List.length_singleton]; omega),
      List.getElem?_eq_none (by omega)]

/-- The registration that a step of `Retire` leaves behind. -/
inductive Retires (registration : Registration) (call : RetireCall) :
    Registration → Option RetireCall → Prop where
  | again : call.phase = .swap → registration.retired = true →
      Retires registration call { registration with withdrawn := true } none
  | swap : call.phase = .swap → registration.retired = false →
      Retires registration call { registration with retired := true }
        (some ⟨call.registration, .health⟩)
  | health : call.phase = .health →
      Retires registration call { registration with health := registration.health.retire }
        (some ⟨call.registration, .wake⟩)
  | wake : call.phase = .wake →
      Retires registration call { registration with withdrawn := true } none

theorem retires_of_step {call : RetireCall} {pending : Option RetireCall}
    (h : call.step coordinator = some (next, pending)) :
    ∃ registration changed,
      coordinator.registrations[call.registration]? = some registration ∧
      Retires registration call changed pending ∧
      (∀ other, next.flags other =
        if other = call.registration then changed.flags else coordinator.flags other) ∧
      next.scheduled = coordinator.scheduled ∧ next.ready = coordinator.ready ∧
      next.stopped = coordinator.stopped := by
  obtain ⟨index, phase⟩ := call
  unfold RetireCall.step at h
  split at h
  · contradiction
  rename_i registration hregistration
  refine ⟨registration, ?_⟩
  cases phase with
  | swap =>
    split_ifs at h with hretired
    · cases h
      exact ⟨_, hregistration, .again rfl hretired, flags_setRegistration hregistration _, rfl,
        rfl, rfl⟩
    · cases h
      exact ⟨_, hregistration, .swap rfl (by simpa using hretired),
        flags_setRegistration hregistration _, rfl, rfl, rfl⟩
  | health =>
    cases h
    exact ⟨_, hregistration, .health rfl, flags_setRegistration hregistration _, rfl, rfl, rfl⟩
  | wake =>
    cases h
    have hwoken : ({ coordinator with wake := true } : Coordinator).registrations[index]? =
        some registration := hregistration
    exact ⟨_, hregistration, .wake rfl, flags_setRegistration hwoken _, rfl, rfl, rfl⟩

/-- A step of `Retire` only raises flags, and none of `activated`. -/
theorem Retires.flags {changed : Registration} {call : RetireCall} {pending : Option RetireCall}
    (h : Retires registration call changed pending) :
    changed.activated = registration.activated ∧
      (registration.retired = true → changed.retired = true) ∧
      (registration.health.retired = true → changed.health.retired = true) := by
  cases h with
  | again _ _ => exact ⟨rfl, id, id⟩
  | swap _ _ => exact ⟨rfl, fun _ => rfl, id⟩
  | health _ => exact ⟨rfl, id, fun _ => rfl⟩
  | wake _ => exact ⟨rfl, id, id⟩

theorem items_of_eq (hscheduled : coordinator.scheduled = before.coordinator.scheduled)
    (hready : coordinator.ready = before.coordinator.ready) (index : Nat) :
    items { before with coordinator := coordinator } index = before.items index := by
  unfold items Coordinator.stored Coordinator.inHeap Coordinator.inQueue
  rw [hscheduled, hready]

/-! ## Observing after retirement -/

/-- The call of `Observe` is under way, from a request or from a worker. -/
def Observing (world : ProbeWorld) (call : ObserveCall) : Prop :=
  some call ∈ world.observers ∨ ∃ item, WorkerPhase.observing item call ∈ world.workers

/-- A tracker is silent once `Retire` has returned, and a call of `Observe` that
started later is still before its first load. -/
structure Quiet (world : ProbeWorld) : Prop where
  withdrawn : ∀ index, (world.coordinator.flags index).withdrawn = true →
    (world.coordinator.flags index).silent = true
  retired : ∀ index, (world.coordinator.flags index).retired = true →
    (world.coordinator.flags index).silent = true ∨ world.retiring = some ⟨index, .health⟩
  waking : ∀ index, world.retiring = some ⟨index, .wake⟩ →
    (world.coordinator.flags index).silent = true
  late : ∀ call, world.Observing call → call.late = true →
    call.phase = .load ∧ (world.coordinator.flags call.registration).silent = true

/-- A call that started late returns at its first load. -/
theorem pending_eq_none {pending : Option ObserveCall}
    (h : call.step coordinator = some (next, pending)) (hload : call.phase = .load)
    (hsilent : (coordinator.flags call.registration).silent = true) :
    next = coordinator ∧ pending = none := by
  unfold ObserveCall.step at h
  split at h
  · contradiction
  rename_i registration hregistration
  rw [flags_eq hregistration] at hsilent
  have hretired : registration.health.retired = true := hsilent
  rw [hload] at h
  rw [if_pos (Or.inr hretired)] at h
  cases h
  exact ⟨rfl, rfl⟩

theorem late_eq {later : ObserveCall} (h : call.step coordinator = some (next, some later)) :
    later.late = call.late := by
  unfold ObserveCall.step at h
  split at h
  · contradiction
  split at h
  all_goals
    try split_ifs at h
    all_goals
      obtain ⟨_, hlater⟩ := Prod.mk.inj (Option.some.inj h)
      first | contradiction | rw [← Option.some.inj hlater]

/-- The next state of a call that is under way was not started late. -/
theorem Quiet.not_late (h : before.Quiet) {later : ObserveCall} (hcall : before.Observing call)
    (hstep : call.step before.coordinator = some (next, some later)) : later.late = false := by
  rw [late_eq hstep]
  refine Bool.eq_false_iff.mpr fun hlate => ?_
  obtain ⟨hload, hsilent⟩ := h.late call hcall hlate
  have hnone := (pending_eq_none hstep hload hsilent).2
  contradiction

/-- Where a worker's call of `Observe` comes from. -/
theorem WorkerPhase.observing_cases {phase : WorkerPhase} {input : WorkerInput}
    {item : ScheduledProbe} {later : ObserveCall}
    (h : phase.step coordinator input = some (next, .observing item later)) :
    (∃ call, phase = .observing item call ∧ call.step coordinator = some (next, some later)) ∨
      (later.phase = .load ∧
        later.late = (coordinator.flags later.registration).withdrawn) := by
  cases phase with
  | reporting probe observation =>
    cases input with
    | proceed now =>
      right
      simp only [WorkerPhase.step] at h
      split at h
      · contradiction
      rename_i registration hregistration
      obtain ⟨_, hlater⟩ := Prod.mk.inj (Option.some.inj h)
      obtain ⟨_, rfl⟩ := WorkerPhase.observing.inj hlater
      exact ⟨rfl, by rw [flags_eq hregistration]; rfl⟩
    | receive | done | result | panicked => contradiction
  | observing probe call =>
    cases input with
    | proceed now =>
      left
      obtain ⟨⟨after, pending⟩, hstep, heq⟩ := Option.map_eq_some_iff.mp h
      obtain ⟨rfl, hlater⟩ := Prod.mk.inj heq
      cases pending with
      | none => contradiction
      | some pending =>
        obtain ⟨rfl, rfl⟩ := WorkerPhase.observing.inj hlater
        exact ⟨call, rfl, hstep⟩
    | receive | done | result | panicked => contradiction
  | _ =>
    -- No other phase leads to a call of `Observe`.
    exfalso
    cases input <;> grind [WorkerPhase.step]

/-- Steps that leave the last three flags alone. -/
theorem Quiet.mono (h : before.Quiet)
    (hflags : ∀ index,
      (after.coordinator.flags index).retired = (before.coordinator.flags index).retired ∧
      (after.coordinator.flags index).withdrawn = (before.coordinator.flags index).withdrawn ∧
      (after.coordinator.flags index).silent = (before.coordinator.flags index).silent)
    (hretiring : after.retiring = before.retiring)
    (hlate : ∀ call, after.Observing call → call.late = true →
      before.Observing call ∨ call.phase = .load ∧
        (before.coordinator.flags call.registration).withdrawn = true) : after.Quiet := by
  refine ⟨fun index => ?_, fun index => ?_, fun index => ?_, fun call hcall hstarted => ?_⟩
  · rw [(hflags index).2.1, (hflags index).2.2]
    exact h.withdrawn index
  · rw [(hflags index).1, (hflags index).2.2, hretiring]
    exact h.retired index
  · rw [(hflags index).2.2, hretiring]
    exact h.waking index
  · rw [(hflags call.registration).2.2]
    rcases hlate call hcall hstarted with hold | ⟨hload, hwithdrawn⟩
    · exact h.late call hold hstarted
    · exact ⟨hload, h.withdrawn _ hwithdrawn⟩

/-- A step of `Retire`. -/
theorem Quiet.retiring (h : before.Quiet) {call : RetireCall} {pending : Option RetireCall}
    (hcall : before.retiring = some call)
    (hstep : call.step before.coordinator = some (coordinator, pending)) :
    Quiet { before with coordinator := coordinator, retiring := pending } := by
  obtain ⟨registration, changed, hregistration, hretires, hflags, _⟩ := retires_of_step hstep
  have hbefore := flags_eq hregistration
  have hsilent : ∀ index, (before.coordinator.flags index).silent = true →
      (coordinator.flags index).silent = true := by
    intro index hold
    rw [hflags]
    split_ifs with hindex
    · rw [hindex, hbefore] at hold
      exact hretires.flags.2.2 hold
    · exact hold
  have hlate : ∀ observer : ObserveCall, before.Observing observer → observer.late = true →
      observer.phase = .load ∧ (coordinator.flags observer.registration).silent = true := by
    intro observer hobserver hstarted
    obtain ⟨hload, hold⟩ := h.late observer hobserver hstarted
    exact ⟨hload, hsilent _ hold⟩
  -- Only one call is under way, so every other registration is silent when it is retired.
  have hothers : ∀ index, index ≠ call.registration →
      (before.coordinator.flags index).retired = true →
      (before.coordinator.flags index).silent = true := by
    intro index hindex hretired
    refine (h.retired index hretired).resolve_right fun hhealth => hindex ?_
    rw [hcall] at hhealth
    rw [Option.some.inj hhealth]
  have hown : registration.retired = true → call.phase = .swap →
      registration.health.retired = true := by
    intro hretired hphase
    have hcases := h.retired call.registration
    rw [hbefore, hcall] at hcases
    refine (hcases hretired).resolve_right fun hhealth => ?_
    rw [Option.some.inj hhealth] at hphase
    contradiction
  have hwaking : call.phase = .wake → registration.health.retired = true := by
    intro hphase
    have hwake := h.waking call.registration
    rw [hbefore, hcall, ← hphase] at hwake
    exact hwake rfl
  refine ⟨fun index => ?_, fun index => ?_, fun index => ?_, hlate⟩
  · rw [hflags]
    split_ifs with hindex
    · cases hretires with
      | again hphase hretired => exact fun _ => hown hretired hphase
      | swap _ _ =>
        have hwithdrawn := h.withdrawn call.registration
        rw [hbefore] at hwithdrawn
        exact hwithdrawn
      | health _ => exact fun _ => rfl
      | wake hphase => exact fun _ => hwaking hphase
    · exact h.withdrawn index
  · rw [hflags]
    split_ifs with hindex
    · subst hindex
      intro hretired
      cases hretires with
      | again hphase hold => exact Or.inl (hown hold hphase)
      | swap _ _ => exact Or.inr rfl
      | health _ => exact Or.inl rfl
      | wake hphase => exact Or.inl (hwaking hphase)
    · exact fun hretired => Or.inl (hothers index hindex hretired)
  · intro hpending
    cases hretires with
    | again _ _ => contradiction
    | swap _ _ => simp at hpending
    | health _ =>
      have hindex : call.registration = index := by simpa using hpending
      rw [hflags, if_pos hindex.symm]
      rfl
    | wake _ => contradiction

/-- A step that moves tokens changes no flag. -/
theorem Quiet.keeps (h : before.Quiet) {held left : Nat → Nat}
    (hkeeps : Keeps before.coordinator after.coordinator held left)
    (hretiring : after.retiring = before.retiring)
    (hlate : ∀ call, after.Observing call → call.late = true →
      before.Observing call ∨ call.phase = .load ∧
        (before.coordinator.flags call.registration).withdrawn = true) : after.Quiet := by
  refine h.mono (fun index => ?_) hretiring hlate
  rw [hkeeps.flags]
  exact ⟨rfl, rfl, rfl⟩

theorem invariant_step {action : ProbeAction} (h : before.Sound) (hquiet : before.Quiet)
    (hstep : before.step capacity action = some after) : after.Sound ∧ after.Quiet := by
  cases action with
  | register endpointID checked =>
    cases hstep
    have hflags := flags_register before.coordinator endpointID
      (before.coordinator.registrations.length + 1) checked
    refine ⟨h.mono (fun index => ?_) (fun index hretired => ?_) id fun _ => Or.inl rfl,
      hquiet.mono (fun index => ?_) rfl fun call hcall _ => Or.inl hcall⟩
    · exact congrArg Flags.activated (hflags index)
    · exact (congrArg Flags.retired (hflags index)).trans hretired
    · have hindex := hflags index
      exact ⟨congrArg Flags.retired hindex, congrArg Flags.withdrawn hindex,
        congrArg Flags.silent hindex⟩
  | activate index =>
    obtain ⟨_, _, hafter⟩ := Option.bind_eq_some_iff.mp hstep
    cases hafter
    refine ⟨h.mono (fun _ => rfl) (fun _ => id) id fun other => Or.inl ?_,
      hquiet.mono (fun _ => ⟨rfl, rfl, rfl⟩) rfl fun call hcall _ => Or.inl hcall⟩
    unfold items
    rw [total_concat]
    rfl
  | activation index now =>
    obtain ⟨call, hcall, hafter⟩ := Option.bind_eq_some_iff.mp hstep
    obtain ⟨⟨coordinator, later⟩, hlater, hafter⟩ := Option.bind_eq_some_iff.mp hafter
    cases hafter
    rcases ActivateCall.step_cases hlater with
      hkeeps | ⟨registration, hregistration, hdormant, rfl, hheld⟩
    · refine ⟨h.keeps hkeeps fun other => ?_, hquiet.keeps hkeeps rfl fun _ hcall _ => Or.inl hcall⟩
      obtain ⟨rest, hbefore, hset⟩ := exists_total_set (ActivateCall.held other) hcall
      have hlater := hset later
      refine ⟨before.scheduler.held other + total (WorkerPhase.held other) before.workers + rest,
        ?_, ?_⟩
      all_goals
        simp only [items]
        omega
    · refine ⟨h.activate hregistration hdormant rfl fun other => ?_,
        hquiet.mono (fun other => ?_) rfl fun _ hcall _ => Or.inl hcall⟩
      · obtain ⟨rest, hbefore, hset⟩ := exists_total_set (ActivateCall.held other) hcall
        have hlater := hset later
        obtain ⟨hzero, htoken⟩ := hheld other
        have hstored : (before.coordinator.setRegistration call.registration
            { registration with activated := true }).stored other =
              before.coordinator.stored other := rfl
        simp only [items]
        omega
      · rw [flags_setRegistration hregistration]
        split_ifs with hother
        · rw [hother, flags_eq hregistration]
          exact ⟨rfl, rfl, rfl⟩
        · exact ⟨rfl, rfl, rfl⟩
  | observe index observation =>
    obtain ⟨registration, hregistration, hafter⟩ := Option.bind_eq_some_iff.mp hstep
    cases hafter
    refine ⟨h.mono (fun _ => rfl) (fun _ => id) id fun _ => Or.inl rfl,
      hquiet.mono (fun _ => ⟨rfl, rfl, rfl⟩) rfl fun call hcall hlate => ?_⟩
    rcases hcall with hmem | hworker
    · rcases List.mem_append.mp hmem with hold | hnew
      · exact Or.inl (Or.inl hold)
      obtain rfl := Option.some.inj (List.mem_singleton.mp hnew)
      refine Or.inr ⟨rfl, ?_⟩
      rw [flags_eq hregistration]
      exact hlate
    · exact Or.inl (Or.inr hworker)
  | observer index =>
    obtain ⟨call, hcall, hafter⟩ := Option.bind_eq_some_iff.mp hstep
    obtain ⟨⟨coordinator, pending⟩, hpending, hafter⟩ := Option.bind_eq_some_iff.mp hafter
    cases hafter
    have hkeeps := ObserveCall.keeps hpending fun _ => 0
    have hunder : before.Observing call := by
      rw [Option.join_eq_some_iff] at hcall
      exact Or.inl (List.mem_of_getElem? hcall)
    refine ⟨h.keeps hkeeps fun other => ?_, hquiet.keeps hkeeps rfl fun later hlater hlate => ?_⟩
    · refine ⟨before.scheduler.held other + total (WorkerPhase.held other) before.workers +
        total (ActivateCall.held other) before.activations, ?_, ?_⟩
      all_goals
        simp only [items]
        omega
    · rcases hlater with hmem | hworker
      · rcases List.mem_or_eq_of_mem_set hmem with hold | hnew
        · exact Or.inl (Or.inl hold)
        rw [← hnew] at hpending
        rw [hquiet.not_late hunder hpending] at hlate
        contradiction
      · exact Or.inl (Or.inr hworker)
  | retire index =>
    obtain ⟨_, _, hafter⟩ := Option.bind_eq_some_iff.mp hstep
    split at hafter
    · contradiction
    rename_i hnone
    cases hafter
    refine ⟨h.mono (fun _ => rfl) (fun _ => id) id fun _ => Or.inl rfl,
      hquiet.withdrawn, fun other hretired => ?_, fun other hwaking => ?_, hquiet.late⟩
    · left
      exact (hquiet.retired other hretired).resolve_right (by simp [hnone])
    · simp at hwaking
  | retiring =>
    obtain ⟨call, hcall, hafter⟩ := Option.bind_eq_some_iff.mp hstep
    obtain ⟨⟨coordinator, pending⟩, hpending, hafter⟩ := Option.bind_eq_some_iff.mp hafter
    cases hafter
    obtain ⟨registration, changed, hregistration, hretires, hflags, hscheduled, hready,
      hstopped⟩ := retires_of_step hpending
    obtain ⟨hactivated, hretired, _⟩ := hretires.flags
    have hbefore := flags_eq hregistration
    refine ⟨h.mono (fun other => ?_) (fun other => ?_) (fun hstop => hstopped.trans hstop)
      fun other => Or.inl (items_of_eq hscheduled hready other), hquiet.retiring hcall hpending⟩
    all_goals
      dsimp only
      rw [hflags]
      split_ifs with hother
      · rw [hother, hbefore]
        first | exact hactivated | exact hretired
      · first | rfl | exact id
  | scheduler input =>
    obtain ⟨⟨coordinator, later⟩, hlater, hafter⟩ := Option.bind_eq_some_iff.mp hstep
    cases hafter
    have hkeeps := SchedulerPhase.keeps hlater
    refine ⟨h.keeps hkeeps fun other => ?_, hquiet.keeps hkeeps rfl fun _ hcall _ => Or.inl hcall⟩
    refine ⟨total (WorkerPhase.held other) before.workers +
      total (ActivateCall.held other) before.activations, ?_, ?_⟩
    all_goals
      simp only [items]
      omega
  | worker index input =>
    obtain ⟨worker, hworker, hafter⟩ := Option.bind_eq_some_iff.mp hstep
    obtain ⟨⟨coordinator, phase⟩, hphase, hafter⟩ := Option.bind_eq_some_iff.mp hafter
    cases hafter
    have hkeeps := WorkerPhase.keeps hphase
    refine ⟨h.keeps hkeeps fun other => ?_, hquiet.keeps hkeeps rfl fun later hlater hlate => ?_⟩
    · obtain ⟨rest, hbefore, hset⟩ := exists_total_set (WorkerPhase.held other) hworker
      have hlater := hset phase
      refine ⟨before.scheduler.held other + rest +
        total (ActivateCall.held other) before.activations, ?_, ?_⟩
      all_goals
        simp only [items]
        omega
    · rcases hlater with hrequest | ⟨item, hmem⟩
      · exact Or.inl (Or.inl hrequest)
      rcases List.mem_or_eq_of_mem_set hmem with hold | hnew
      · exact Or.inl (Or.inr ⟨item, hold⟩)
      rw [← hnew] at hphase
      rcases WorkerPhase.observing_cases hphase with ⟨call, hcall, hpending⟩ | ⟨hload, hwithdrawn⟩
      · have hunder : before.Observing call :=
          Or.inr ⟨item, hcall ▸ List.mem_of_getElem? hworker⟩
        rw [hquiet.not_late hunder hpending] at hlate
        contradiction
      · exact Or.inr ⟨hload, hwithdrawn ▸ hlate⟩
  | stop =>
    cases hstep
    exact ⟨h.mono (fun _ => rfl) (fun _ => id) (fun _ => rfl) fun _ => Or.inl rfl,
      hquiet.mono (fun _ => ⟨rfl, rfl, rfl⟩) rfl fun call hcall _ => Or.inl hcall⟩
  | cancel =>
    simp only [step] at hstep
    split_ifs at hstep
    cases hstep
    exact ⟨h.mono (fun _ => rfl) (fun _ => id) id fun _ => Or.inl rfl,
      hquiet.mono (fun _ => ⟨rfl, rfl, rfl⟩) rfl fun call hcall _ => Or.inl hcall⟩

/-! ## Runs -/

theorem invariant_of_reachable {workers : Nat} {world : ProbeWorld}
    (h : Reachable capacity workers world) : world.Sound ∧ world.Quiet := by
  have hinitial : (initial workers).Sound ∧ (initial workers).Quiet := by
    have hflags : ∀ index, (initial workers).coordinator.flags index =
        ⟨false, false, false, false⟩ := fun _ => rfl
    have hitems : ∀ index, (initial workers).items index = 0 := by
      intro index
      have hidle : total (WorkerPhase.held index) (List.replicate workers WorkerPhase.idle) = 0 := by
        simp [total, WorkerPhase.held]
      show 0 + 0 + total (WorkerPhase.held index) (List.replicate workers WorkerPhase.idle) + 0 = 0
      rw [hidle]
    refine ⟨fun index => ?_, ⟨fun index => ?_, fun index => ?_, fun index => ?_, ?_⟩⟩
    · rw [hitems, hflags]
      exact ⟨by omega, fun _ => rfl, fun hactive => by simp at hactive⟩
    · rw [hflags]
      exact id
    · rw [hflags]
      exact Or.inl
    · intro hnone
      simp [initial] at hnone
    · rintro call (hmem | ⟨item, hmem⟩)
      · simp [initial] at hmem
      · simp [initial] at hmem
  refine Runs.invariant (P := fun world => world.Sound ∧ world.Quiet) ?_ h hinitial
  intro before action after hbefore haction
  unfold act at haction
  split at haction
  · contradiction
  rename_i next hnext
  cases haction
  exact invariant_step hbefore.1 hbefore.2 hnext

end ProbeWorld

/-- In every interleaving of activation, retirement, the scheduler, the workers and
their probes, a registration has no work item before it is activated, exactly one
from then on until it is retired, and never two; and a call of `Observe` that starts
after `Retire` has returned changes no tracker. -/
theorem health_check_circulates {capacity workers : Nat} {world : ProbeWorld}
    (h : ProbeWorld.Reachable capacity workers world) :
    (∀ index registration, world.coordinator.registrations[index]? = some registration →
      (registration.activated = false → world.items index = 0) ∧
      (registration.activated = true → registration.retired = false →
        world.coordinator.stopped = false → world.items index = 1) ∧
      world.items index ≤ 1) ∧
    ∀ call, world.Observing call → call.late = true →
      ∀ after pending, call.step world.coordinator = some (after, pending) →
        after.registrations = world.coordinator.registrations := by
  obtain ⟨hsound, hquiet⟩ := ProbeWorld.invariant_of_reachable h
  constructor
  · intro index registration hregistration
    obtain ⟨hone, hnone, hsome⟩ := hsound index
    rw [flags_eq hregistration] at hnone hsome
    exact ⟨hnone, hsome, hone⟩
  · intro call hcall hlate after pending hstep
    obtain ⟨hload, hsilent⟩ := hquiet.late call hcall hlate
    rw [(ProbeWorld.pending_eq_none hstep hload hsilent).1]

/-- The policy of a TCP check with a passive policy beside it, as it was accepted. -/
def probedHealth : AcceptedHealth where
  policy := probedPolicy
  active := ⟨.tcp, second, second, second, 2, 0, 2, 2, [], [], [], []⟩
  probed := rfl
  accepted := ⟨[], [], probedPolicy, by decide +kernel⟩

/-- Two checks are registered.  The first is activated and its probe is under way; the
second is retired, and a request that had selected its endpoint observes it later. -/
theorem health_check_circulates_probing :
    ∃ world, ProbeWorld.Reachable 1 1 world ∧ world.items 0 = 1 ∧ world.items 1 = 0 ∧
      ∃ call, world.Observing call ∧ call.late = true ∧
        ∀ after pending, call.step world.coordinator = some (after, pending) →
          after.registrations = world.coordinator.registrations := by
  have hrun : (runAll (ProbeWorld.act 1)
      [.register (ascii "a") probedHealth, .register (ascii "b") probedHealth, .activate 0,
        .activation 0 0, .activation 0 0, .activation 0 0, .activation 0 0, .activation 0 0,
        .activation 0 0, .scheduler (.proceed (2 * second)), .scheduler (.proceed (2 * second)),
        .scheduler (.proceed 0), .scheduler (.proceed 0), .worker 0 .receive,
        .worker 0 (.proceed 0), .worker 0 (.proceed 0), .retire 1, .retiring, .retiring, .retiring,
        .observe 1 ⟨.passive, .timeout, 0⟩] (ProbeWorld.initial 1)).map (fun world =>
        (world.coordinator.registrations.map Registration.flags, world.coordinator.stopped,
          world.observers)) =
      some ([⟨true, false, false, false⟩, ⟨false, true, true, true⟩], false,
        [some ⟨1, ⟨.passive, .timeout, 0⟩, true, .load⟩]) := by
    decide +kernel
  obtain ⟨world, hworld, hshape⟩ := Option.map_eq_some_iff.mp hrun
  have hreach : ProbeWorld.Reachable 1 1 world := runs_of_runAll hworld
  obtain ⟨hitems, hlate⟩ := health_check_circulates hreach
  obtain ⟨hflags, hrest⟩ := Prod.mk.inj hshape
  obtain ⟨hstopped, hobservers⟩ := Prod.mk.inj hrest
  obtain ⟨first, second, hregistrations⟩ :
      ∃ first second, world.coordinator.registrations = [first, second] := by
    rw [← List.length_eq_two, ← List.length_map, hflags]
    rfl
  rw [hregistrations] at hitems hflags
  obtain ⟨hfirst, hsecond⟩ := List.cons.inj hflags
  have hsecond := (List.cons.inj hsecond).1
  refine ⟨world, hreach, ?_, ?_, ⟨1, ⟨.passive, .timeout, 0⟩, true, .load⟩, ?_, rfl, ?_⟩
  · exact (hitems 0 first rfl).2.1 (congrArg Flags.activated hfirst)
      (congrArg Flags.retired hfirst) hstopped
  · exact (hitems 1 second rfl).1 (congrArg Flags.activated hsecond)
  · left
    rw [hobservers]
    exact List.mem_singleton.mpr rfl
  · refine hlate _ (Or.inl ?_) rfl
    rw [hobservers]
    exact List.mem_singleton.mpr rfl

end GGateway.Upstream
