import GGateway.Library.Checks

/-!
# Who wins the commit of an upgrade

`webSocketCommitController` of `internal/proxy/websocket_commit.go`.  Callbacks that
cancel and the handler that flushes the 101 response take one lock, in any order; a
callback reads the clock before it takes the lock, so that stamps may arrive in another
order than they were made.

* `Arbitration` keeps, next to the controller, which stamps have arrived.
* `Arbitration.Coherent` says what the controller has kept of them: of all stamps the
  *first* one to arrive decides about the commit, and the *last* one about the deadline.
* `earliest_cancellation_iff` says when these are the earliest one.
-/

namespace GGateway.Proxy

/-! ## The controller -/

/-- Points in time are numbers; `0` is `time.Time{}`, which stands for no time at all.
`canceled` says that the context of the tunnel is done.  The write deadlines belong to
the connections, which are numbered. -/
@[ext]
structure CommitController where
  canceled : Bool
  totalDeadline : Int
  canceledAt : Int
  pending : Option Nat
  committed : Bool
  writeDeadline : Nat → Int

variable (totalDeadline : Int)

def newWebSocketCommitController : CommitController :=
  ⟨false, totalDeadline, 0, none, false, fun _ => 0⟩

variable (controller : CommitController)

/-- A total deadline that has passed at the given time. -/
def CommitController.Expired (now : Int) : Prop :=
  controller.totalDeadline ≠ 0 ∧ ¬now < controller.totalDeadline

instance (controller : CommitController) (now : Int) :
    Decidable (controller.Expired now) :=
  inferInstanceAs (Decidable (_ ∧ _))

/-- `SetWriteDeadline` of a connection, which may refuse it. -/
def CommitController.setWriteDeadline (connection : Nat)
    (deadline : Int) (settable : Bool) : CommitController :=
  if settable then
    { controller with
      writeDeadline := Function.update controller.writeDeadline connection deadline }
  else controller

/-- The write deadline for a cancellation: no later than the total deadline. -/
def CommitController.capped (at_ : Int) : Int :=
  if controller.totalDeadline ≠ 0 ∧ controller.totalDeadline < at_ then controller.totalDeadline
  else at_

def CommitController.cancelAt (at_ : Int) (settable : Bool) :
    CommitController :=
  if controller.committed then controller
  else
    let stamped :=
      if controller.canceledAt = 0 then { controller with canceledAt := at_ } else controller
    match stamped.pending with
    | some connection => stamped.setWriteDeadline connection (stamped.capped at_) settable
    | none => { stamped with canceled := true }

def CommitController.canContinue (requestDone : Bool)
    (now : Int) : Bool :=
  decide (controller.canceledAt = 0) && !controller.canceled && !requestDone &&
    !decide (controller.Expired now)

/-- The answer is an error if the connection refuses its deadline. -/
def CommitController.setPending (connection : Nat)
    (requestDone : Bool) (now : Int) (settable : Bool) :
    CommitController × Except Unit Bool :=
  if controller.canceledAt ≠ 0 ∨ controller.canceled = true ∨ requestDone = true ∨
      controller.Expired now then
    (controller, .ok false)
  else if controller.totalDeadline ≠ 0 ∧ settable = false then (controller, .error ())
  else
    let armed :=
      if controller.totalDeadline ≠ 0 then
        controller.setWriteDeadline connection controller.totalDeadline settable
      else controller
    ({ armed with pending := some connection }, .ok true)

def CommitController.finishCommit (flushedAt : Int)
    (settable : Bool) : CommitController × Bool :=
  if controller.Expired flushedAt ∨
      (controller.canceledAt ≠ 0 ∧ ¬flushedAt < controller.canceledAt) then
    (controller, false)
  else
    let done := { controller with committed := true }
    match done.pending with
    | some connection =>
      ({ done.setWriteDeadline connection 0 settable with pending := none }, true)
    | none => (done, true)

/-- A call that holds the lock.  `settable` says whether the connection accepts a write
deadline; a call that sets none does not ask it. -/
inductive CommitCall where
  | cancelAt (at_ : Int) (settable : Bool)
  | setPending (connection : Nat) (requestDone : Bool) (now : Int) (settable : Bool)
  | finishCommit (flushedAt : Int) (settable : Bool)

def CommitController.step : CommitCall → CommitController
  | .cancelAt at_ settable => controller.cancelAt at_ settable
  | .setPending connection requestDone now settable =>
    (controller.setPending connection requestDone now settable).1
  | .finishCommit flushedAt settable => (controller.finishCommit flushedAt settable).1

/-! ## What the calls change -/

section Calls

variable {controller : CommitController} {connection : Nat} {requestDone settable : Bool}
  {at_ now flushedAt deadline : Int}

theorem capped_le (hset : controller.totalDeadline ≠ 0) :
    controller.capped at_ ≤ controller.totalDeadline := by
  unfold CommitController.capped
  split_ifs <;> omega

theorem capped_ne_zero (hat : at_ ≠ 0) : controller.capped at_ ≠ 0 := by
  unfold CommitController.capped
  split_ifs with h
  · exact h.1
  · exact hat

/-- Everything but a write deadline stays. -/
theorem setWriteDeadline_eq :
    controller.setWriteDeadline connection deadline settable =
      { controller with
        writeDeadline := (controller.setWriteDeadline connection deadline settable).writeDeadline
        } := by
  unfold CommitController.setWriteDeadline
  split_ifs <;> rfl

theorem cancelAt_committed (h : controller.committed = true) :
    controller.cancelAt at_ settable = controller :=
  if_pos h

/-- A cancellation before the commit: only the first stamp is kept, and either the
pending connection or the context of the tunnel learns about it. -/
theorem cancelAt_open (h : controller.committed = false) :
    controller.cancelAt at_ settable =
      { controller with
        canceledAt := if controller.canceledAt = 0 then at_ else controller.canceledAt
        canceled := controller.canceled || controller.pending.isNone
        writeDeadline := fun connection =>
          if controller.pending = some connection ∧ settable = true then controller.capped at_
          else controller.writeDeadline connection } := by
  -- The stamp changes neither the pending connection nor the total deadline.
  have hstamped : controller.cancelAt at_ settable =
      match controller.pending with
      | some connection =>
        { controller with
          canceledAt := if controller.canceledAt = 0 then at_ else controller.canceledAt
          }.setWriteDeadline connection (controller.capped at_) settable
      | none =>
        { controller with
          canceledAt := if controller.canceledAt = 0 then at_ else controller.canceledAt
          canceled := true } := by
    unfold CommitController.cancelAt
    rw [if_neg (ne_true_of_eq_false h)]
    by_cases hzero : controller.canceledAt = 0
    · rw [if_pos hzero, if_pos hzero]
      rfl
    · rw [if_neg hzero, if_neg hzero]
  rw [hstamped]
  cases hpending : controller.pending with
  | none => ext <;> simp
  | some connection =>
    cases settable with
    | false => ext <;> simp [CommitController.setWriteDeadline]
    | true =>
      ext other
      · simp [CommitController.setWriteDeadline]
      · rfl
      · rfl
      · simp [CommitController.setWriteDeadline]
      · rfl
      · simp only [CommitController.setWriteDeadline, if_true, Function.update_apply,
          Option.some.injEq, and_true, eq_comm]

/-- A pending connection is accepted only while nothing has been canceled; it then has
the total deadline, if there is one. -/
theorem setPending_cases :
    ((controller.setPending connection requestDone now settable).2 ≠ .ok true ∧
        (controller.setPending connection requestDone now settable).1 = controller) ∨
      (controller.canceledAt = 0 ∧ controller.canceled = false ∧
        (controller.setPending connection requestDone now settable).1 =
          { controller with
            pending := some connection
            writeDeadline :=
              if controller.totalDeadline ≠ 0 then
                Function.update controller.writeDeadline connection controller.totalDeadline
              else controller.writeDeadline }) := by
  unfold CommitController.setPending
  by_cases hrefused : controller.canceledAt ≠ 0 ∨ controller.canceled = true ∨
      requestDone = true ∨ controller.Expired now
  · left
    rw [if_pos hrefused]
    constructor
    · exact fun h => Bool.false_ne_true (Except.ok.inj h)
    · rfl
  · rw [if_neg hrefused]
    simp only [not_or, not_not, Bool.not_eq_true] at hrefused
    by_cases hfailed : controller.totalDeadline ≠ 0 ∧ settable = false
    · left
      rw [if_pos hfailed]
      constructor
      · exact fun h => nomatch h
      · rfl
    · right
      rw [if_neg hfailed]
      constructor
      · exact hrefused.1
      constructor
      · exact hrefused.2.1
      by_cases hdeadline : controller.totalDeadline ≠ 0
      · -- There is a deadline to set, so the connection has not refused it.
        have hsettable : settable = true := by
          cases settable with
          | false => exact absurd ⟨hdeadline, rfl⟩ hfailed
          | true => rfl
        rw [if_pos hdeadline, if_pos hdeadline, hsettable]
        rfl
      · rw [if_neg hdeadline, if_neg hdeadline]

theorem finishCommit_eq_true_iff :
    (controller.finishCommit flushedAt settable).2 = true ↔
      (controller.totalDeadline ≠ 0 → flushedAt < controller.totalDeadline) ∧
        (controller.canceledAt ≠ 0 → flushedAt < controller.canceledAt) := by
  unfold CommitController.finishCommit CommitController.Expired
  split_ifs with hlost
  · simp only [false_iff]
    omega
  have hwon : (controller.totalDeadline ≠ 0 → flushedAt < controller.totalDeadline) ∧
      (controller.canceledAt ≠ 0 → flushedAt < controller.canceledAt) := by omega
  dsimp only
  split
  · exact iff_of_true rfl hwon
  · exact iff_of_true rfl hwon

/-- A lost commit changes nothing; a won one is remembered, and the stamp stays. -/
theorem finishCommit_cases :
    ((controller.finishCommit flushedAt settable).2 = false ∧
        (controller.finishCommit flushedAt settable).1 = controller) ∨
      ((controller.finishCommit flushedAt settable).2 = true ∧
        ∃ deadlines, (controller.finishCommit flushedAt settable).1 =
          { controller with committed := true, pending := none, writeDeadline := deadlines }) := by
  unfold CommitController.finishCommit
  split_ifs with hlost
  · exact .inl ⟨rfl, rfl⟩
  right
  dsimp only
  split
  · rw [setWriteDeadline_eq]
    exact ⟨rfl, _, rfl⟩
  · rename_i hpending
    exact ⟨rfl, controller.writeDeadline, by rw [← hpending]⟩

theorem step_keeps (controller : CommitController) (call : CommitCall) :
    (controller.step call).totalDeadline = controller.totalDeadline ∧
      (controller.committed = true → (controller.step call).committed = true) := by
  cases call with
  | cancelAt at_ settable =>
    cases hcommitted : controller.committed with
    | true =>
      rw [CommitController.step, cancelAt_committed hcommitted]
      exact ⟨rfl, fun _ => hcommitted⟩
    | false =>
      rw [CommitController.step, cancelAt_open hcommitted]
      exact ⟨rfl, nofun⟩
  | setPending connection requestDone now settable =>
    have hcases := @setPending_cases controller connection requestDone settable now
    rcases hcases with ⟨_, hsame⟩ | ⟨_, _, hsame⟩
    · rw [CommitController.step, hsame]
      exact ⟨rfl, id⟩
    · rw [CommitController.step, hsame]
      exact ⟨rfl, id⟩
  | finishCommit flushedAt settable =>
    rcases @finishCommit_cases controller settable flushedAt with ⟨_, hsame⟩ | ⟨_, _, hdone⟩
    · rw [CommitController.step, hsame]
      exact ⟨rfl, id⟩
    · rw [CommitController.step, hdone]
      exact ⟨rfl, fun _ => rfl⟩

theorem foldl_committed (h : controller.committed = true) (calls : List CommitCall) :
    (calls.foldl CommitController.step controller).committed = true := by
  induction calls generalizing controller with
  | nil => exact h
  | cons call rest ih => exact ih ((step_keeps _ call).2 h)

end Calls

/-! ## Arrivals -/

/-- The controller with the stamps that arrived before the commit, and those of them
that have set a write deadline, both in the order of their arrival. -/
structure Arbitration where
  controller : CommitController
  recorded : List Int
  armed : List Int

def Arbitration.start : Arbitration :=
  ⟨newWebSocketCommitController totalDeadline, [], []⟩

def Arbitration.step (arbitration : Arbitration) (call : CommitCall) : Arbitration where
  controller := arbitration.controller.step call
  recorded :=
    match call with
    | .cancelAt at_ _ =>
      if arbitration.controller.committed then arbitration.recorded
      else arbitration.recorded ++ [at_]
    | _ => arbitration.recorded
  armed :=
    match call with
    | .cancelAt at_ settable =>
      if arbitration.controller.committed = false ∧
          arbitration.controller.pending.isSome = true ∧ settable = true then
        arbitration.armed ++ [at_]
      else arbitration.armed
    | _ => arbitration.armed

def arbitrate (calls : List CommitCall) : Arbitration :=
  calls.foldl Arbitration.step (.start totalDeadline)

/-- The stamp of a callback is a time. -/
def CommitCall.Stamped : CommitCall → Prop
  | .cancelAt at_ _ => at_ ≠ 0
  | _ => True

/-- What the controller knows of the arrivals. -/
structure Arbitration.Coherent (arbitration : Arbitration) : Prop where
  nonzero : ∀ at_ ∈ arbitration.recorded, at_ ≠ 0
  subset : arbitration.armed ⊆ arbitration.recorded
  first : arbitration.controller.canceledAt = arbitration.recorded.head?.getD 0
  live : arbitration.recorded = [] → arbitration.controller.canceled = false
  /-- Before any cancellation a connection has no deadline but the total one. -/
  unarmed : arbitration.controller.committed = false → arbitration.armed = [] →
    ∀ connection, arbitration.controller.writeDeadline connection = 0 ∨
      arbitration.controller.writeDeadline connection = arbitration.controller.totalDeadline
  last : arbitration.controller.committed = false →
    ∀ connection, arbitration.controller.pending = some connection →
      arbitration.controller.writeDeadline connection =
        (arbitration.armed.getLast?.map arbitration.controller.capped).getD
          arbitration.controller.totalDeadline

namespace Arbitration

variable {arbitration : Arbitration}

theorem coherent_start : (start totalDeadline).Coherent where
  nonzero _ hmem := absurd hmem List.not_mem_nil
  subset := List.Subset.refl _
  first := rfl
  live _ := rfl
  unarmed _ _ _ := .inl rfl
  last _ _ hpending := absurd hpending (Option.some_ne_none _).symm

/-- An empty record means that no stamp is kept. -/
theorem Coherent.canceledAt_eq_zero_iff (h : arbitration.Coherent) :
    arbitration.controller.canceledAt = 0 ↔ arbitration.recorded = [] := by
  rw [h.first]
  cases hrecorded : arbitration.recorded with
  | nil => simp
  | cons first rest =>
    have hfirst : first ≠ 0 := h.nonzero first (hrecorded ▸ List.mem_cons_self)
    simpa using hfirst

theorem Coherent.cancelAt (h : arbitration.Coherent) {at_ : Int} (hat : at_ ≠ 0)
    (settable : Bool) : (arbitration.step (.cancelAt at_ settable)).Coherent := by
  cases hcommitted : arbitration.controller.committed with
  | true =>
    have hsame : arbitration.step (.cancelAt at_ settable) = arbitration := by
      simp [Arbitration.step, CommitController.step, cancelAt_committed hcommitted, hcommitted]
    rw [hsame]
    exact h
  | false =>
    have hopen := @cancelAt_open arbitration.controller settable at_ hcommitted
    constructor
    · simp only [Arbitration.step, hcommitted, Bool.false_eq_true, if_false, List.mem_append,
        List.mem_singleton]
      rintro stamp (hold | rfl)
      · exact h.nonzero stamp hold
      · exact hat
    · simp only [Arbitration.step, hcommitted, Bool.false_eq_true, if_false]
      split_ifs
      · exact List.append_subset.mpr
          ⟨List.subset_append_of_subset_left _ h.subset, List.subset_append_right _ _⟩
      · exact List.subset_append_of_subset_left _ h.subset
    · simp only [Arbitration.step, CommitController.step, hopen, hcommitted, Bool.false_eq_true,
        if_false, h.canceledAt_eq_zero_iff]
      -- The first stamp stays the first.
      rw [List.head?_append]
      split_ifs with hnone
      · simp [hnone]
      rw [h.first]
      cases hrecorded : arbitration.recorded with
      | nil => exact absurd hrecorded hnone
      | cons first rest => simp
    · simp [Arbitration.step, hcommitted]
    · simp only [Arbitration.step, CommitController.step, hopen, hcommitted, true_and]
      intro _ hnone connection
      split_ifs at hnone with harmed
      · simp at hnone
      rw [if_neg]
      · exact h.unarmed hcommitted hnone connection
      · rintro ⟨hpending, hsettable⟩
        exact harmed ⟨by rw [hpending]; rfl, hsettable⟩
    · simp only [Arbitration.step, CommitController.step, hopen, hcommitted, true_and]
      intro _ connection hpending
      -- The deadline follows the last stamp that could be set.
      cases settable with
      | true =>
        simp only [hpending, Option.isSome_some, and_self, if_true, List.getLast?_concat,
          Option.map_some, Option.getD_some]
        rfl
      | false =>
        simp only [Bool.false_eq_true, and_false, if_false]
        exact h.last hcommitted connection hpending

theorem Coherent.setPending (h : arbitration.Coherent) (connection : Nat) (requestDone : Bool)
    (now : Int) (settable : Bool) :
    (arbitration.step (.setPending connection requestDone now settable)).Coherent := by
  have hcases := @setPending_cases arbitration.controller connection requestDone settable now
  rcases hcases with ⟨_, hsame⟩ | ⟨hzero, _, hset⟩
  · have hunchanged : arbitration.step (.setPending connection requestDone now settable) =
        arbitration := by
      simp only [Arbitration.step, CommitController.step, hsame]
    rw [hunchanged]
    exact h
  · have hrecorded := h.canceledAt_eq_zero_iff.mp hzero
    have harmed : arbitration.armed = [] := List.subset_nil.mp (hrecorded ▸ h.subset)
    constructor
    · exact h.nonzero
    · exact h.subset
    · simp only [Arbitration.step, CommitController.step, hset]
      exact h.first
    · simp only [Arbitration.step, CommitController.step, hset]
      exact h.live
    · simp only [Arbitration.step, CommitController.step, hset]
      intro hcommitted _ other
      have hbefore := h.unarmed hcommitted harmed other
      split_ifs with hdeadline
      · rw [Function.update_apply]
        split_ifs
        · exact .inr rfl
        · exact hbefore
      · exact hbefore
    · simp only [Arbitration.step, CommitController.step, hset]
      intro hcommitted other hpending
      cases hpending
      rw [harmed]
      change _ = arbitration.controller.totalDeadline
      split_ifs with hdeadline
      · exact Function.update_self _ _ _
      -- Without a total deadline the connection keeps having none.
      rcases h.unarmed hcommitted harmed connection with hnone | htotal
      · rw [hnone]
        exact (not_not.mp hdeadline).symm
      · exact htotal

theorem Coherent.finishCommit (h : arbitration.Coherent) (flushedAt : Int) (settable : Bool) :
    (arbitration.step (.finishCommit flushedAt settable)).Coherent := by
  rcases @finishCommit_cases arbitration.controller settable flushedAt with
    ⟨_, hsame⟩ | ⟨_, _, hdone⟩
  · have hunchanged : arbitration.step (.finishCommit flushedAt settable) = arbitration := by
      simp only [Arbitration.step, CommitController.step, hsame]
    rw [hunchanged]
    exact h
  · simp only [Arbitration.step, CommitController.step, hdone]
    constructor
    · exact h.nonzero
    · exact h.subset
    · exact h.first
    · exact h.live
    · exact fun hopen => absurd hopen Bool.noConfusion
    · exact fun hopen => absurd hopen Bool.noConfusion

theorem Coherent.step (h : arbitration.Coherent) {call : CommitCall} (hcall : call.Stamped) :
    (arbitration.step call).Coherent := by
  cases call with
  | cancelAt at_ settable => exact h.cancelAt hcall settable
  | setPending connection requestDone now settable =>
    exact h.setPending connection requestDone now settable
  | finishCommit flushedAt settable => exact h.finishCommit flushedAt settable

theorem totalDeadline_arbitrate (calls : List CommitCall) :
    (arbitrate totalDeadline calls).controller.totalDeadline = totalDeadline := by
  have hrun : ∀ arbitration : Arbitration,
      (calls.foldl Arbitration.step arbitration).controller.totalDeadline =
        arbitration.controller.totalDeadline := by
    induction calls with
    | nil => exact fun _ => rfl
    | cons call rest ih =>
      exact fun arbitration => (ih _).trans (step_keeps arbitration.controller call).1
  exact hrun _

/-- Whatever is called in whatever order. -/
theorem coherent_arbitrate {calls : List CommitCall}
    (hstamped : ∀ call ∈ calls, call.Stamped) : (arbitrate totalDeadline calls).Coherent := by
  have hrun : ∀ arbitration : Arbitration, arbitration.Coherent →
      (calls.foldl Arbitration.step arbitration).Coherent := by
    induction calls with
    | nil => exact fun _ h => h
    | cons call rest ih =>
      intro arbitration h
      have hrest : ∀ other ∈ rest, other.Stamped := fun other hother =>
        hstamped other (List.mem_cons_of_mem _ hother)
      exact ih hrest _ (h.step (hstamped call List.mem_cons_self))
  exact hrun _ (coherent_start totalDeadline)

end Arbitration

/-! ## The earliest cancellation -/

/-- A write deadline that leaves no more time than another one. -/
def NoLater (deadline other : Int) : Prop :=
  other = 0 ∨ (deadline ≠ 0 ∧ deadline ≤ other)

section Law

variable {arbitration : Arbitration}

/-- The commit listens to the stamp that arrived first. -/
theorem finishCommit_law_iff (h : arbitration.Coherent) :
    (∀ flushedAt settable, (arbitration.controller.finishCommit flushedAt settable).2 = true →
        (arbitration.controller.totalDeadline ≠ 0 →
          flushedAt < arbitration.controller.totalDeadline) ∧
        ∀ at_ ∈ arbitration.recorded, flushedAt < at_) ↔
      ∀ at_ ∈ arbitration.recorded, (∀ first ∈ arbitration.recorded.head?, first ≤ at_) ∨
        (arbitration.controller.totalDeadline ≠ 0 ∧
          arbitration.controller.totalDeadline ≤ at_) := by
  have hfirst : ∀ first ∈ arbitration.recorded.head?,
      arbitration.controller.canceledAt = first := by
    intro first hhead
    rw [h.first, Option.mem_def.mp hhead]
    rfl
  constructor
  · intro hlaw at_ hat
    by_contra hlate
    simp only [not_or, not_forall, not_and, not_le] at hlate
    obtain ⟨⟨first, hhead, hbefore⟩, htotal⟩ := hlate
    -- A flush at the time of the stamp that came too late is committed.
    have hwon : (arbitration.controller.finishCommit at_ true).2 = true := by
      rw [finishCommit_eq_true_iff, hfirst first hhead]
      exact ⟨htotal, fun _ => hbefore⟩
    exact lt_irrefl at_ ((hlaw at_ true hwon).2 at_ hat)
  · intro horder flushedAt settable hwon
    rw [finishCommit_eq_true_iff] at hwon
    refine ⟨hwon.1, ?_⟩
    intro at_ hat
    obtain ⟨first, hhead⟩ : ∃ first, first ∈ arbitration.recorded.head? :=
      ⟨_, List.head?_eq_some_head (List.ne_nil_of_mem hat)⟩
    have hstamp := hfirst first hhead
    have hnonzero := h.nonzero first (List.mem_of_mem_head? hhead)
    rw [hstamp] at hwon
    have hflushed := hwon.2 hnonzero
    rcases horder at_ hat with hleast | ⟨htotal, hpast⟩
    · have := hleast first hhead
      omega
    · have := hwon.1 htotal
      omega

/-- The deadline listens to the stamp that arrived last. -/
theorem cancelAt_law_iff (h : arbitration.Coherent)
    (hopen : arbitration.controller.committed = false) {connection : Nat}
    (hpending : arbitration.controller.pending = some connection) {at_ : Int} (hat : at_ ≠ 0) :
    NoLater ((arbitration.controller.cancelAt at_ true).writeDeadline connection)
        (arbitration.controller.writeDeadline connection) ↔
      ∀ last ∈ arbitration.armed.getLast?,
        arbitration.controller.capped at_ ≤ arbitration.controller.capped last := by
  have hset : (arbitration.controller.cancelAt at_ true).writeDeadline connection =
      arbitration.controller.capped at_ := by
    rw [cancelAt_open hopen]
    exact if_pos ⟨hpending, rfl⟩
  have hnonzero := @capped_ne_zero arbitration.controller at_ hat
  rw [hset, h.last hopen connection hpending, NoLater]
  cases hlast : arbitration.armed.getLast? with
  | none =>
    refine iff_of_true ?_ (fun last hmem => absurd hmem (Option.not_mem_none last))
    by_cases hdeadline : arbitration.controller.totalDeadline = 0
    · exact .inl hdeadline
    · exact .inr ⟨hnonzero, capped_le hdeadline⟩
  | some last =>
    have hmem : last ∈ arbitration.armed := List.mem_of_getLast? hlast
    have hlastcapped := @capped_ne_zero arbitration.controller last
      (h.nonzero last (h.subset hmem))
    simp only [Option.map_some, Option.getD_some, Option.mem_some_iff, forall_eq']
    omega

theorem setPending_recorded (h : arbitration.Coherent) (hrecorded : arbitration.recorded ≠ [])
    (connection : Nat) (requestDone : Bool) (now : Int) (settable : Bool) :
    arbitration.controller.setPending connection requestDone now settable =
      (arbitration.controller, .ok false) := by
  have hstamp : arbitration.controller.canceledAt ≠ 0 :=
    fun hzero => hrecorded (h.canceledAt_eq_zero_iff.mp hzero)
  exact if_pos (.inl hstamp)

/-- Of a live request whose connection accepts deadlines. -/
theorem setPending_live_iff (h : arbitration.Coherent) (connection : Nat) (now : Int) :
    (arbitration.controller.setPending connection false now true).2 = .ok true ↔
      arbitration.recorded = [] ∧ ¬arbitration.controller.Expired now := by
  by_cases hrecorded : arbitration.recorded = []
  · have hzero := h.canceledAt_eq_zero_iff.mpr hrecorded
    by_cases hexpired : arbitration.controller.Expired now
    · simp [CommitController.setPending, hexpired]
    · simp [CommitController.setPending, hrecorded, hzero, h.live hrecorded, hexpired]
  · rw [setPending_recorded h hrecorded]
    exact iff_of_false (fun hok => Bool.false_ne_true (Except.ok.inj hok))
      fun hlive => hrecorded hlive.1

end Law

/-- After any calls in any order: a commit is won only before every cancellation exactly
if no stamp is earlier than the first to arrive, the total deadline apart; a cancellation
moves no deadline later exactly if its stamp is no later than the last to arrive; a won
commit stays; and a connection of a live request becomes pending exactly if no cancellation
has arrived and the total deadline has not passed. -/
theorem earliest_cancellation_iff (calls : List CommitCall)
    (hstamped : ∀ call ∈ calls, call.Stamped) (arbitration : Arbitration)
    (hcalls : arbitrate totalDeadline calls = arbitration) :
    ((∀ flushedAt settable, (arbitration.controller.finishCommit flushedAt settable).2 = true →
        (totalDeadline ≠ 0 → flushedAt < totalDeadline) ∧
          ∀ at_ ∈ arbitration.recorded, flushedAt < at_) ↔
      ∀ at_ ∈ arbitration.recorded, (∀ first ∈ arbitration.recorded.head?, first ≤ at_) ∨
        (totalDeadline ≠ 0 ∧ totalDeadline ≤ at_)) ∧
    (arbitration.controller.committed = false → ∀ connection,
      arbitration.controller.pending = some connection → ∀ at_ ≠ 0,
        (NoLater ((arbitration.controller.cancelAt at_ true).writeDeadline connection)
            (arbitration.controller.writeDeadline connection) ↔
          ∀ last ∈ arbitration.armed.getLast?,
            arbitration.controller.capped at_ ≤ arbitration.controller.capped last)) ∧
    (∀ flushedAt settable, (arbitration.controller.finishCommit flushedAt settable).2 = true →
      ∀ (later : List CommitCall) (at_ : Int) (again : Bool) (reached : CommitController),
        later.foldl CommitController.step
            (arbitration.controller.finishCommit flushedAt settable).1 = reached →
          reached.cancelAt at_ again = reached) ∧
    (arbitration.recorded ≠ [] → ∀ connection requestDone now settable,
      arbitration.controller.setPending connection requestDone now settable =
        (arbitration.controller, .ok false)) ∧
    ∀ connection now,
      (arbitration.controller.setPending connection false now true).2 = .ok true ↔
        arbitration.recorded = [] ∧ (totalDeadline ≠ 0 → now < totalDeadline) := by
  subst hcalls
  have h := Arbitration.coherent_arbitrate totalDeadline hstamped
  have htotal : (arbitrate totalDeadline calls).controller.totalDeadline = totalDeadline :=
    Arbitration.totalDeadline_arbitrate totalDeadline calls
  constructor
  · have hlaw := finishCommit_law_iff h
    rw [htotal] at hlaw
    exact hlaw
  constructor
  · intro hopen connection hpending at_ hat
    exact cancelAt_law_iff h hopen hpending hat
  constructor
  · rintro flushedAt settable hwon later at_ again reached rfl
    rcases @finishCommit_cases (arbitrate totalDeadline calls).controller settable flushedAt with
      ⟨hlost, _⟩ | ⟨_, _, hdone⟩
    · exact absurd (hwon.symm.trans hlost) Bool.noConfusion
    · exact cancelAt_committed (foldl_committed (by rw [hdone]) later)
  · refine ⟨setPending_recorded h, fun connection now => ?_⟩
    rw [setPending_live_iff h, CommitController.Expired, htotal, not_and, not_not]

/-- Two cancellations that arrive in their order, on a pending connection. -/
theorem earliest_cancellation_iff_ordered :
    (arbitrate 20 [.setPending 0 false 1 true, .cancelAt 5 true, .cancelAt 10 true]).recorded =
        [5, 10] ∧
      ∀ flushedAt settable, ((arbitrate 20 [.setPending 0 false 1 true, .cancelAt 5 true,
        .cancelAt 10 true]).controller.finishCommit flushedAt settable).2 = true →
          flushedAt < 5 := by
  have hstamped : ∀ call ∈ [CommitCall.setPending 0 false 1 true, .cancelAt 5 true,
      .cancelAt 10 true], call.Stamped := by
    simp [CommitCall.Stamped]
  have hlaw := (earliest_cancellation_iff 20 _ hstamped _ rfl).1.mpr (by decide)
  exact ⟨rfl, fun flushedAt settable hwon => (hlaw flushedAt settable hwon).2 5 (by decide)⟩

/-- With the total deadline 8, its timer, stamped 10, takes the lock before the callback that
is stamped 5: a flush at 7 is committed.  In the other order the deadline of the pending
connection moves from 5 to 8.  And after a commit, which forgets about cancellations, a
connection can become pending. -/
theorem late_stamp_wins :
    (arbitrate 8 [.setPending 0 false 1 true, .cancelAt 10 true, .cancelAt 5 true]).recorded =
        [10, 5] ∧
      ((arbitrate 8 [.setPending 0 false 1 true, .cancelAt 10 true,
        .cancelAt 5 true]).controller.finishCommit 7 true).2 = true ∧
      (arbitrate 8 [.setPending 0 false 1 true, .cancelAt 5 true]).controller.writeDeadline 0 = 5 ∧
      (arbitrate 8 [.setPending 0 false 1 true, .cancelAt 5 true,
        .cancelAt 10 true]).controller.writeDeadline 0 = 8 ∧
      ((arbitrate 8 [.finishCommit 1 true, .cancelAt 5 true]).controller.setPending 0 false 6
        true).2 = .ok true := by
  decide

end GGateway.Proxy
